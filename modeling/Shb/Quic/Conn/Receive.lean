import Shb.Quic.Conn.Streams

/-!
# `quic/conn.rs` — receiving

A datagram holds packets, a packet holds frames, and each frame has a handler. An error of a
frame ends its packet where it stands: what the frames before it did stays done, and the
packet is not recorded as received for acknowledgement.
-/

namespace Shb.Quic

namespace Connection

/-! ## TLS output -/

variable (c : Connection)

/-- The server's transport parameters name the connection ids this exchange used. -/
def validateServerParams : Except Fault Unit :=
  let handshakeScid := (c.peerCids.find? fun p => p.seq = 0).map (·.cid)
  if c.params.initialSourceConnectionId ≠ handshakeScid then .error .initialScid
  else if c.params.originalDestinationConnectionId ≠ some c.originalDcid then .error .originalDcid
  else if c.params.retrySourceConnectionId ≠ c.retryScid then .error .retryScid
  else .ok ()

/-- The first entry with sequence number 0 takes the token of the transport parameters. -/
def setFirstToken (token : Option Bytes) : List PeerCid → List PeerCid
  | [] => []
  | p :: rest =>
    if p.seq = 0 then { p with token := token } :: rest else p :: setFirstToken token rest

/-- Take the peer's transport parameters. -/
def takePeerParams (raw : Option Bytes) : Except Fault Unit × Connection :=
  match raw with
  | none => (.error .noParams, c)
  | some raw =>
    match Params.decode raw with
    | .error e => (.error (.params e), c)
    | .ok params =>
      let c := { c with params := params }
      match c.validateServerParams with
      | .error e => (.error e, c)
      | .ok () =>
        (.ok (),
          { c with
            maxDataPeer := params.initialMaxData
            maxStreamsBidi := params.initialMaxStreamsBidi
            peerCids := setFirstToken params.statelessResetToken c.peerCids }.note
            (.granted params.initialMaxData))

/-- The 1-RTT keys are here, and the generation after them is derived at once. -/
def takeOneRtt : Connection :=
  { c with
    oneRttLocal := some 0
    oneRttRemote := some 0
    next1rtt := some 1
    secrets := some 2
    connected := true }.pushEvent .connected

/-- The space handshake bytes go to: the furthest with keys of its own. -/
def tlsSpace : Space :=
  if (c.space .handshake).keys.isSome then .handshake else .initial

/-- The loop of `pump_tls`, over what rustls will answer. -/
def pumpLoop : List TlsWrite → Connection → Except Fault Unit × Connection
  | [], c => (.ok (), { c with tls := { c.tls with writes := [] } })
  | w :: ws, c =>
    let c := c.modifySpace c.tlsSpace fun s => { s with cryptoOut := s.cryptoOut ++ w.data }
    match w.change with
    | some .handshake =>
      let c := c.modifySpace .handshake fun s => { s with keys := some .handshake }
      pumpLoop ws c.wake
    | some (.oneRtt raw) =>
      match c.takePeerParams raw with
      | (.error e, c) => (.error e, { c with tls := { c.tls with writes := ws } })
      | (.ok (), c) => pumpLoop ws c.takeOneRtt.wake
    | none =>
      if w.data.isEmpty then (.ok (), { c with tls := { c.tls with writes := ws } })
      else pumpLoop ws c.wake

/-- Move whatever rustls has produced into the right space's crypto buffer. -/
def pumpTls : Except Fault Unit × Connection := pumpLoop c.tls.writes c

/-! ## Keys -/

/-- Move to the generation of 1-RTT keys the peer has flipped to. -/
def rotateKeys (at_ : Nat) (phase : Bool) : Connection :=
  match c.next1rtt with
  | none => c
  | some next =>
    { c with
      prev1rttRemote := c.oneRttRemote
      oneRttRemote := c.oneRttRemote.map fun _ => next
      oneRttLocal := c.oneRttLocal.map fun _ => next
      keyPhase := phase
      rotateAt := at_
      next1rtt := c.secrets
      secrets := c.secrets.map (· + 1) }

/-- The key we encrypt with in a space, if we have it. -/
def localKeys : Space → Option Key
  | .data => c.oneRttLocal.map .oneRtt
  | sp => (c.space sp).keys

def remoteKeys : Space → Option Key
  | .data => c.oneRttRemote.map .oneRtt
  | sp => (c.space sp).keys

/-- The furthest the handshake has got. -/
def highestSpace : Space :=
  if c.oneRttLocal.isSome then .data
  else if (c.space .handshake).keys.isSome then .handshake
  else .initial

/-- Which generation of 1-RTT keys a packet was protected with. -/
inductive Generation where
  | current
  | next
  | previous
  deriving DecidableEq, Repr

def generationFor (phase keyPhase : Bool) (pn rotateAt : Nat) : Generation :=
  if phase = keyPhase then .current else if pn < rotateAt then .previous else .next

/-! ## The idle timer -/

/-- How long with nothing from the peer before the connection counts as gone. -/
def idleTimeout : Option Nat :=
  if !c.connected then some (millis c.handshakeTimeoutMs)
  else
    let ms :=
      if c.localIdleMs = 0 then
        if c.params.maxIdleTimeoutMs = 0 then none else some c.params.maxIdleTimeoutMs
      else if c.params.maxIdleTimeoutMs = 0 then some c.localIdleMs
      else some (min c.localIdleMs c.params.maxIdleTimeoutMs)
    ms.map fun ms => max (millis ms) (c.rtt.pto (millis c.params.maxAckDelayMs) * 3)

variable (now : Nat)

/-- Restart the idle timer, or start it. Until the handshake completes the deadline set by
the first packet out stands. -/
def armIdle : Connection :=
  if !c.connected && c.idleDeadline.isSome then c
  else
    { c with
      idleDeadline := c.idleTimeout.map (now + ·)
      nextKeepalive := c.idleTimeout.map (now + · / 2) }

/-- A packet from the peer was processed. -/
def noteReceived : Connection :=
  { c with sentSinceRecv := false }.armIdle now

/-- An ack-eliciting packet went out: the first since a packet was received restarts the
idle timer. -/
def noteSent : Connection :=
  if c.sentSinceRecv then c
  else
    let c := { c with sentSinceRecv := true }
    if c.connected then c.armIdle now else c

/-! ## Acknowledgement and loss -/

def onFrameAcked : SentFrame → Connection
  | .stream id offset len fin => (c.modifySend id fun s => s.onAcked offset len fin).settle id
  | .resetStream id _ _ => (c.modifySend id SendStream.onResetAcked).settle id
  | _ => c

def onFrameLost (sp : Space) : SentFrame → Connection
  | .ping => c
  | .retireConnectionId seq => { c with retirePending := c.retirePending ++ [seq] }
  | .resetStream id error finalSize =>
    { c with resetPending := c.resetPending ++ [(id, error, finalSize)] }
  | .maxData _ => { c with maxDataOwed := true }
  | .maxStreamData id _ => c.queueCredit id
  | .crypto offset _ =>
    -- rewind to the lost run; anything after it goes out again too
    c.modifySpace sp fun s => { s with cryptoSent := min s.cryptoSent offset }
  | .stream id offset len fin => (c.modifySend id fun s => s.onLost offset len fin).queueSend id

/-- A stretch of lost packets, consecutive in number, in which two ack-eliciting ones sent
after the first RTT sample are more than `duration` apart. -/
def persistent (duration sampledAt : Nat) : Option SentPacket → Option Nat → List SentPacket → Bool
  | _, _, [] => false
  | first, previous, p :: rest =>
    let first := if previous.any fun n => p.number ≠ n + 1 then none else first
    if !p.ackEliciting || p.timeSent < sampledAt then
      persistent duration sampledAt first (some p.number) rest
    else
      let start := first.getD p
      if duration < p.timeSent - start.timeSent then true
      else persistent duration sampledAt (some start) (some p.number) rest

/-- One lost packet. -/
def onLostPacket (sp : Space) (now : Nat) (p : SentPacket) : Connection :=
  p.frames.foldl (fun c f => c.onFrameLost sp f)
    { c with congestion := c.congestion.onLoss p.timeSent now }

/-- Apply a batch of newly lost packets, and notice when the span of them says the path
stopped carrying anything at all. -/
def onLostPackets (sp : Space) (lost : List SentPacket) (now : Nat) : Connection :=
  let c := lost.foldl (fun c p => c.onLostPacket sp now p) c
  match c.rttSampledAt with
  | none => c
  | some sampledAt =>
    let duration := c.rtt.persistentCongestionDuration (millis c.params.maxAckDelayMs)
    if persistent duration sampledAt none none lost then
      { c with congestion := c.congestion.onPersistentCongestion }
    else c

/-- The loss check of one space, at the end of an ACK and when its deadline passes. -/
def detectLost (c : Connection) (sp : Space) (now lossDelay : Nat) : List SentPacket × Connection :=
  let ((lost, deadline), sent) := (c.space sp).sent.detectLost now lossDelay
  let c := c.modifySpace sp fun s => { s with sent := sent }
  let c := c.onLostPackets sp lost now
  (lost, c.modifySpace sp fun s => { s with lossDeadline := deadline })

/-- One newly acknowledged packet: the ACK it carried has reached the peer, and so has
everything else in it. -/
def onPacketAcked (sp : Space) (p : SentPacket) : Connection :=
  let c := match p.ackLargest with
    | some largest => c.modifySpace sp fun s => { s with ack := s.ack.trimBelow largest }
    | none => c
  p.frames.foldl (fun c f => c.onFrameAcked f) c

/-- The RTT sample of an ACK whose largest number was just acknowledged. -/
def sampleRtt (acked : List SentPacket) (largest delay now : Nat) : Connection :=
  match acked.find? fun p => p.number = largest with
  | some newest =>
    if newest.ackEliciting then
      let sample := now - newest.timeSent
      let delay := (delay * 2 ^ c.params.ackDelayExponent) % 2 ^ 64 * 1000
      { c with
        rtt := c.rtt.update sample delay (millis c.params.maxAckDelayMs)
        rttSampledAt := if c.rttSampledAt.isNone then some now else c.rttSampledAt }
    else c
  | none => c

def onAck (c : Connection) (sp : Space) (largest delay firstRange : Nat) (ranges : Bytes)
    (now : Nat) : Connection :=
  let (acked, sent) := (c.space sp).sent.drainAcked (ackRanges largest firstRange ranges)
  let c := c.modifySpace sp fun s => { s with sent := sent }
  if acked.isEmpty then c
  else
    let c := if sp = .handshake then { c with handshakeAcked := true } else c
    let c := c.sampleRtt acked largest delay now
    let c := acked.foldl (fun c p => c.onPacketAcked sp p) c
    let newest := acked.foldl (fun t p => max t p.timeSent) 0
    let c := { c with congestion := c.congestion.onAck (acked.map SentPacket.size).sum newest }
    let (lost, c) := c.detectLost sp now c.rtt.lossDelay
    if lost.isEmpty then c else c.wake

/-! ## The other frames -/

def onHandshakeDone : Connection :=
  { c with handshakeDone := true }.discardSpace .handshake

/-- The entry with the smallest sequence number. -/
def minSeq : List PeerCid → Option PeerCid
  | [] => none
  | p :: rest =>
    match minSeq rest with
    | none => some p
    | some q => if p.seq ≤ q.seq then some p else some q

/-- Retire everything the peer issued below a new `retire_prior_to`. -/
def retireBelow (retirePriorTo : Nat) : Connection :=
  if c.retirePriorTo < retirePriorTo then
    { c with
      retirePriorTo := retirePriorTo
      retirePending := c.retirePending ++
        (c.peerCids.filter fun p => p.seq < retirePriorTo).map (·.seq)
      peerCids := c.peerCids.filter fun p => !decide (p.seq < retirePriorTo)
      needsSend := true }
  else c

/-- Keep a new connection id, if there is room for it. -/
def holdCid (seq : Nat) (cid : Bytes) (token : Option Bytes) : Except Fault Unit × Connection :=
  if c.peerCids.length < activeConnectionIdLimit then
    match ConnectionId.new cid with
    | none => (.error .cidTooLong, c)
    | some cid =>
      (.ok (), { c with peerCids := c.peerCids ++ [{ seq := seq, cid := cid, token := token }] })
  else (.ok (), c)

/-- Move off a connection id the peer has retired. -/
def moveCid : Connection :=
  if c.peerCidSeq < c.retirePriorTo then
    match minSeq c.peerCids with
    | none => c
    | some next => { c with peerCid := next.cid, peerCidSeq := next.seq }
  else c

/-- Take a connection id the peer has issued, and move to it if it retires the one in use. -/
def onNewConnectionId (seq retirePriorTo : Nat) (cid token : Bytes) :
    Except Fault Unit × Connection :=
  if cid.isEmpty then (.error .emptyCid, c)
  else if seq < retirePriorTo then (.error .retiresItself, c)
  else
    let token := if token.length = 16 then some token else none
    if seq < c.retirePriorTo then
      (.ok (), { c with retirePending := c.retirePending ++ [seq], needsSend := true })
    else
      match c.peerCids.find? fun p => p.seq = seq with
      | some known =>
        if known.cid.bytes ≠ cid ∨ known.token.any (fun t => some t ≠ token) then
          (.error (.repeatedSeq seq), c)
        else (.ok (), c)
      | none =>
        match (c.retireBelow retirePriorTo).holdCid seq cid token with
        | (.error e, c) => (.error e, c)
        | (.ok (), c) => (.ok (), c.moveCid)

/-- The peer wants nothing more on a stream: answered with a RESET_STREAM. -/
def onStopSending (id error : Nat) : Connection :=
  match c.sendMut id with
  | none => c
  | some send =>
    if send.wasReset then c
    else
      ((c.modifySend id fun s => s.reset.2).queueReset id error send.reset.1).pushEvent
        (.stopped id)

def onMaxStreamData (id limit : Nat) : Connection :=
  ((c.note (.grantedStream id limit)).modifySend id fun s => s.setLimit limit).queueSend id

def onPathChallenge (data : Bytes) : Except Fault Unit × Connection :=
  if data.length = 8 then (.ok (), { c with pathResponse := some data, needsSend := true })
  else (.error .pathChallenge, c)

def onClose (error : Nat) (reason : Bytes) (app : Bool) : Connection :=
  c.lose (.closedByPeer app error reason)

/-- One call of `read_hs`, on everything contiguous. -/
def readHs : TlsRead × Connection :=
  match c.tls.reads with
  | [] => (.accepted, c)
  | r :: rs => (r, { c with tls := { c.tls with reads := rs } })

/-- CRYPTO data is put in order before rustls reads it. A TLS alert closes the connection
with 0x100 plus its code, and is not an error of the packet. -/
def onCrypto (sp : Space) (offset : Nat) (data : Bytes) : Except Fault Unit × Connection :=
  match (c.space sp).cryptoIn.push offset data false with
  | (.error e, _) => (.error (.recv e), c)
  | (.ok _, recv) =>
    let c := c.modifySpace sp fun s => { s with cryptoIn := recv }
    if recv.ready.isEmpty then (.ok (), c)
    else
      match c.readHs with
      | (.failed alert, c) => (.ok (), c.closeTransport (0x100 + alert.getD 0x50) .tls)
      | (.accepted, c) =>
        let consumed := (recv.consume fun _ => (.ok () : Except Fault Unit)).2
        (c.modifySpace sp fun s => { s with cryptoIn := consumed }).pumpTls

/-- A STREAM or RESET_STREAM frame that was taken is noted. -/
def arrived (id stop : Nat) (r : Except Fault Unit × Connection) : Except Fault Unit × Connection :=
  match r with
  | (.ok (), c) => (.ok (), c.note (.arrived id stop))
  | (.error e, c) => (.error e, c)

def handleFrame (sp : Space) (f : Frame) (now : Nat) : Except Fault Unit × Connection :=
  match f with
  | .padding | .ping | .newToken => (.ok (), c)
  | .ack largest delay firstRange ranges _ =>
    (.ok (), c.onAck sp largest delay firstRange ranges now)
  | .crypto offset data => c.onCrypto sp offset data
  | .handshakeDone => (.ok (), c.onHandshakeDone)
  | .stream id offset fin data => arrived id (offset + data.length) (c.onStream id offset data fin)
  | .resetStream id error finalSize => arrived id finalSize (c.onReset id error finalSize)
  | .stopSending id error => (.ok (), c.onStopSending id error)
  | .maxData limit =>
    (.ok (), { c with maxDataPeer := max c.maxDataPeer limit }.note (.granted limit))
  | .maxStreamData id limit => (.ok (), c.onMaxStreamData id limit)
  | .maxStreams uni limit =>
    (.ok (), if uni then c else { c with maxStreamsBidi := max c.maxStreamsBidi limit })
  | .dataBlocked _ | .streamDataBlocked .. | .streamsBlocked .. => (.ok (), c)
  | .newConnectionId seq retirePriorTo cid resetToken =>
    c.onNewConnectionId seq retirePriorTo cid resetToken
  | .retireConnectionId _ => (.ok (), c)
  | .pathChallenge data => c.onPathChallenge data
  | .pathResponse _ => (.ok (), c)
  | .close app error reason => (.ok (), c.onClose error reason app)

/-! ## Packets and datagrams -/

/-- The loop over a packet's frames: whether it has to be acknowledged, or why it stopped. -/
def handleFrames (sp : Space) (now : Nat) :
    Bool → List (Except FrameError Frame) → Connection → Except Fault Bool × Connection
  | eliciting, [], c => (.ok eliciting, c)
  | _, .error e :: _, c => (.error (.frame e), c)
  | eliciting, .ok f :: rest, c =>
    match c.handleFrame sp f now with
    | (.error e, c) => (.error e, c)
    | (.ok (), c) => handleFrames sp now (eliciting || f.ackEliciting) rest c

/-- The packet number and the generation a packet opens under, if it opens. -/
def openPacket (p : Packet) : Option (Nat × Generation) :=
  match c.remoteKeys p.space with
  | none => none
  | some current =>
    let pn := decodePacketNumber ((c.space p.space).largestReceived.getD 0)
      (p.number % 2 ^ (8 * p.numberLen)) (8 * p.numberLen)
    let generation :=
      if p.space = .data then generationFor p.phase c.keyPhase pn c.rotateAt else .current
    let key := match generation with
      | .current => some current
      | .next => c.next1rtt.map .oneRtt
      | .previous => c.prev1rttRemote.map .oneRtt
    if key = some p.key ∧ pn = p.number then some (pn, generation) else none

/-- The server picks its own connection id in its first flight. -/
def adoptScid (p : Packet) : Connection :=
  if p.space ≠ .data ∧ c.handshakeDone = false then
    { c with
      peerCid := p.scid
      peerCids := if c.peerCids.isEmpty then [{ seq := 0, cid := p.scid, token := none }]
        else c.peerCids
      serverInitialSeen := c.serverInitialSeen || decide (p.space = .initial) }
  else c

/-- What is done with a new packet before its frames are read. -/
def acceptPacket (p : Packet) (pn : Nat) (generation : Generation)
    (received : ReceivedPackets) : Connection :=
  let c := c.modifySpace p.space fun s => { s with received := received }
  let c := if generation = .next then c.rotateKeys pn p.phase else c
  let c := c.adoptScid p
  c.modifySpace p.space fun s =>
    { s with largestReceived := some (match s.largestReceived with
        | some prev => max prev pn
        | none => pn) }

/-- What is done with a packet whose frames were all taken. -/
def recordPacket (sp : Space) (pn : Nat) (eliciting : Bool) (now : Nat) : Connection :=
  let c := c.modifySpace sp fun s => { s with ack := s.ack.record pn eliciting now }
  { c with needsSend := c.needsSend || eliciting, ptoCount := 0, ptoProbes := 0 }

/-- A protected packet: whether it was authenticated, or the error of one of its frames. -/
def handlePacket (p : Packet) : Except Fault Bool × Connection :=
  match c.openPacket p with
  | none => (.ok false, c)
  | some (pn, generation) =>
    match (c.space p.space).received.insert pn with
    | (false, received) =>
      -- a duplicate, or too old to tell
      (.ok true, c.modifySpace p.space fun s => { s with received := received })
    | (true, received) =>
      match handleFrames p.space now false (frames p.payload)
        (c.acceptPacket p pn generation received) with
      | (.error e, c) => (.error e, c)
      | (.ok eliciting, c) => (.ok true, c.recordPacket p.space pn eliciting now)

/-- A genuine one means the connection cannot go on. -/
def onVersionNegotiation (dcid scid : ConnectionId) (versions : List Nat) : Connection :=
  if c.serverInitialSeen || c.retried then c
  else if versions.contains version1 then c
  else if dcid ≠ c.localCid ∨ scid ≠ c.originalDcid then c
  else c.lose .version

/-- Start the handshake again with the token the server asked for. -/
def onRetry (dcid scid : ConnectionId) (token : Bytes) (tag : Option ConnectionId) : Connection :=
  if c.retried || c.handshakeDone || c.serverInitialSeen || token.isEmpty ||
      decide (dcid ≠ c.localCid) then c
  else if tag ≠ some c.originalDcid then c
  else
    let c := c.modifySpace .initial fun s =>
      { s with keys := some (.initial scid), cryptoSent := 0, sent := {}, lossDeadline := none }
    { c with
      retried := true
      retryScid := some scid
      retryToken := token
      peerCid := scid
      ptoCount := 0
      ptoProbes := 0
      needsSend := true }

/-- The loop of `handle_datagram`: whether any packet was authenticated. `none` if a receive
error has closed the connection; nothing after it is looked at. -/
def handlePackets (now : Nat) :
    Bool → List Incoming → Connection → Except Fault (Option Bool) × Connection
  | processed, [], c => (.ok (some processed), c)
  | processed, .malformed :: _, c => (.ok (some processed), c)
  | processed, .versionNegotiation dcid scid versions :: _, c =>
    (.ok (some processed), c.onVersionNegotiation dcid scid versions)
  | processed, .retry dcid scid token tag :: _, c =>
    (.ok (some processed), c.onRetry dcid scid token tag)
  | processed, .packet p :: rest, c =>
    match c.handlePacket now p with
    | (.ok ok, c) => handlePackets now (processed || ok) rest c
    | (.error (.recv e), c) => (.ok none, c.closeTransport e.code (.transport e))
    | (.error e, c) => (.error e, c)

def isStatelessReset (tail : Bytes) : Bool :=
  c.peerCids.any fun p => p.token = some tail

/-- Take one datagram, which may hold several coalesced packets. -/
def handleDatagram (d : Datagram) : Except Fault Unit × Connection :=
  if c.closed.isSome then (.ok (), c)
  else
    match handlePackets now false d.packets c with
    | (.error e, c) => (.error e, c)
    | (.ok none, c) => (.ok (), c)
    | (.ok (some true), c) => (.ok (), c.noteReceived now)
    | (.ok (some false), c) =>
      (.ok (), if d.tail.any c.isStatelessReset then c.lose .statelessReset else c)

end Connection

end Shb.Quic
