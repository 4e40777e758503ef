import Shb.Quic.Conn.Receive

/-!
# `quic/conn.rs` — sending

A payload is filled stage by stage: an ACK, a PATH_RESPONSE, a close, handshake bytes, flow
control, resets, stream data, and a PING if a probe or a keepalive has nothing else to ride
on. Each stage looks at the room left. `Filling` is the payload so far with the connection.
-/

namespace Shb.Quic

def minInitialDatagram : Nat := 1200
def maxDatagram : Nat := 1200
/-- The AEAD tag every packet carries. -/
def tagLen : Nat := 16
/-- The exponent of the delay in the ACK frames we send. -/
def ackDelayExponent : Nat := 3

/-- A payload being filled. -/
structure Filling where
  conn : Connection
  out : Bytes
  /-- What has to be sent again if the packet is lost. -/
  frames : List SentFrame
  ackEliciting : Bool
  deriving DecidableEq, Repr

namespace Filling

variable (b : Filling)

def room (budget : Nat) : Nat := budget - b.out.length

/-- Append a frame that has to be recovered if the packet is lost. -/
def put (bytes : Bytes) (f : SentFrame) : Filling :=
  { conn := b.conn.note (.wrote f), out := b.out ++ bytes, frames := b.frames ++ [f],
    ackEliciting := true }

/-! ## The stages any packet can have -/

/-- The ACK, if one is owed and there is room: what it acknowledges. With no range to put in
it, `put_ack` panics. -/
def ack (b : Filling) (sp : Space) (now budget : Nat) : Except Fault (Option Nat) × Filling :=
  let ack := (b.conn.space sp).ack
  if ack.ackElicitingPending ∧ 32 < b.room budget then
    match putAck ack.ranges (ack.delay now ackDelayExponent) with
    | none => (.error .panicked, b)
    | some bytes =>
      (.ok (ack.ranges.head?.map (·.2)),
        { b with
          conn := b.conn.modifySpace sp fun s => { s with ack := s.ack.takePending }
          out := b.out ++ bytes })
  else (.ok none, b)

/-- A PATH_RESPONSE is taken before the room for it is looked at. -/
def pathResponse (b : Filling) (sp : Space) (budget : Nat) : Filling :=
  match sp, b.conn.pathResponse with
  | .data, some data =>
    let b' := { b with conn := { b.conn with pathResponse := none } }
    if 9 < b.room budget then { b' with out := b.out ++ putPathResponse data, ackEliciting := true }
    else b'
  | _, _ => b

/-- What a close says in a space: below 1-RTT it cannot be an application close. -/
def closeBytes (sp : Space) (close : Close) : Bytes :=
  match sp, close.app with
  | .data, true => putClose close.code close.reason
  | _, true => putTransportClose applicationError
  | _, false => putTransportClose close.code

/-- The loop over handshake bytes. Each turn sends at least one of them, so what is left of
them is enough fuel. -/
def crypto (sp : Space) (budget : Nat) : Nat → Filling → Filling
  | 0, b => b
  | fuel + 1, b =>
    let s := b.conn.space sp
    let avail := b.room budget
    if avail < 8 ∨ s.cryptoOut.length ≤ s.cryptoSent then b
    else
      let len := min (s.cryptoOut.length - s.cryptoSent) (avail - 8)
      if len = 0 then b
      else
        let data := (s.cryptoOut.drop s.cryptoSent).take len
        let b := b.put (putCrypto s.cryptoSent data) (.crypto s.cryptoSent len)
        crypto sp budget fuel
          { b with conn := b.conn.modifySpace sp fun s =>
            { s with cryptoSent := s.cryptoSent + len } }

/-- A PING, unless something else already makes the peer answer. -/
def ping (b : Filling) : Filling := if b.ackEliciting then b else b.put putPing .ping

def probe (sp : Space) (budget : Nat) : Filling :=
  if 0 < b.conn.ptoProbes ∧ sp = b.conn.ptoSpace ∧ 1 < b.room budget then
    { b with conn := { b.conn with ptoProbes := b.conn.ptoProbes - 1 } }.ping
  else b

def keepalive (sp : Space) (budget : Nat) : Filling :=
  if b.conn.keepalivePending ∧ sp = .data ∧ 1 < b.room budget then
    { b with conn := { b.conn with keepalivePending := false } }.ping
  else b

/-! ## The stages of a 1-RTT packet -/

/-- Connection-level credit, once the peer has used half of what it has. -/
def maxData (b : Filling) (budget : Nat) : Filling :=
  let window := b.conn.maxDataWindow
  let extendWindow := b.conn.maxDataLocal ≤ b.conn.dataReceived + window / 2
  let b := if extendWindow then { b with conn := { b.conn with maxDataOwed := true } } else b
  if b.conn.maxDataOwed ∧ 16 < b.room budget then
    -- an unsent grant is not credit the peer may use yet
    let limit := if extendWindow then b.conn.dataReceived + window else b.conn.maxDataLocal
    { b with conn := { b.conn with maxDataLocal := limit, maxDataOwed := false } }.put
      (putMaxData limit) (.maxData limit)
  else b

/-- The loop over `credit_pending`, from its end. -/
def credit (budget : Nat) : Nat → Filling → Filling
  | 0, b => b
  | fuel + 1, b =>
    match b.conn.creditPending.getLast? with
    | none => b
    | some id =>
      if b.room budget < 24 then b
      else
        let b := { b with conn := { b.conn with creditPending := b.conn.creditPending.dropLast } }
        match (b.conn.recvMut id).filter fun r => !r.sizeKnown with
        | none => credit budget fuel b
        | some recv =>
          let (limit, recv) := recv.grant b.conn.streamWindow
          let b := { b with conn := b.conn.modifyRecv id fun _ => recv }
          credit budget fuel (b.put (putMaxStreamData id limit) (.maxStreamData id limit))

def retires (budget : Nat) : Nat → Filling → Filling
  | 0, b => b
  | fuel + 1, b =>
    match b.conn.retirePending.getLast? with
    | none => b
    | some seq =>
      if b.room budget < 16 then b
      else
        let b := { b with conn := { b.conn with retirePending := b.conn.retirePending.dropLast } }
        retires budget fuel (b.put (putRetireConnectionId seq) (.retireConnectionId seq))

def resets (budget : Nat) : Nat → Filling → Filling
  | 0, b => b
  | fuel + 1, b =>
    match b.conn.resetPending.getLast? with
    | none => b
    | some (id, error, finalSize) =>
      if b.room budget < 32 then b
      else
        let b := { b with conn := { b.conn with resetPending := b.conn.resetPending.dropLast } }
        resets budget fuel (b.put (putResetStream id error finalSize)
          (.resetStream id error finalSize))

/-- Connection credit for bytes never sent before. -/
def sendCredit : Nat := b.conn.maxDataPeer - b.conn.dataSent

/-- One of our unidirectional streams: its next frame, if it has one. -/
def uniTurn (budget i : Nat) : Filling :=
  match b.conn.localUni[i]? with
  | none => b
  | some (id, send) =>
    match send.nextSend (b.room budget - 16) b.sendCredit with
    | none => b
    | some (offset, data, fin) =>
      let (new, send) := send.onSent offset data.length fin
      let conn := { b.conn with
        localUni := b.conn.localUni.set i (id, send), dataSent := b.conn.dataSent + new }
      { b with conn := conn }.put (putStream id offset fin data) (.stream id offset data.length fin)

/-- The loop over our unidirectional streams, from index `i`. -/
def unis (budget : Nat) : Nat → Nat → Filling → Filling
  | 0, _, b => b
  | n + 1, i, b =>
    if b.room budget < 16 then b else unis budget n (i + 1) (b.uniTurn budget i)

/-- One queued stream's turn: its next frame, if it has one, and the back of the queue if it
has more. -/
def streamTurn (budget id i : Nat) (pair : StreamPair) : Filling :=
  let b := { b with conn := b.conn.modifyPair i fun pair => { pair with queued := false } }
  let b :=
    match pair.send.nextSend (b.room budget - 16) b.sendCredit with
    | none => b
    | some (offset, data, fin) =>
      let (new, send) := pair.send.onSent offset data.length fin
      let conn := { b.conn.modifyPair i fun pair => { pair with send := send } with
        dataSent := b.conn.dataSent + new }
      { b with conn := conn }.put (putStream id offset fin data) (.stream id offset data.length fin)
  if b.conn.wantsTurn id then { b with conn := b.conn.queueSend id } else b

/-- The loop over the send queue: each stream gets one turn per packet. -/
def streams (budget : Nat) : Nat → Filling → Filling
  | 0, b => b
  | turns + 1, b =>
    if b.room budget < 16 then b
    else
      match b.conn.sendQueue with
      | [] => b
      | id :: queue =>
        let b := { b with conn := { b.conn with sendQueue := queue } }
        match b.conn.streamIndex id with
        | none => streams budget turns b
        | some i =>
          match b.conn.pairAt i with
          | none => streams budget turns b
          | some pair => streams budget turns (b.streamTurn budget id i pair)

/-- `fill_data_payload`: flow control, then stream data. -/
def fillData (budget : Nat) (congested : Bool) : Filling :=
  let b := b.maxData budget
  let b := credit budget b.conn.creditPending.length b
  let b := retires budget b.conn.retirePending.length b
  let b := resets budget b.conn.resetPending.length b
  if congested then b
  else
    let b := unis budget b.conn.localUni.length 0 b
    streams budget b.conn.sendQueue.length b

/-- Everything behind the close. -/
def fillRest (sp : Space) (budget : Nat) (congested : Bool) : Filling :=
  let s := b.conn.space sp
  let b := crypto sp budget (s.cryptoOut.length - s.cryptoSent) b
  let b := if sp = .data then b.fillData budget congested else b
  (b.probe sp budget).keepalive sp budget

end Filling

/-- What filling a payload has to tell the packet writer about it. -/
structure Filled where
  ackEliciting : Bool
  /-- What the ACK in it acknowledged, if it carried one. -/
  ackLargest : Option Nat
  frames : List SentFrame
  out : Bytes
  deriving DecidableEq, Repr

/-- A packet as it went out: header, packet number included, and payload, before protection. -/
structure OutPacket where
  space : Space
  number : Nat
  key : Key
  header : Bytes
  payload : Bytes
  deriving DecidableEq, Repr

def OutPacket.size (p : OutPacket) : Nat := p.header.length + p.payload.length + tagLen

namespace Connection

variable (c : Connection)

variable (sp : Space)

/-- Put as much as will fit into one packet's payload. -/
def fillPayload (now budget : Nat) (congested : Bool) : Except Fault Filled × Connection :=
  match Filling.ack { conn := c, out := [], frames := [], ackEliciting := false } sp now budget with
  | (.error e, b) => (.error e, b.conn)
  | (.ok ackLargest, b) =>
    let b := b.pathResponse sp budget
    match decide (sp = b.conn.highestSpace), b.conn.closePending with
    | true, some close =>
      (.ok { ackEliciting := false, ackLargest := ackLargest, frames := b.frames,
             out := b.out ++ Filling.closeBytes sp close },
        { b.conn with closePending := none })
    | _, _ =>
      let b := b.fillRest sp budget congested
      (.ok { ackEliciting := b.ackEliciting, ackLargest := ackLargest, frames := b.frames,
             out := b.out }, b.conn)

/-- The header of the next packet of a space, its packet number included. `length` is what
the length field of a long header says. -/
def packetHeader (truncated pnLen length : Nat) : Bytes :=
  (match sp with
    | .data => putShortHeader c.peerCid pnLen c.keyPhase
    | _ =>
      LongHeader.put
        { space := sp, dcid := c.peerCid, scid := c.localCid,
          token := if sp = .initial then c.retryToken else [] } pnLen length) ++
    packetNumberBytes truncated pnLen

/-- `Vec::resize` with zeros, when that makes it longer. -/
def padTo (n : Nat) (bytes : Bytes) : Bytes := bytes ++ List.replicate (n - bytes.length) 0

/-- The end of `write_packet`: the packet joins those in flight. -/
def emit (p : SentPacket) (now : Nat) : Connection :=
  let c := c.modifySpace sp fun s =>
    { s with nextPacketNumber := s.nextPacketNumber + 1, sent := s.sent.push p }
  if p.ackEliciting then c.noteSent now else c

/-- Append one packet for a space to a datagram of `written` bytes, if there is anything to
put in it. `pad` makes the finished datagram exactly that long. -/
def writePacket (key : Key) (now written : Nat) (congested : Bool)
    (pad : Option Nat) : Except Fault (Option OutPacket) × Connection :=
  if maxDatagram - written < 64 then (.ok none, c)
  else
    let pn := (c.space sp).nextPacketNumber
    let (truncated, pnLen) := encodePacketNumber pn (c.space sp).sent.largestAcked
    let headerLen := (c.packetHeader sp truncated pnLen 0).length
    let budget := pad.getD maxDatagram - (written + headerLen + tagLen)
    match c.fillPayload sp now budget congested with
    | (.error e, c) => (.error e, c)
    | (.ok filled, c') =>
      if filled.out.isEmpty then (.ok none, c')
      else
        let payload := padTo (4 + 16 - pnLen) filled.out
        let payload := match pad with
          | some target => padTo (target - tagLen - (written + headerLen)) payload
          | none => payload
        let packet : OutPacket :=
          { space := sp, number := pn, key := key, payload := payload
            header := c.packetHeader sp truncated pnLen (pnLen + payload.length + tagLen) }
        let sent : SentPacket :=
          { ackLargest := filled.ackLargest, number := pn, timeSent := now, size := packet.size
            ackEliciting := filled.ackEliciting, frames := filled.frames }
        (.ok (some packet), c'.emit sp sent now)

/-- The loop of `poll_transmit` over the packet number spaces. -/
def transmitLoop (now : Nat) (congested : Bool) (pad : Option Nat) :
    List Space → List OutPacket → Connection → Except Fault (List OutPacket) × Connection
  | [], out, c => (.ok out, c)
  | sp :: rest, out, c =>
    let written := (out.map OutPacket.size).sum
    if maxDatagram ≤ written then (.ok out, c)
    else
      match c.localKeys sp with
      | none => transmitLoop now congested pad rest out c
      | some key =>
        let pad' := if sp = .initial ∧ c.handshakeDone = false then some minInitialDatagram else pad
        match c.writePacket sp key now written congested pad' with
        | (.error e, c) => (.error e, c)
        | (.ok none, c) => transmitLoop now congested pad rest out c
        | (.ok (some packet), c) =>
          -- the first Handshake packet out is the end of the Initial keys
          let c :=
            if sp = .handshake ∧ (c.space .initial).keys.isSome then c.discardSpace .initial else c
          if pad'.isSome then (.ok (out ++ [packet]), c)
          else transmitLoop now congested pad rest (out ++ [packet]) c

/-- Build one datagram's worth of packets. -/
def pollTransmit (now : Nat) (pad : Option Nat) : Except Fault (List OutPacket) × Connection :=
  if c.closed.isSome ∧ c.closePending.isNone then (.ok [], c)
  else
    match c.pumpTls with
    | (.error e, c) => (.error e, c)
    | (.ok (), c) =>
      let inFlight := (c.space .initial).sent.bytesInFlight +
        (c.space .handshake).sent.bytesInFlight + (c.space .data).sent.bytesInFlight
      match transmitLoop now (!c.congestion.canSend inFlight) pad
          [.initial, .handshake, .data] [] c with
      | (.error e, c) => (.error e, c)
      | (.ok out, c) =>
        (.ok out, if out ≠ [] ∧ c.idleDeadline.isNone then c.armIdle now else c)

end Connection

end Shb.Quic
