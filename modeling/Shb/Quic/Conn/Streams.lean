import Shb.Quic.Conn.State

/-!
# `quic/conn.rs` — streams

Client-initiated bidirectional streams are numbered 0, 4, 8…, so the stream number less the
base is the index into the ring. The three HTTP/3 streams we open, and those the peer opens,
are short lists of their own. A lookup through a `&mut` is a lookup and a modification here:
`sendMut` reads, `modifySend` writes.
-/

namespace Shb.Quic

/-- The first entry under `id`. -/
def findStream {α : Type} (id : Nat) : List (Nat × α) → Option α
  | [] => none
  | (uid, a) :: rest => if uid = id then some a else findStream id rest

/-- The same list with the first entry under `id` changed. -/
def modifyFirst {α : Type} (id : Nat) (f : α → α) : List (Nat × α) → List (Nat × α)
  | [] => []
  | (uid, a) :: rest => if uid = id then (uid, f a) :: rest else (uid, a) :: modifyFirst id f rest

namespace Connection

variable (c : Connection)

variable (id : Nat)

def streamIndex : Option Nat :=
  if !isClientInitiated id || streamDir id ≠ .bi then none
  else
    let n := id / 4
    if n < c.baseStream then none
    else if n - c.baseStream < c.streams.length then some (n - c.baseStream) else none

/-- `streams[i]`, if it is still there. -/
def pairAt (i : Nat) : Option StreamPair := (c.streams[i]?).join

def modifyPair (i : Nat) (f : StreamPair → StreamPair) : Connection :=
  { c with streams := c.streams.modify i (Option.map f) }

/-- `send_mut`: the send half of a stream, wherever it lives. -/
def sendMut : Option SendStream :=
  match c.streamIndex id with
  | some i => (c.pairAt i).map (·.send)
  | none => findStream id c.localUni

def modifySend (f : SendStream → SendStream) : Connection :=
  match c.streamIndex id with
  | some i => c.modifyPair i fun pair => { pair with send := f pair.send }
  | none => { c with localUni := modifyFirst id f c.localUni }

/-- `recv_mut`: the receive half of a stream, wherever it lives. -/
def recvMut : Option RecvStream :=
  match c.streamIndex id with
  | some i => (c.pairAt i).map (·.recv)
  | none => findStream id c.peerUni

def modifyRecv (f : RecvStream → RecvStream) : Connection :=
  match c.streamIndex id with
  | some i => c.modifyPair i fun pair => { pair with recv := f pair.recv }
  | none => { c with peerUni := modifyFirst id f c.peerUni }

/-- Note that a stream has something to send. -/
def queueSend : Connection :=
  match c.streamIndex id with
  | none => c
  | some i =>
    match c.pairAt i with
    | none => c
    | some pair =>
      if pair.queued then c
      else { c.modifyPair i fun pair => { pair with queued := true } with
        sendQueue := c.sendQueue ++ [id] }

/-- Whether a stream of the ring has more to send. -/
def wantsTurn : Bool :=
  match c.streamIndex id with
  | none => false
  | some i => (c.pairAt i).any fun pair => pair.send.hasPending

/-- Note that a stream is owed a MAX_STREAM_DATA. -/
def queueCredit : Connection :=
  if c.creditPending.contains id then c else { c with creditPending := c.creditPending ++ [id] }

/-! ## Opening and writing -/

/-- Open a bidirectional stream, if the peer's limit allows another. -/
def openBi : Option Nat × Connection :=
  if c.maxStreamsBidi ≤ c.nextBidi then (none, c)
  else
    let id := clientStreamId .bi c.nextBidi
    let limit := c.params.initialMaxStreamDataBidiRemote
    let pair : StreamPair := { send := .new limit, recv := .new c.streamWindow }
    (some id,
      { c with
        nextBidi := c.nextBidi + 1
        unanswered := c.unanswered + 1
        streams := c.streams ++ [some pair] }.note (.grantedStream id limit))

/-- Open a unidirectional stream for the HTTP/3 control and QPACK streams. -/
def openUni : Option Nat × Connection :=
  if c.params.initialMaxStreamsUni ≤ c.nextUni then (none, c)
  else
    let id := clientStreamId .uni c.nextUni
    let limit := c.params.initialMaxStreamDataUni
    (some id,
      { c with
        nextUni := c.nextUni + 1
        localUni := c.localUni ++ [(id, SendStream.new limit)] }.note (.grantedStream id limit))

/-- Open a bidirectional stream and put a whole request on it at once. The stream is the
last of the ring; it is finished only if the write took everything. -/
def sendOneshot (data : Bytes) : Option (Nat × Nat) × Connection :=
  match c.openBi with
  | (none, c) => (none, c)
  | (some id, c) =>
    let c := c.wake
    let back := c.streams.length - 1
    match c.pairAt back with
    | none => (none, c)
    | some pair =>
      let (n, send) := pair.send.write data
      let send := if n = data.length then send.finish else send
      let c := c.modifyPair back fun pair => { pair with send := send, queued := true }
      (some (id, n), { c with sendQueue := c.sendQueue ++ [id] })

def write (c : Connection) (id : Nat) (data : Bytes) : Nat × Connection :=
  let c := c.wake
  match c.sendMut id with
  | none => (0, c.queueSend id)
  | some send => ((send.write data).1, (c.modifySend id fun s => (s.write data).2).queueSend id)

def finish (c : Connection) (id : Nat) : Connection :=
  (c.wake.modifySend id SendStream.finish).queueSend id

/-! ## Reading -/

/-- Show what a stream has ready without copying it out first. Reading is what frees credit,
so this is where a stream nearing its limit is noted for a MAX_STREAM_DATA. -/
def consume {ε : Type} (c : Connection) (id : Nat) (f : Bytes → Except ε Unit) :
    Except ε Nat × Connection :=
  match c.recvMut id with
  | none => (.ok 0, c)
  | some recv =>
    match recv.consume f with
    | (.error e, _) => (.error e, c)
    | (.ok n, recv) =>
      let c := c.modifyRecv id fun _ => recv
      (.ok n,
        if recv.wantsCredit c.streamWindow then (c.queueCredit id).wake else c)

/-- Say a stream has data, unless the last event said the same. -/
def pushReadable : Connection :=
  if c.events.getLast? = some (.readable id) then c else c.pushEvent (.readable id)

/-! ## Retiring -/

/-- The loop at the end of `settle`. -/
def trimFront : List (Option StreamPair) → Nat → List (Option StreamPair) × Nat
  | none :: rest, base => trimFront rest (base + 1)
  | streams, base => (streams, base)

/-- Drop a retired stream once its send side has settled, releasing its slot. -/
def settle : Connection :=
  match c.streamIndex id with
  | none => c
  | some i =>
    if (c.pairAt i).any fun pair => pair.retired && pair.send.isSettled then
      let (streams, base) := trimFront (c.streams.set i none) c.baseStream
      { c with streams := streams, baseStream := base }
    else c

/-- One request fewer without its response. -/
def countAnswered : Connection := { c with unanswered := c.unanswered - 1 }

/-- Note that a RESET_STREAM is owed. -/
def queueReset (id error finalSize : Nat) : Connection :=
  { c with resetPending := c.resetPending ++ [(id, error, finalSize)], needsSend := true }

/-- The worker is done with a stream. The rest of a body the server answered without is not
wanted: the stream is reset with `cancel`. -/
def retire (id cancel : Nat) : Connection :=
  match c.streamIndex id with
  | none => c
  | some i =>
    match c.pairAt i with
    | none => c
    | some pair =>
      let c := if pair.finished then c else c.countAnswered
      let c := c.modifyPair i fun pair => { pair with finished := true, retired := true }
      let c :=
        if !pair.send.wasReset && !pair.send.fullySent then
          let (finalSize, send) := pair.send.reset
          (c.modifyPair i fun pair => { pair with send := send }).queueReset id cancel finalSize
        else c
      c.settle id

/-! ## Arriving data -/

/-- Called only for server-initiated streams, before lookup or allocation. -/
def checkPeerUni : Except RecvError Unit :=
  if streamDir id = .bi || c.maxPeerUni ≤ id / 4 then .error .streamLimit else .ok ()

/-- Count new bytes against the connection's limit. -/
def countReceived (new : Nat) : Connection :=
  { c with dataReceived := c.dataReceived + new }

/-- Report what a stream of the ring has: data to read, its end. -/
def report (readable done : Bool) : Connection :=
  let c := if done then c.countAnswered else c
  let c := if readable then c.pushReadable id else c
  if done then c.pushEvent (.finished id none) else c

/-- A report is in the events, and in the count of answers. -/
theorem report_eq (c : Connection) (id : Nat) (readable done : Bool) :
    ∃ events unanswered,
      c.report id readable done = { c with events := events, unanswered := unanswered } := by
  unfold report pushReadable
  dsimp only
  repeat' split
  all_goals exact ⟨_, _, rfl⟩

/-- What `on_stream` does with a stream of the ring. -/
def onRequestStream (id i : Nat) (pair : StreamPair) (offset : Nat)
    (data : Bytes) (fin : Bool) : Except Fault Unit × Connection :=
  match pair.recv.pushWithCredit offset data fin (c.maxDataLocal - c.dataReceived) with
  | (.error e, recv) => (.error (.recv e), c.modifyPair i fun pair => { pair with recv := recv })
  | (.ok new, recv) =>
    let done := recv.isFinished && !pair.finished
    let c := c.modifyPair i fun pair =>
      { pair with recv := recv, finished := pair.finished || done }
    (.ok (), (c.report id recv.hasData done).countReceived new)

/-- What `on_stream` does with a stream the peer opens. -/
def onPeerStream (id offset : Nat) (data : Bytes) (fin : Bool) : Except Fault Unit × Connection :=
  match c.checkPeerUni id with
  | .error e => (.error (.recv e), c)
  | .ok () =>
    match findStream id c.peerUni with
    | some recv =>
      match recv.pushWithCredit offset data fin (c.maxDataLocal - c.dataReceived) with
      | (.error e, recv) =>
        (.error (.recv e), { c with peerUni := modifyFirst id (fun _ => recv) c.peerUni })
      | (.ok new, recv) =>
        let c := { c with peerUni := modifyFirst id (fun _ => recv) c.peerUni }
        (.ok (), (c.report id recv.hasData false).countReceived new)
    | none =>
      match (RecvStream.new c.streamWindow).pushWithCredit offset data fin
          (c.maxDataLocal - c.dataReceived) with
      | (.error e, _) => (.error (.recv e), c)
      | (.ok new, recv) =>
        let c := { c with peerUni := c.peerUni ++ [(id, recv)] }.pushEvent (.opened id)
        (.ok (), (c.report id recv.hasData false).countReceived new)

def onStream (id offset : Nat) (data : Bytes) (fin : Bool) : Except Fault Unit × Connection :=
  match c.streamIndex id with
  | some i =>
    match c.pairAt i with
    | none => (.ok (), c)
    | some pair =>
      -- a stream we stopped caring about; not an error
      if pair.retired then (.ok (), c) else c.onRequestStream id i pair offset data fin
  | none =>
    if isClientInitiated id then
      if streamDir id = .bi then
        -- below the ring's base, or never opened
        if c.nextBidi ≤ id / 4 then (.error (.unopened id), c) else (.ok (), c)
      else (.error (.ourUni id), c)
    else c.onPeerStream id offset data fin

/-- What `on_reset` does with a stream of the ring, retired or not. -/
def onRequestReset (id i : Nat) (pair : StreamPair) (error finalSize : Nat) :
    Except Fault Unit × Connection :=
  match pair.recv.reset finalSize (c.maxDataLocal - c.dataReceived) with
  | (.error e, recv) => (.error (.recv e), c.modifyPair i fun pair => { pair with recv := recv })
  | (.ok new, recv) =>
    let c := (c.modifyPair i fun pair =>
      { pair with recv := recv, finished := true }).countReceived new
    (.ok (),
      if pair.finished then c
      else c.countAnswered.pushEvent (.finished id (some error)))

/-- What `on_reset` does with a stream the peer opens. -/
def onPeerReset (id finalSize : Nat) : Except Fault Unit × Connection :=
  match c.checkPeerUni id with
  | .error e => (.error (.recv e), c)
  | .ok () =>
    match findStream id c.peerUni with
    | some recv =>
      match recv.reset finalSize (c.maxDataLocal - c.dataReceived) with
      | (.error e, recv) =>
        (.error (.recv e), { c with peerUni := modifyFirst id (fun _ => recv) c.peerUni })
      | (.ok new, recv) =>
        (.ok (), { c with peerUni := modifyFirst id (fun _ => recv) c.peerUni }.countReceived new)
    | none =>
      match (RecvStream.new c.streamWindow).reset finalSize (c.maxDataLocal - c.dataReceived) with
      | (.error e, _) => (.error (.recv e), c)
      | (.ok new, recv) =>
        let c := { c with peerUni := c.peerUni ++ [(id, recv)] }.pushEvent (.opened id)
        (.ok (), c.countReceived new)

def onReset (id error finalSize : Nat) : Except Fault Unit × Connection :=
  match c.streamIndex id with
  | some i =>
    match c.pairAt i with
    | none => (.ok (), c)
    | some pair => c.onRequestReset id i pair error finalSize
  | none =>
    if isClientInitiated id then
      if streamDir id = .uni || c.nextBidi ≤ id / 4 then (.error (.cannotSendOn id), c)
      else (.ok (), c)
    else c.onPeerReset id finalSize

end Connection

end Shb.Quic
