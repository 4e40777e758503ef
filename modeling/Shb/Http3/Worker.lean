import Shb.Http3.Drive
import Shb.Quic.Conn.KeyUpdate

/-!
# `http3.rs` — the HTTP/3 worker

One worker drives a fixed number of connection slots. Each event of the model is one visit of
the source's loop to one slot: its timers, a completion, the pass after a batch of datagrams,
or the check of `--timeout`. A run is any list of them, so in particular the order the loop
visits them in.

What is outside the repository comes in with the events: the datagrams of a receive, what the
kernel said of a send, and for a connection that is opened its two random connection ids and
what rustls will answer. Of rustls one thing is assumed, that it hands out the 1-RTT keys once
(`Session`).

A connection that is closed goes on record in `past`, as it was then. Nothing reads it.
-/

namespace Shb.Http3

open Quic (Connection ConnectionId OutPacket)

def receiveWindow : Nat := 2 ^ 30 - 1

/-- The least a connection is waited on with nothing arriving, in milliseconds. -/
def idleTimeoutMs : Nat := 30000

/-- How long a connection that is closing keeps its socket. -/
def closeGrace : Nat := 1000000000

def toMillis (ns : Nat) : Nat := ns / 1000000

/-- What shb asks of the peer, and what it promises in return. -/
def localParams (connectTimeout : Nat) (timeout : Option Nat) : Quic.LocalParamsInput :=
  { initialMaxData := receiveWindow
    initialMaxStreamData := receiveWindow
    initialMaxStreamsUni := 3
    maxIdleTimeoutMs := max idleTimeoutMs (toMillis (timeout.getD 0))
    handshakeTimeoutMs := toMillis connectTimeout }

/-- What a new connection gets from outside. -/
structure Session where
  localCid : ConnectionId
  initialDcid : ConnectionId
  tls : Quic.Tls
  /-- rustls brings the 1-RTT keys once. -/
  once : tls.writes.countP Quic.TlsWrite.givesOneRtt ≤ 1
  deriving DecidableEq, Repr

/-! ## Sending -/

def gsoSegments : Nat := 64
def gsoMaxPayload : Nat := 65507
/-- A datagram this long was cut off by the limit. -/
def nearlyFull : Nat := Quic.maxDatagram - 64

def bytesOf (packets : List OutPacket) : Nat := (packets.map OutPacket.size).sum

/-- A batch being built. -/
structure Batch where
  buf : List OutPacket := []
  segmentSize : Nat := 0
  count : Nat := 0
  /-- A datagram that cannot join the batch and leaves on its own, behind it. -/
  oversize : Option (List OutPacket) := none
  deriving DecidableEq, Repr

/-- The loop of `pump_transmits`: up to `max` datagrams back to back, all as long as the first
but the last. -/
def fillBatch (now : Nat) : Nat → Nat → Batch → Connection → Except Quic.Fault Batch × Connection
  | 0, _, b, quic => (.ok b, quic)
  | fuel + 1, max, b, quic =>
    if max ≤ b.count then (.ok b, quic)
    else
      match quic.pollTransmit now (if 0 < b.count then some b.segmentSize else none) with
      | (.error e, quic) => (.error e, quic)
      | (.ok out, quic) =>
        let n := bytesOf out
        if n = 0 then (.ok b, quic)
        else if b.count = 0 then
          let b := { b with buf := b.buf ++ out, segmentSize := n, count := 1 }
          -- a short one means there was nothing more to send
          if n < nearlyFull then (.ok b, quic)
          else fillBatch now fuel (min max (gsoMaxPayload / n)) b quic
        else if n < b.segmentSize then
          (.ok { b with buf := b.buf ++ out, count := b.count + 1 }, quic)
        else if b.segmentSize < n then (.ok { b with oversize := some out }, quic)
        else fillBatch now fuel max { b with buf := b.buf ++ out, count := b.count + 1 } quic

namespace Conn

/-- Start sending the front of the queue. -/
def pushFrontSend (c : Conn) : Conn := if c.outQueue.isEmpty then c else { c with sending := true }

/-- Retire the datagram at the front of the queue. -/
def recycle (c : Conn) : Conn := { c with outQueue := c.outQueue.tail }

/-- What a batch adds to the queue. -/
def enqueue (c : Conn) (b : Batch) : Conn :=
  { c with
    outQueue := c.outQueue ++
      (if b.buf.isEmpty then []
        else [{ packets := b.buf, segmentSize := if 1 < b.count then b.segmentSize else 0 }]) ++
      (b.oversize.elim [] fun out => [{ packets := out, segmentSize := 0 }]) }

/-- Move pending QUIC datagrams into the send queue and start sending. -/
def pumpTransmits (cfg : Config) (now : Nat) (c : Conn) : Except Quic.Fault Unit × Conn :=
  match c.quic with
  | none => (.ok (), if c.sending then c else c.pushFrontSend)
  | some quic =>
    let max := if quic.probing then 2 else if cfg.gso then gsoSegments else 1
    match fillBatch now max max {} quic with
    | (.error e, quic) => (.error e, { c with quic := some quic })
    | (.ok b, quic) =>
      let c := { c with quic := some quic }.enqueue b
      (.ok (), if c.sending then c else c.pushFrontSend)

/-- Open a connection in an empty slot. -/
def connect (cfg : Config) (now : Nat) (s : Session) (c : Conn) : Except Quic.Fault Unit × Conn :=
  let quic := Connection.connect (localParams cfg.connectTimeout cfg.timeout)
    s.localCid s.initialDcid s.tls
  { c with quic := some quic }.pumpTransmits cfg now

/-- Settle the account of a connection that is given up: a working one owes its requests, and
one that never worked costs the budget a request if there is one. -/
def charge (budget : Budget) (c : Conn) (n : Counts) : Conn × Counts :=
  if c.h3Ready then c.failInflight n
  else if budget.mayStart n.started then
    ({ c with connectFailed := c.connectFailed + 1 },
      { stats := { n.stats.fail 1 with connectErrors := n.stats.connectErrors + 1 }
        started := n.started + 1 })
  else (c, n)

end Conn

/-! ## The worker -/

/-- A connection that was closed, and whether another was opened in its slot. -/
structure Past where
  conn : Conn
  replaced : Bool
  deriving DecidableEq, Repr

structure Worker where
  conns : List Conn
  counts : Counts
  stop : Bool
  /-- The loop has been left. -/
  ended : Bool
  past : List Past
  deriving DecidableEq, Repr

/-- What the kernel said of a send. -/
inductive Sent where
  | sent
  /-- `EMSGSIZE`: the datagram is dropped, as a lost one would be. -/
  | tooBig
  | failed
  deriving DecidableEq, Repr

inductive Recv where
  /-- `ENOBUFS`, or `EMSGSIZE` for an earlier send. -/
  | passedOver
  /-- Any other error, or metadata that does not add up. -/
  | failed
  | datagrams (ds : List Quic.Datagram)
  deriving DecidableEq, Repr

/-- An event. `session` is for the connection it may open; without one, an operation on the
way to it failed. -/
inductive Ev where
  /-- The top of the loop: has the run met its terms, or been told to stop? -/
  | turn (shutdown : Bool)
  /-- An operation the worker passes on with `?` failed. -/
  | fault
  /-- The deadline of a timed run. -/
  | deadline
  /-- The timers of one connection, as many as expire. -/
  | timer (i now rounds : Nat) (session : Option Session)
  | send (i generation now : Nat) (result : Sent) (session : Option Session)
  | recv (i generation now : Nat) (result : Recv) (session : Option Session)
  /-- The pass after a batch of completions. -/
  | pass (i now : Nat) (session : Option Session)
  /-- The `--timeout` check of one connection. -/
  | check (i now : Nat) (session : Option Session)
  deriving DecidableEq, Repr

/-- The loop over expired timers: whether there was one. `none` if there are more than so
many. -/
def expire (now : Nat) : Nat → Bool → Connection → Option (Bool × Connection)
  | 0, _, _ => none
  | rounds + 1, expired, quic =>
    match quic.pollTimeout with
    | none => some (expired, quic)
    | some deadline =>
      if deadline ≤ now then expire now rounds true (quic.handleTimeout now)
      else some (expired, quic)

/-- Hand over the datagrams of a receive: whether none was an error. -/
def handleDatagrams (now : Nat) : List Quic.Datagram → Connection → Bool × Connection
  | [], quic => (true, quic)
  | d :: ds, quic =>
    match quic.handleDatagram now d with
    | (.error _, quic) => (false, quic)
    | (.ok (), quic) => handleDatagrams now ds quic

namespace Worker

variable (cfg : Config)

/-- Kick off the initial connections, one per slot while the budget covers it. -/
def init (now : Nat) (sessions : Nat → Session) : Worker :=
  let opened := (List.range cfg.connections).map fun i =>
    if cfg.budget.mayStart i then Conn.new.connect cfg now (sessions i) else (.ok (), Conn.new)
  { conns := opened.map (·.2)
    counts := { stats := Stats.zero, started := 0 }
    stop := false
    ended := opened.any fun o => match o.1 with
      | .error _ => true
      | .ok () => false
    past := [] }

/-- Slot `i` holds `c`, and this is what has been counted. -/
def set (w : Worker) (i : Nat) (c : Conn) (n : Counts) : Worker :=
  { w with conns := w.conns.set i c, counts := n }

variable (w : Worker)

/-- Close the socket of a connection that is over, and open the next one if the budget
allows. -/
def finishClose (i : Nat) (c : Conn) (n : Counts) (now : Nat) (session : Option Session) : Worker :=
  if w.stop || !cfg.budget.mayStart n.started then
    { w.set i c.close n with past := w.past ++ [{ conn := c, replaced := false }] }
  else
    match session with
    | none => { w.set i c.close n with
        past := w.past ++ [{ conn := c, replaced := false }], ended := true }
    | some s =>
      match c.close.connect cfg now s with
      | (.error _, c') => { w.set i c' n with
          past := w.past ++ [{ conn := c, replaced := true }], ended := true }
      | (.ok (), c') => { w.set i c' n with past := w.past ++ [{ conn := c, replaced := true }] }

/-- Give up on a connection. Its requests are accounted for now; the socket goes when the send
in flight is done, or at the deadline set here. -/
def beginClose (i : Nat) (c : Conn) (n : Counts) (now : Nat) (session : Option Session) : Worker :=
  let (c, n) :=
    if c.closing.isNone then
      let (c, n) := c.charge cfg.budget n
      ({ c with closing := some (now + closeGrace) }, n)
    else (c, n)
  if c.sending then w.set i c n else w.finishClose cfg i c n now session

/-- A connection that has been driven, or told to close: send what it has to say, and give it
up unless it is alive. -/
def conclude (i : Nat) (alive : Bool) (c : Conn) (n : Counts)
    (now : Nat) (session : Option Session) : Worker :=
  match c.pumpTransmits cfg now with
  | (.error _, c) => { w.set i c n with ended := true }
  | (.ok (), c) => if alive then w.set i c n else w.beginClose cfg i c n now session

def driven (i : Nat) (c : Conn) (now : Nat) (session : Option Session) : Worker :=
  let (alive, c, n) := drive cfg w.stop now c w.counts
  w.conclude cfg i alive c n now session

def onTimer (i : Nat) (c : Conn) (now rounds : Nat) (session : Option Session) : Option Worker :=
  match c.closing, c.quic with
  | some deadline, _ =>
    if deadline ≤ now then some (w.finishClose cfg i c w.counts now session) else some w
  | none, none => some w
  | none, some quic =>
    match expire now rounds false quic with
    | none => none
    | some (expired, quic) =>
      let c := { c with quic := some quic }
      some (if expired then w.driven cfg i c now session else w.set i c w.counts)

def onSend (i : Nat) (c : Conn) (now : Nat) (result : Sent) (session : Option Session) : Worker :=
  let c := { c with sending := false }
  let c := if result = .failed then c else c.recycle.pushFrontSend
  -- the CONNECTION_CLOSE has left, so the socket can go
  if result = .failed || (c.closing.isSome && !c.sending) then
    w.beginClose cfg i c w.counts now session
  else w.set i c w.counts

def onRecv (i : Nat) (c : Conn) (quic : Connection) (now : Nat)
    (result : Recv) (session : Option Session) : Worker :=
  match result with
  | .passedOver => w
  | .failed => w.beginClose cfg i c w.counts now session
  | .datagrams ds =>
    match handleDatagrams now ds quic with
    | (false, quic) => w.beginClose cfg i { c with quic := some quic } w.counts now session
    | (true, quic) => w.set i { c with quic := some quic, pending := true } w.counts

def onPass (i : Nat) (c : Conn) (now : Nat) (session : Option Session) : Worker :=
  let idle := { c with pending := false }
  if !c.pending || c.closing.isSome then w.set i idle w.counts
  else w.driven cfg i idle now session

/-- A response that never comes: the server is told, with the code of a cancelled request. -/
def onCheck (i : Nat) (c : Conn) (limit now : Nat) (session : Option Session) : Worker :=
  if !c.timedOut now limit then w
  else
    let c := { c with quic := c.quic.map fun quic => quic.close h3RequestCancelled [] }
    w.conclude cfg i false c w.counts now session

/-- One event. The kernel completes a send once, and receives on sockets that are there;
completions of an older generation are passed over. -/
def step (e : Ev) : Option Worker :=
  if w.ended then none
  else
    match e with
    | .turn shutdown =>
      some { w with ended := cfg.budget.isMet w.counts.stats.finished || shutdown || w.stop }
    | .fault => some { w with ended := true }
    | .deadline =>
      match cfg.budget with
      | .duration _ => some { w with stop := true }
      | .requests _ => none
    | .timer i now rounds session =>
      match w.conns[i]? with
      | none => none
      | some c => w.onTimer cfg i c now rounds session
    | .send i generation now result session =>
      match w.conns[i]? with
      | none => none
      | some c =>
        if generation ≠ c.generation then some w
        else if c.sending then some (w.onSend cfg i c now result session)
        else none
    | .recv i generation now result session =>
      match w.conns[i]? with
      | none => none
      | some c =>
        if generation ≠ c.generation then some w
        else
          match c.quic with
          | none => none
          | some quic => some (w.onRecv cfg i c quic now result session)
    | .pass i now session =>
      match w.conns[i]? with
      | none => none
      | some c => some (w.onPass cfg i c now session)
    | .check i now session =>
      match cfg.timeout, w.conns[i]? with
      | some limit, some c => some (w.onCheck cfg i c limit now session)
      | _, _ => none

end Worker

end Shb.Http3
