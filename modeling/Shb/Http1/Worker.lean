import Shb.Budget
import Shb.Stats
import Shb.Http1.Parse

/-!
# `http1.rs` — the HTTP/1.1 worker

One worker drives a fixed number of connections, each with at most one request at a time.
The model takes the completions of the kernel one by one as events: `step` is the body of the
source's loop for one of them, and a run is any list of events the kernel could produce.

What is outside the repository comes in with the events. A receive over TLS says which
plaintext came out of it and what the session says of itself afterwards, an event that may
flush says which ciphertext the session hands out for it (`sealed`), and one that may
reconnect whether a socket could be opened.

Whether a receive is armed decides nothing and is left out, so the kernel may deliver one at
any time a connection is there.
-/

namespace Shb.Http1

/-- What a worker is asked to do. -/
structure Config where
  /-- `https`. -/
  tls : Bool
  connections : Nat
  budget : Budget
  /-- `--timeout`. -/
  timeout : Option Nat
  /-- The method is `HEAD`. -/
  isHead : Bool
  disableKeepalive : Bool
  requestBytes : Bytes
  deriving DecidableEq, Repr

/-- What the worker asks of a TLS session. -/
structure TlsSession where
  handshaking : Bool
  /-- The peer has sent `close_notify`. -/
  peerClosed : Bool
  deriving DecidableEq, Repr

structure Conn where
  /-- A socket exists, connecting or connected: `fd >= 0`. -/
  fd : Bool
  connected : Bool
  parser : Parser
  tls : Option TlsSession
  /-- Ciphertext being sent. -/
  out : Bytes
  outOff : Nat
  /-- A send is in flight. -/
  sending : Bool
  /-- The next request waits for that send to finish. -/
  queued : Bool
  /-- Incremented on every close; completions of an old generation are ignored. -/
  generation : Nat
  /-- When the request in flight left for the socket. -/
  requestStart : Nat
  /-- The request in flight has yet to reach the socket. -/
  unsent : Bool
  /-- A request is still owed. -/
  active : Bool
  /-- When it stops being worth waiting for. -/
  deadline : Option Nat
  deriving DecidableEq, Repr

namespace Conn

def new (now : Nat) : Conn :=
  { fd := false, connected := false, parser := Parser.new, tls := none, out := [], outOff := 0
    sending := false, queued := false, generation := 0, requestStart := now, unsent := true
    active := false, deadline := none }

def generationMask : Nat := 2 ^ 42 - 1

variable (c : Conn)

def close : Conn :=
  { c with
    fd := false, connected := false, sending := false, queued := false, tls := none, out := []
    outOff := 0, generation := (c.generation + 1) &&& generationMask }

/-- The bytes this connection is sending: ciphertext of its own, or the request that all
connections share. -/
def outbound (request : Bytes) : Bytes := if c.tls.isSome then c.out else request

/-- Reset per-request state for the next request. -/
def beginRequest (timeout : Option Nat) (now : Nat) : Conn :=
  { c with active := true, unsent := true, deadline := timeout.map (now + ·) }

def endRequest : Conn := { c with active := false, deadline := none }

def failRequest (stats : Stats) : Conn × Stats :=
  if c.active then (c.endRequest, stats.fail 1) else (c, stats)

/-- The request's bytes are going to the socket: start its clock. -/
def markSent (now : Nat) : Conn :=
  if c.unsent then { c with unsent := false, requestStart := now } else c

/-! ### Sending -/

/-- Queue the request. A plaintext one is sent from where it is, so it has to wait while a
send still works through the previous copy. -/
def queueRequest : Conn :=
  if c.tls.isSome then c
  else if c.sending then { c with queued := true }
  else { c with outOff := 0 }

/-- Submit TLS output that is already in `out`. Only what follows the handshake carries the
request. -/
def submitTlsOutput (tls : TlsSession) (now : Nat) : Conn :=
  if c.out.isEmpty then c
  else
    let c := if tls.handshaking then c else c.markSent now
    { c with outOff := 0, sending := true }

/-- Submit pending output unless a send is already in flight. -/
def flush (request sealed : Bytes) (now : Nat) : Conn :=
  if c.sending then c
  else
    match c.tls with
    | some tls => { c with out := sealed }.submitTlsOutput tls now
    | none =>
      if c.outOff < (c.outbound request).length then { c.markSent now with sending := true } else c

def queueAndFlushRequest (request sealed : Bytes) (now : Nat) : Conn :=
  match c.sending, c.tls with
  | false, some tls => { c with out := sealed }.submitTlsOutput tls now
  | _, _ => c.queueRequest.flush request sealed now

/-! ### Receiving -/

/-- The stream ended: a body that runs to the end is complete, and anything else was cut
short. -/
def finishAtEof (stats : Stats) : Conn × Stats :=
  if !c.active then (c, stats)
  else
    let (done, parser) := c.parser.markEof
    ({ c with parser := parser }.endRequest, if done then stats.recordSuccess else stats.fail 1)

end Conn

/-- What a TLS session makes of received ciphertext. -/
structure TlsRead where
  /-- The plaintext handed on, in order. -/
  plain : List Bytes
  /-- The session failed after that. -/
  failed : Bool
  /-- What the session says of itself afterwards. -/
  session : TlsSession
  deriving DecidableEq, Repr

inductive Recv where
  /-- `ENOBUFS`: the receive is armed again. -/
  | noBuffers
  /-- Any other error. -/
  | lost
  | eof
  | data (bytes : Bytes)
  | ciphertext (read : TlsRead)
  deriving DecidableEq, Repr

/-- `feed_into`'s sink: the responses completed, until a feed fails. -/
def feedAll (parser : Parser) : List Bytes → Nat → Option Nat × Parser
  | [], completed => (some completed, parser)
  | plain :: rest, completed =>
    match parser.feed plain with
    | (.error _, parser) => (none, parser)
    | (.ok done, parser) => feedAll parser rest (completed + done)

/-! ## The worker -/

structure Worker where
  conns : List Conn
  stats : Stats
  started : Nat
  stop : Bool
  /-- The loop has been left. -/
  ended : Bool
  deriving DecidableEq, Repr

/-- A send that failed, or how many bytes of it were accepted. -/
inductive Sent where
  | failed
  | bytes (n : Nat)
  deriving DecidableEq, Repr

inductive Ev where
  /-- The top of the loop: has the run met its terms, or been told to stop? -/
  | turn (shutdown : Bool)
  /-- An operation the worker passes on with `?` failed. -/
  | fault
  /-- The `--timeout` check of one connection. -/
  | check (i now : Nat) (reconnects : Bool)
  /-- The deadline of a timed run. -/
  | deadline
  | connect (i generation now : Nat) (ok : Bool) (sealed : Bytes) (reconnects : Bool)
  | send (i generation now : Nat) (result : Sent) (sealed : Bytes) (reconnects : Bool)
  | recv (i generation now : Nat) (r : Recv) (sealed : Bytes) (reconnects : Bool)
  deriving DecidableEq, Repr

namespace Worker

variable (cfg : Config)

/-- Kick off the initial requests, one per connection while the budget covers it. -/
def init (now : Nat) : Worker :=
  let conn := { Conn.new now with parser := Parser.new.setHeadRequest cfg.isHead }
  let first := fun i => cfg.budget.mayStart i
  { conns := (List.range cfg.connections).map fun i =>
      if first i then { conn.beginRequest cfg.timeout now with fd := true } else conn
    stats := Stats.zero
    started := ((List.range cfg.connections).filter first).length
    stop := false
    ended := false }

/-- Slot `i` holds `c`, and this is what has been counted. -/
def set (w : Worker) (i : Nat) (c : Conn) (stats : Stats) : Worker :=
  { w with conns := w.conns.set i c, stats := stats }

variable (w : Worker)

/-- Open another socket in a slot that was closed. -/
def reconnect (i : Nat) (c : Conn) (stats : Stats) (reconnects : Bool) : Worker :=
  if reconnects then w.set i { c with fd := true } stats
  else { w.set i c stats with ended := true }

/-- What follows the end of a request, on a connection that is kept or not. -/
def requestFinished (i : Nat) (c : Conn) (stats : Stats) (keep : Bool)
    (now : Nat) (sealed : Bytes) (reconnects : Bool) : Worker :=
  let c := c.endRequest
  if !w.stop && cfg.budget.mayStart w.started then
    let w := { w with started := w.started + 1 }
    let c := c.beginRequest cfg.timeout now
    if keep then w.set i (c.queueAndFlushRequest cfg.requestBytes sealed now) stats
    else w.reconnect i { c.close with parser := c.parser.reset } stats reconnects
  else w.set i (if keep then c else c.close) stats

/-- A response that never comes. The deadline of the next request is set once it is
connected. -/
def onCheck (i : Nat) (c : Conn) (now : Nat) (reconnects : Bool) : Worker :=
  if !c.deadline.any (· ≤ now) then w
  else
    let (c, stats) := c.failRequest w.stats
    let c := { c.close with parser := c.parser.reset }
    if w.stop || !cfg.budget.mayStart w.started then w.set i c stats
    else
      { w with started := w.started + 1 }.reconnect i (c.beginRequest none now) stats reconnects

def onConnect (i : Nat) (c : Conn) (now : Nat) (ok : Bool)
    (sealed : Bytes) (reconnects : Bool) : Worker :=
  if !ok then
    let stats := { w.stats.fail 1 with connectErrors := w.stats.connectErrors + 1 }
    w.requestFinished cfg i c stats false now sealed reconnects
  else
    let tls := if cfg.tls then some { handshaking := true, peerClosed := false } else none
    let c := { c with connected := true, tls := tls }.beginRequest cfg.timeout now
    w.set i (c.queueAndFlushRequest cfg.requestBytes sealed now) w.stats

def onSend (i : Nat) (c : Conn) (now : Nat) (result : Sent)
    (sealed : Bytes) (reconnects : Bool) : Worker :=
  match result with
  | .failed =>
    let (c, stats) := c.failRequest w.stats
    w.requestFinished cfg i c stats false now sealed reconnects
  | .bytes n =>
    let c := { c with outOff := c.outOff + n }
    if c.outOff < (c.outbound cfg.requestBytes).length then w.set i c w.stats
    else
      let c := { c with sending := false }
      -- the request that waited for this send goes out now, from the start
      let c := if c.queued then { c with queued := false, outOff := 0 } else c
      w.set i (c.flush cfg.requestBytes sealed now) w.stats

/-- What the parser made of a receive: the responses it completed, or an error. -/
def onFed (i : Nat) (c : Conn) (done : Option Nat) (now : Nat)
    (sealed : Bytes) (reconnects : Bool) : Worker :=
  match done with
  | none =>
    let (c, stats) := c.failRequest w.stats
    w.requestFinished cfg i c stats false now sealed reconnects
  | some 0 =>
    if c.tls.any (·.peerClosed) then
      let (c, stats) := c.finishAtEof w.stats
      w.requestFinished cfg i c stats false now sealed reconnects
    else w.set i (c.flush cfg.requestBytes sealed now) w.stats
  | some (_ + 1) =>
    let stats := if c.active then w.stats.recordSuccess else w.stats
    w.requestFinished cfg i c stats (c.parser.keepAlive && !cfg.disableKeepalive) now sealed
      reconnects

def onRecv (i : Nat) (c : Conn) (now : Nat) (r : Recv)
    (sealed : Bytes) (reconnects : Bool) : Option Worker :=
  match r, c.tls with
  | .noBuffers, _ => some w
  | .lost, _ =>
    let (c, stats) := c.failRequest w.stats
    some (w.requestFinished cfg i c stats false now sealed reconnects)
  | .eof, _ =>
    let (c, stats) := c.finishAtEof w.stats
    some (w.requestFinished cfg i c stats false now sealed reconnects)
  | .data bytes, none =>
    let (done, parser) := feedAll c.parser [bytes] 0
    some (w.onFed cfg i { c with parser := parser } done now sealed reconnects)
  | .ciphertext read, some _ =>
    let (done, parser) := feedAll c.parser read.plain 0
    some (w.onFed cfg i { c with parser := parser, tls := some read.session }
      (if read.failed then none else done) now sealed reconnects)
  | _, _ => none

/-- One completion. The kernel completes a connect and a send once, and receives on sockets
that are connected; completions of an older generation are passed over. -/
def step (e : Ev) : Option Worker :=
  if w.ended then none
  else
    match e with
    | .turn shutdown =>
      some { w with ended := cfg.budget.isMet w.stats.finished || shutdown || w.stop }
    | .fault => some { w with ended := true }
    | .deadline =>
      match cfg.budget with
      | .duration _ => some { w with stop := true }
      | .requests _ => none
    | .check i now reconnects =>
      match cfg.timeout, w.conns[i]? with
      | some _, some c => some (w.onCheck cfg i c now reconnects)
      | _, _ => none
    | .connect i generation now ok sealed reconnects =>
      match w.conns[i]? with
      | none => none
      | some c =>
        if generation ≠ c.generation then some w
        else if c.fd && !c.connected then some (w.onConnect cfg i c now ok sealed reconnects)
        else none
    | .send i generation now result sealed reconnects =>
      match w.conns[i]? with
      | none => none
      | some c =>
        if generation ≠ c.generation then some w
        else if c.sending then some (w.onSend cfg i c now result sealed reconnects)
        else none
    | .recv i generation now r sealed reconnects =>
      match w.conns[i]? with
      | none => none
      | some c =>
        if generation ≠ c.generation then some w
        else if c.connected then w.onRecv cfg i c now r sealed reconnects
        else none

end Worker

end Shb.Http1
