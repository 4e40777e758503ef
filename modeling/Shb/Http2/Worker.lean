import Shb.Budget
import Shb.Stats
import Shb.Http2.Conn

/-!
# `http2.rs` — the HTTP/2 worker

One worker drives a fixed number of connection slots from the completions the kernel hands
it. The model takes those completions one at a time as events: `step` is the body of the
source's loop for one completion, and a run is any list of events the kernel could produce.

What is outside the repository comes in with the events. A TLS session is a library's: a
receive over TLS says which plaintext came out of it, whether the session failed, and what it
says of the handshake and the protocol afterwards. A reconnect says whether the socket could
be opened. Time is a number, read once per event.

The transport of bytes already queued — the send buffer of a slot, which slots have something
to flush, when a receive is re-armed — decides nothing here and is left out.
-/

namespace Shb.Http2

/-- What a worker is asked to do. -/
structure Config where
  /-- `https` rather than cleartext with prior knowledge. -/
  tls : Bool
  connections : Nat
  budget : Budget
  /-- `--timeout`. -/
  timeout : Option Nat
  /-- `--parallel`, which the command line requires to be positive. -/
  parallel : Nat
  parallel_pos : 0 < parallel
  headerBlock : Bytes
  body : Bytes

/-- An in-flight request (one open stream). -/
structure InFlight where
  start : Nat
  /-- Status code from `:status`; 0 is not received yet. -/
  status : Nat
  deriving DecidableEq, Repr

/-- What the worker asks of a TLS session. -/
structure TlsSession where
  handshaking : Bool
  deriving DecidableEq, Repr

structure Conn where
  /-- A socket exists, connecting or connected: `fd >= 0`. -/
  fd : Bool
  connected : Bool
  h2 : Option Connection
  tls : Option TlsSession
  /-- No new streams; reconnect once in-flight streams drain. -/
  goaway : Bool
  /-- Incremented on every close; completions of an old generation are ignored. -/
  generation : Nat
  streams : H2Ring InFlight
  /-- Responses received on this connection since it was opened. -/
  answered : Nat
  /-- Requests the peer gave back before it had answered anything on this connection. -/
  held : Nat
  idleSince : Nat
  deriving DecidableEq, Repr

namespace Conn

def new (now : Nat) : Conn :=
  { fd := false, connected := false, h2 := none, tls := none, goaway := false, generation := 0
    streams := Ring.new, answered := 0, held := 0, idleSince := now }

def generationMask : Nat := 2 ^ 42 - 1

variable (c : Conn)

def close (now : Nat) : Conn :=
  { fd := false, connected := false, h2 := none, tls := none, goaway := false
    generation := (c.generation + 1) &&& generationMask
    streams := c.streams.clear, answered := 0, held := 0, idleSince := now }

/-- Count all in-flight requests as errors, and with them whatever the peer gave back while
this connection had answered nothing. -/
def failInflight (stats : Stats) : Conn × Stats :=
  ({ c with streams := c.streams.clear, held := 0 }, stats.fail (c.streams.len + c.held))

/-- Is the oldest request, or an idle connection with something still to send, past the
limit? -/
def timedOut (now limit : Nat) (mayStart : Bool) : Bool × Conn :=
  match c.streams.slot 0 with
  | some oldest => (limit ≤ now - oldest.start, { c with idleSince := now })
  | none => (c.connected && (0 < c.held || mayStart) && limit ≤ now - c.idleSince, c)

def isHandshaking : Bool :=
  match c.tls with
  | some tls => tls.handshaking
  | none => false

/-- A connect that has neither succeeded nor failed. -/
def connecting : Bool := c.fd && !c.connected

end Conn

/-! ## Filling and draining a connection -/

/-- The loop of `fill_streams`: at most `parallel` streams can be missing. -/
def startStreams (cfg : Config) (now : Nat) :
    Nat → Connection → H2Ring InFlight → Nat → Connection × H2Ring InFlight × Nat
  | 0, h2, streams, started => (h2, streams, started)
  | fuel + 1, h2, streams, started =>
    if streams.len < cfg.parallel && cfg.budget.mayStart started then
      match h2.startStream cfg.headerBlock cfg.body with
      | (none, h2) => (h2, streams, started)
      | (some id, h2) =>
        startStreams cfg now fuel h2 (streams.push id { start := now, status := 0 }) (started + 1)
    else (h2, streams, started)

/-- Open new streams until the parallelism target or the request budget is hit. -/
def fillStreams (cfg : Config) (stop : Bool) (now : Nat) (c : Conn) (started : Nat) : Conn × Nat :=
  match c.h2 with
  | none => (c, started)
  | some h2 =>
    -- Nothing leaves a TLS connection until its handshake is done.
    if c.isHandshaking then (c, started)
    else
      let h2 := h2.pumpBodies cfg.body
      if stop || c.goaway then ({ c with h2 := some h2 }, started)
      else
        let (h2, streams, started) := startStreams cfg now cfg.parallel h2 c.streams started
        ({ c with
            h2 := some h2
            streams := streams
            goaway := c.goaway || h2.streamIdsExhausted },
          started)

/-- Turn one event of the connection into statistics. -/
def processEvent (c : Conn) (stats : Stats) (started : Nat) : Event → Conn × Stats × Nat
  | .status id status =>
    ({ c with streams := c.streams.modify id fun r => { r with status := status } }, stats, started)
  | .finished id =>
    match c.streams.take id with
    | (none, streams) => ({ c with streams := streams }, stats, started)
    | (some inflight, streams) =>
      let c := { c with streams := streams }
      if inflight.status = 0 then
        -- A stream that ends without `:status` is not a response.
        (c, stats.fail 1, started)
      else
        ({ c with answered := c.answered + 1, held := 0 }, stats.recordSuccess, started - c.held)
  | .reset id =>
    match c.streams.take id with
    | (none, streams) => ({ c with streams := streams }, stats, started)
    | (some _, streams) => ({ c with streams := streams }, stats.fail 1, started)
  | .unprocessed id =>
    match c.streams.take id with
    | (none, streams) => ({ c with streams := streams }, stats, started)
    | (some _, streams) =>
      let c := { c with streams := streams }
      if 0 < c.answered then (c, stats, started - 1)
      else ({ c with held := c.held + 1 }, stats, started)
  | .goaway => ({ c with goaway := true }, stats, started)

def processEvents (c : Conn) (stats : Stats) (started : Nat) : List Event → Conn × Stats × Nat
  | [] => (c, stats, started)
  | e :: events =>
    let (c, stats, started) := processEvent c stats started e
    processEvents c stats started events

/-- A failed connection attempt consumes an unassigned request, so an unreachable peer
cannot keep a counted run open for ever. -/
def failConnect (stats : Stats) (started : Nat) (budget : Budget) : Stats × Nat :=
  if budget.mayStart started then
    ({ stats.fail 1 with connectErrors := stats.connectErrors + 1 }, started + 1)
  else (stats, started)

/-! ## Receiving -/

/-- What a TLS session makes of received ciphertext. -/
structure TlsRead where
  /-- The plaintext handed on, in order. -/
  plain : List Bytes
  /-- The session failed after that. -/
  failed : Bool
  /-- What the session says of its handshake afterwards. -/
  handshaking : Bool
  /-- ALPN settled on `h2`. -/
  alpnH2 : Bool
  deriving DecidableEq, Repr

inductive Recv where
  /-- `ENOBUFS`: the receive is armed again. -/
  | noBuffers
  /-- Any other error. -/
  | lost
  | eof
  | data (bytes : Bytes)
  | ciphertext (read : TlsRead)
  deriving DecidableEq, Repr

/-- What feeding a receive to the connection leaves. -/
structure Fed where
  ok : Bool
  /-- The handshake ended without `h2`. -/
  refused : Bool
  h2 : Connection
  tls : Option TlsSession
  events : List Event
  deriving DecidableEq, Repr

def okOf (r : Except FrameError Unit) : Bool :=
  match r with
  | .ok _ => true
  | .error _ => false

/-- `feed_into`'s sink: one `feed` after another, until one fails. -/
def feedAll (h2 : Connection) : List Bytes → List Event → Connection.Handled
  | [], events => (.ok (), h2, events)
  | plain :: rest, events =>
    match h2.feed plain events with
    | (.error e, h2, events) => (.error e, h2, events)
    | (.ok _, h2, events) => feedAll h2 rest events

def feedPlain (h2 : Connection) (bytes : Bytes) : Fed :=
  let (r, h2, events) := h2.feed bytes []
  { ok := okOf r, refused := false, h2 := h2, tls := none, events := events }

def feedTls (h2 : Connection) (tls : TlsSession) (read : TlsRead) : Fed :=
  let (r, h2, events) := feedAll h2 read.plain []
  let ok := okOf r && !read.failed
  let handshaking := tls.handshaking && read.handshaking
  -- This receive finished the handshake, so the preface can go, if the server agreed to h2.
  let finished := ok && tls.handshaking && !handshaking
  { ok := ok
    refused := finished && !read.alpnH2
    h2 := if finished && read.alpnH2 then h2.initiate else h2
    tls := some { handshaking := handshaking }
    events := events }

/-! ## The worker -/

structure Worker where
  conns : List Conn
  stats : Stats
  /-- Streams opened, and failed connects. -/
  started : Nat
  stop : Bool
  /-- The loop has been left. -/
  ended : Bool
  /-- How many connections have been opened: nothing in the source reads it. -/
  opened : Nat
  deriving DecidableEq, Repr

inductive Ev where
  /-- The top of the loop: has the run met its terms, or been told to stop? -/
  | turn (shutdown : Bool)
  /-- An operation the worker passes on with `?` failed. -/
  | fault
  /-- The `--timeout` check of one connection. -/
  | check (i now : Nat) (reconnects : Bool)
  /-- The deadline of a timed run. -/
  | deadline
  | connect (i generation now : Nat) (ok reconnects : Bool)
  | send (i generation now : Nat) (ok reconnects : Bool)
  | recv (i generation now : Nat) (r : Recv) (reconnects : Bool)
  deriving DecidableEq, Repr

/-- The slot an event is about. -/
def Ev.slot : Ev → Option Nat
  | .check i _ _ => some i
  | .connect i _ _ _ _ => some i
  | .send i _ _ _ _ => some i
  | .recv i _ _ _ _ => some i
  | _ => none

namespace Worker

variable (cfg : Config)

/-- Kick off the initial connects, one per slot while the budget covers it. -/
def init (now : Nat) : Worker :=
  let conns := (List.range cfg.connections).map fun i =>
    { Conn.new now with fd := cfg.budget.mayStart i }
  { conns := conns, stats := Stats.zero, started := 0, stop := false, ended := false
    opened := conns.countP (·.fd) }

variable (w : Worker)

/-- Close slot `i`, whose connection is `c`, and open another there if budget remains. -/
def replace (i : Nat) (c : Conn) (stats : Stats) (started now : Nat) (reconnects : Bool) : Worker :=
  let (c, stats) := c.failInflight stats
  let c := c.close now
  let w := { w with stats := stats, started := started }
  if !w.stop && cfg.budget.mayStart started then
    if reconnects then
      { w with conns := w.conns.set i { c with fd := true }, opened := w.opened + 1 }
    else { w with conns := w.conns.set i c, ended := true }
  else { w with conns := w.conns.set i c }

/-- The connection died or refused. -/
def broken (i : Nat) (c : Conn) (stats : Stats) (started now : Nat) (reconnects : Bool) : Worker :=
  -- One lost before its handshake finished is a connect that did not work out.
  let (stats, started) :=
    if c.isHandshaking then failConnect stats started cfg.budget else (stats, started)
  w.replace cfg i c stats started now reconnects

def onCheck (i : Nat) (c : Conn) (limit now : Nat) (reconnects : Bool) : Worker :=
  let (wedged, c) := c.timedOut now limit (cfg.budget.mayStart w.started)
  if !wedged then { w with conns := w.conns.set i c }
  else
    let (stats, started) :=
      -- It carried nothing at all: a connect that did not work out.
      if c.streams.isEmpty && c.held = 0 then failConnect w.stats w.started cfg.budget
      else (w.stats, w.started)
    w.replace cfg i c stats started now reconnects

def onConnect (i : Nat) (c : Conn) (now : Nat) (ok reconnects : Bool) : Worker :=
  if !ok then
    let (stats, started) := failConnect w.stats w.started cfg.budget
    w.broken cfg i c stats started now reconnects
  else
    let h2 := Connection.new
    let c :=
      { c with
        connected := true
        tls := if cfg.tls then some { handshaking := true } else none
        h2 := some (if cfg.tls then h2 else h2.initiate) }
    let (c, started) := fillStreams cfg w.stop now c w.started
    { w with conns := w.conns.set i c, started := started }

/-- A connection once the events of a receive are processed. A handshake that ended without
`h2` is charged first. -/
def afterEvents (c : Conn) (fed : Fed) : Conn × Stats × Nat :=
  let counts :=
    if fed.refused then failConnect w.stats w.started cfg.budget else (w.stats, w.started)
  processEvents { c with h2 := some fed.h2, tls := fed.tls } counts.1 counts.2 fed.events

/-- A receive that carried bytes, once they have been fed to the connection. -/
def onFed (i : Nat) (c : Conn) (fed : Fed) (now : Nat) (reconnects : Bool) : Worker :=
  let (c, stats, started) := w.afterEvents cfg c fed
  if !fed.ok || fed.refused || (c.goaway && c.streams.isEmpty) then
    w.broken cfg i c stats started now reconnects
  else
    let (c, started) := fillStreams cfg w.stop now c started
    { w with conns := w.conns.set i c, stats := stats, started := started }

def onRecv (i : Nat) (c : Conn) (h2 : Connection) (now : Nat)
    (r : Recv) (reconnects : Bool) : Option Worker :=
  match r, c.tls with
  | .noBuffers, _ => some w
  | .lost, _ => some (w.broken cfg i c w.stats w.started now reconnects)
  | .eof, _ => some (w.broken cfg i c w.stats w.started now reconnects)
  | .data bytes, none => some (w.onFed cfg i c (feedPlain h2 bytes) now reconnects)
  | .ciphertext read, some tls => some (w.onFed cfg i c (feedTls h2 tls read) now reconnects)
  | _, _ => none

/-- One event. The kernel completes a connect once, and reports sends and receives of
connected sockets only; completions of an older generation are passed over. -/
def step (e : Ev) : Option Worker :=
  if w.ended then none
  else
    match e with
    | .turn shutdown =>
      some { w with ended := cfg.budget.isMet w.stats.finished || shutdown || w.stop }
    | .fault => some { w with ended := true }
    | .deadline =>
      match cfg.budget with
      | .duration _ => some { w with stop := true }
      | .requests _ => none
    | .check i now reconnects =>
      match cfg.timeout, w.conns[i]? with
      | some limit, some c => some (w.onCheck cfg i c limit now reconnects)
      | _, _ => none
    | .connect i generation now ok reconnects =>
      match w.conns[i]? with
      | none => none
      | some c =>
        if generation ≠ c.generation then some w
        else if c.connecting then some (w.onConnect cfg i c now ok reconnects)
        else none
    | .send i generation now ok reconnects =>
      match w.conns[i]? with
      | none => none
      | some c =>
        if generation ≠ c.generation then some w
        else if !c.connected then none
        else if ok then some w
        else some (w.broken cfg i c w.stats w.started now reconnects)
    | .recv i generation now r reconnects =>
      match w.conns[i]? with
      | none => none
      | some c =>
        if generation ≠ c.generation then some w
        else
          match c.h2 with
          | some h2 => if c.connected then w.onRecv cfg i c h2 now r reconnects else none
          | none => none

end Worker

end Shb.Http2
