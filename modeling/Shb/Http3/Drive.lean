import Shb.Budget
import Shb.Inflight
import Shb.Stats
import Shb.Http3.Proto
import Shb.Quic.Conn.Transmit

/-!
# `http3.rs` — one pass over a connection

`drive` turns the QUIC and HTTP/3 state machines of one connection after input: it drains the
events, reads what is readable, settles the streams that ended and those a GOAWAY turned away,
and fills the connection up again. A pass that fails with `?` gives the connection up, and
everything that can fail comes before anything is counted.

`stats` and `started` are the worker's and are passed through together as `Counts`. Four
fields are not in the source and nothing reads them: `GiveBacks.charged`, and of `Conn` the
fields `given`, `failed` and `connectFailed`. They say what became of the requests of one
connection.

Scratch lists and spare buffers are left out, and so are the socket and whether a receive is
armed on it: no decision reads them.
-/

namespace Shb.Http3

open Quic (Connection ConnectionId OutPacket)

/-- What a worker is asked to do. -/
structure Config where
  connections : Nat
  budget : Budget
  connectTimeout : Nat
  /-- `--timeout`. -/
  timeout : Option Nat
  /-- `--parallel`. -/
  parallel : Nat
  fieldSection : Bytes
  body : Bytes
  /-- The kernel takes segmented sends. -/
  gso : Bool
  deriving DecidableEq, Repr

def Config.request (cfg : Config) : Bytes := requestBytes cfg.fieldSection cfg.body

/-- What `drive` counts in. -/
structure Counts where
  stats : Stats
  /-- Streams opened, and failed connects, less what was given back to the budget. -/
  started : Nat
  deriving DecidableEq, Repr

def Counts.fail (n : Counts) (k : Nat) : Counts := { n with stats := n.stats.fail k }

/-! ## Give-backs -/

/-- Requests a connection gave back, which the server never started on, and what became of
them. -/
structure GiveBacks where
  /-- Requests answered on this connection since it was opened. -/
  completed : Nat := 0
  /-- Given back while nothing had been answered, verdict pending. -/
  unjudged : Nat := 0
  /-- Sent again from this connection. -/
  retried : Nat := 0
  /-- Charged as errors. -/
  charged : Nat := 0
  deriving DecidableEq, Repr

namespace GiveBacks

variable (g : GiveBacks)

def giveBack (parallel : Nat) (n : Counts) : GiveBacks × Counts :=
  if g.completed = 0 then ({ g with unjudged := g.unjudged + 1 }, n)
  else if g.retried < parallel * g.completed then
    ({ g with retried := g.retried + 1 }, { n with started := n.started - 1 })
  else ({ g with charged := g.charged + 1 }, n.fail 1)

/-- `give_back` so many times over. -/
def giveBackAll (parallel : Nat) : Nat → GiveBacks → Counts → GiveBacks × Counts
  | 0, g, n => (g, n)
  | k + 1, g, n =>
    let (g, n) := g.giveBack parallel n
    giveBackAll parallel k g n

/-- Charge every give-back that waits for its verdict. -/
def chargeAll (n : Counts) : GiveBacks × Counts :=
  ({ g with unjudged := 0, charged := g.charged + g.unjudged }, n.fail g.unjudged)

/-- Settle the give-backs that were waiting, once the connection has answered something or
has nothing left in flight. -/
def judge (drained : Bool) (parallel : Nat) (n : Counts) : GiveBacks × Counts :=
  if g.unjudged = 0 then (g, n)
  else if 0 < g.completed then giveBackAll parallel g.unjudged { g with unjudged := 0 } n
  else if drained then g.chargeAll n
  else (g, n)

end GiveBacks

/-! ## A connection -/

structure InFlight where
  streamId : Nat
  start : Nat
  reader : ResponseReader
  /-- Request bytes not yet accepted by the QUIC stream. -/
  unsent : Bytes
  deriving DecidableEq, Repr

/-- One of the streams that are opened first: what it starts with, and how much of that has
been written. -/
structure Critical where
  id : Nat
  prelude : Bytes
  written : Nat
  deriving DecidableEq, Repr

/-- The control stream and the two QPACK streams, while one of them is blocked. -/
structure H3Init where
  streams : List Critical
  deriving DecidableEq, Repr

namespace H3Init

def preludes : List Bytes :=
  [controlStreamPrelude, Quic.putVarint streamQpackEncoder, Quic.putVarint streamQpackDecoder]

/-- Open one stream for each of the preludes, if the peer allows that many. -/
def openAll : List Bytes → Connection → Option (List Critical) × Connection
  | [], quic => (some [], quic)
  | prelude :: rest, quic =>
    match quic.openUni with
    | (none, quic) => (none, quic)
    | (some id, quic) =>
      match openAll rest quic with
      | (none, quic) => (none, quic)
      | (some streams, quic) =>
        (some ({ id := id, prelude := prelude, written := 0 } :: streams), quic)

def new (quic : Connection) : Option H3Init × Connection :=
  match openAll preludes quic with
  | (none, quic) => (none, quic)
  | (some streams, quic) => (some { streams := streams }, quic)

/-- Write what the peer's credit allows: whether everything is written. -/
def flushAll : List Critical → Connection → Bool × List Critical × Connection
  | [], quic => (true, [], quic)
  | s :: rest, quic =>
    let (n, quic) :=
      if s.written < s.prelude.length then quic.write s.id (s.prelude.drop s.written) else (0, quic)
    let s := { s with written := s.written + n }
    let (ready, rest, quic) := flushAll rest quic
    (decide (s.written = s.prelude.length) && ready, s :: rest, quic)

def flush (init : H3Init) (quic : Connection) : Bool × H3Init × Connection :=
  let (ready, streams, quic) := flushAll init.streams quic
  (ready, { streams := streams }, quic)

end H3Init

/-- One UDP send: a single datagram, or a batch of equally long segments. -/
structure OutDatagram where
  packets : List OutPacket
  segmentSize : Nat
  deriving DecidableEq, Repr

structure Conn where
  quic : Option Connection
  /-- The handshake is done and the HTTP/3 streams are set up. -/
  h3Ready : Bool
  h3Init : Option H3Init
  /-- Peer-opened unidirectional streams. -/
  uni : List (Nat × UniReader)
  /-- Datagrams have come in since the last pass. -/
  pending : Bool
  /-- The first stream id the server did not process. -/
  goaway : Option Nat
  /-- The front one is being sent while `sending`. -/
  outQueue : List OutDatagram
  sending : Bool
  /-- Incremented on every close; completions of an old generation are ignored. -/
  generation : Nat
  streams : H3Ring InFlight
  hasUnsent : Bool
  giveBacks : GiveBacks
  /-- The connection is over and accounted for; the socket stays until its last send
  completes, or until then. -/
  closing : Option Nat
  /-- Requests that were given back. -/
  given : Nat
  /-- Requests that ended in an error without being given back. -/
  failed : Nat
  /-- One, if the connection never worked and was charged for it. -/
  connectFailed : Nat
  deriving DecidableEq, Repr

namespace Conn

def new : Conn :=
  { quic := none, h3Ready := false, h3Init := none, uni := [], pending := false, goaway := none
    outQueue := [], sending := false, generation := 0, streams := Ring.new, hasUnsent := false
    giveBacks := {}, closing := none, given := 0, failed := 0, connectFailed := 0 }

/-- Requests start in the order of their ids, so no other can time out before the oldest. -/
def timedOut (c : Conn) (now limit : Nat) : Bool :=
  (c.streams.slot 0).any fun oldest => limit ≤ now - oldest.start

def generationMask : Nat := 2 ^ 42 - 1

/-- Close the socket and forget the connection. -/
def close (c : Conn) : Conn :=
  { quic := none, h3Ready := false, h3Init := none, uni := [], pending := c.pending, goaway := none
    outQueue := [], sending := false, generation := (c.generation + 1) &&& generationMask
    streams := c.streams.clear, hasUnsent := false, giveBacks := {}, closing := none
    given := 0, failed := 0, connectFailed := 0 }

/-- Count all in-flight requests as errors, and what was waiting for a verdict with them. -/
def failInflight (c : Conn) (n : Counts) : Conn × Counts :=
  let (giveBacks, n') := c.giveBacks.chargeAll (n.fail c.streams.len)
  ({ c with
      streams := c.streams.clear
      hasUnsent := false
      giveBacks := giveBacks
      failed := c.failed + c.streams.len },
    n')

end Conn

/-! ## Filling a connection -/

/-- The loop of `fill_streams`: at most `parallel` streams can be missing. -/
def startStreams (cfg : Config) (now : Nat) :
    Nat → Connection → H3Ring InFlight → Bool → Nat → Connection × H3Ring InFlight × Bool × Nat
  | 0, quic, streams, hasUnsent, started => (quic, streams, hasUnsent, started)
  | fuel + 1, quic, streams, hasUnsent, started =>
    if streams.len < cfg.parallel && cfg.budget.mayStart started then
      match quic.sendOneshot cfg.request with
      | (none, quic) => (quic, streams, hasUnsent, started)
      | (some (id, sent), quic) =>
        let inflight : InFlight :=
          { streamId := id, start := now, reader := {}, unsent := cfg.request.drop sent }
        startStreams cfg now fuel quic (streams.push id inflight)
          (hasUnsent || decide (sent < cfg.request.length)) (started + 1)
    else (quic, streams, hasUnsent, started)

/-- Open new request streams until the parallelism target or the budget is hit. -/
def fillStreams (cfg : Config) (stop : Bool) (now : Nat) (c : Conn) (n : Counts) : Conn × Counts :=
  if stop || c.goaway.isSome || !c.h3Ready then (c, n)
  else
    match c.quic with
    | none => (c, n)
    | some quic =>
      let (quic, streams, hasUnsent, started) :=
        startStreams cfg now cfg.parallel quic c.streams c.hasUnsent n.started
      ({ c with quic := some quic, streams := streams, hasUnsent := hasUnsent },
        { n with started := started })

/-! ## A pass -/

inductive DriveError where
  | noUniStreams
  | proto (e : ProtoError)
  deriving DecidableEq, Repr

/-- The state of a pass. The QUIC connection is taken out of `conn` while it lasts. -/
structure Pass where
  conn : Conn
  quic : Connection
  counts : Counts
  alive : Bool
  readable : List Nat
  /-- Streams that ended, and the error code of those that were reset. -/
  finished : List (Nat × Option Nat)
  deriving DecidableEq, Repr

namespace Pass

def start (c : Conn) (quic : Connection) (n : Counts) : Pass :=
  { conn := c, quic := quic, counts := n, alive := true, readable := [], finished := [] }

variable (p : Pass)

/-- One event of the QUIC connection. The end of a stream is only collected: the datagram
that ends it usually carries the response. -/
def onEvent : Quic.Event → Except DriveError Unit × Pass
  | .connected =>
    match H3Init.new p.quic with
    | (none, quic) => (.error .noUniStreams, { p with quic := quic })
    | (some init, quic) =>
      let (ready, init, quic) := init.flush quic
      (.ok (),
        { p with
          quic := quic
          conn := { p.conn with
            h3Ready := ready, h3Init := if ready then p.conn.h3Init else some init } })
  | .lost _ => (.ok (), { p with alive := false })
  | .readable id | .opened id => (.ok (), { p with readable := p.readable ++ [id] })
  | .stopped id =>
    (.ok (),
      { p with
        conn := { p.conn with streams := p.conn.streams.modify id fun s =>
          { s with unsent := [] } } })
  | .finished id reset => (.ok (), { p with finished := p.finished ++ [(id, reset)] })

/-- The loop over the events. No event makes another, so as many rounds as there are events
are enough. -/
def drain : Nat → Pass → Except DriveError Unit × Pass
  | 0, p => (.ok (), p)
  | fuel + 1, p =>
    match p.quic.pollEvent with
    | (none, _) => (.ok (), p)
    | (some e, quic) =>
      match { p with quic := quic }.onEvent e with
      | (.error e, p) => (.error e, p)
      | (.ok (), p) => drain fuel p

/-- `quic.consume(id, |data| reader.feed(data))`. -/
def consumeInto {ρ : Type} (quic : Connection) (id : Nat) (reader : ρ)
    (feed : ρ → Bytes → Except ProtoError Unit × ρ) : Except ProtoError Unit × ρ × Connection :=
  let shown := (quic.recvMut id).elim [] (·.ready)
  let (verdict, reader) := if shown.isEmpty then (.ok (), reader) else feed reader shown
  match quic.consume id fun _ => verdict with
  | (.error e, quic) => (.error e, reader, quic)
  | (.ok _, quic) => (.ok (), reader, quic)

/-- The reader of a peer-opened stream, a new one for a new stream. -/
def uniReader (uni : List (Nat × UniReader)) (id : Nat) : UniReader :=
  (Quic.findStream id uni).getD {}

def setUniReader (uni : List (Nat × UniReader)) (id : Nat) (reader : UniReader) :
    List (Nat × UniReader) :=
  if (Quic.findStream id uni).isSome then Quic.modifyFirst id (fun _ => reader) uni
  else uni ++ [(id, reader)]

/-- Read one stream: a response, or one of the peer's own streams, of which only a GOAWAY is
acted on. -/
def read (id : Nat) : Except DriveError Unit × Pass :=
  match p.conn.streams.get id with
  | some inflight =>
    let (verdict, reader, quic) := consumeInto p.quic id inflight.reader ResponseReader.feed
    let streams := p.conn.streams.modify id fun s => { s with reader := reader }
    (verdict.mapError .proto, { p with quic := quic, conn := { p.conn with streams := streams } })
  | none =>
    let (verdict, reader, quic) := consumeInto p.quic id (uniReader p.conn.uni id) UniReader.feed
    let p := { p with
      quic := quic
      conn := { p.conn with uni := setUniReader p.conn.uni id reader } }
    match verdict, reader.goaway with
    | .error e, _ => (.error (.proto e), p)
    | .ok (), none => (.ok (), p)
    | .ok (), some id =>
      (.ok (), { p with conn := { p.conn with goaway := some (p.conn.goaway.elim id (min · id)) } })

def readAll : List Nat → Pass → Except DriveError Unit × Pass
  | [], p => (.ok (), p)
  | id :: rest, p =>
    match p.read id with
    | (.error e, p) => (.error e, p)
    | (.ok (), p) => readAll rest p

/-- The part of a pass that can fail. -/
def gather : Except DriveError Unit × Pass :=
  match drain p.quic.events.length p with
  | (.error e, p) => (.error e, p)
  | (.ok (), p) => readAll p.readable p

/-- A request that the server never started on. -/
def giveBack (cfg : Config) (p : Pass) : Pass :=
  let (giveBacks, counts) := p.conn.giveBacks.giveBack cfg.parallel p.counts
  { p with
    conn := { p.conn with giveBacks := giveBacks, given := p.conn.given + 1 }
    counts := counts }

/-- A request that ended in an error. -/
def fail (p : Pass) : Pass :=
  { p with conn := { p.conn with failed := p.conn.failed + 1 }, counts := p.counts.fail 1 }

/-- A request that was answered. -/
def succeed : Pass :=
  { p with
    conn := { p.conn with
      giveBacks := { p.conn.giveBacks with completed := p.conn.giveBacks.completed + 1 } }
    counts := { p.counts with stats := p.counts.stats.recordSuccess } }

/-- What the end of a stream means for its request. Nothing at or above the id of a GOAWAY was
processed, whatever code a reset there carries; and a stream that ends without a status never
answered. -/
def conclude (cfg : Config) (p : Pass) (id status : Nat) (reset : Option Nat) : Pass :=
  let unprocessed := status = 0 ∧ p.conn.goaway.any (· ≤ id)
  if reset = some h3RequestRejected ∨ (reset.isSome ∧ unprocessed) then p.giveBack cfg
  else if reset.isSome ∨ status = 0 then p.fail
  else p.succeed

/-- One stream that ended. -/
def finish (cfg : Config) (p : Pass) (e : Nat × Option Nat) : Pass :=
  match p.conn.streams.take e.1 with
  | (none, _) => p
  | (some inflight, streams) =>
    let p := { p with conn := { p.conn with streams := streams } }
    let p := p.conclude cfg e.1 inflight.reader.status e.2
    { p with quic := p.quic.retire e.1 h3RequestCancelled }

/-- One request a GOAWAY turned away, given back at once. -/
def turnAway (cfg : Config) (p : Pass) (id : Nat) : Pass :=
  let p := { p with
    conn := { p.conn with streams := (p.conn.streams.take id).2 }
    quic := p.quic.retire id h3RequestCancelled }
  p.giveBack cfg

/-- The requests in flight at or above an id. -/
def above (goaway : Nat) : List Nat :=
  (p.conn.streams.iter.map InFlight.streamId).filter (goaway ≤ ·)

/-- Act on a GOAWAY. The rest of the requests will finish, and once they have the connection
is closed here. -/
def goAway (cfg : Config) (p : Pass) : Pass :=
  match p.conn.goaway with
  | none => p
  | some goaway =>
    let p := (p.above goaway).foldl (turnAway cfg) p
    if p.conn.streams.isEmpty then { p with quic := p.quic.close h3NoError [], alive := false }
    else p

def judge (cfg : Config) (p : Pass) : Pass :=
  let (giveBacks, counts) :=
    p.conn.giveBacks.judge p.conn.streams.isEmpty cfg.parallel p.counts
  { p with conn := { p.conn with giveBacks := giveBacks }, counts := counts }

/-- Try again to write a prelude that was blocked. -/
def flushInit : Pass :=
  match p.conn.h3Init with
  | none => p
  | some init =>
    let (ready, init, quic) := init.flush p.quic
    { p with
      quic := quic
      conn := { p.conn with
        h3Init := if ready then none else some init, h3Ready := p.conn.h3Ready || ready } }

/-- The rest of one request: whether there is more of it. -/
def flushSlot (quic : Connection) (streams : H3Ring InFlight) (remaining : Bool) (pos : Nat) :
    Connection × H3Ring InFlight × Bool :=
  match streams.slot pos with
  | none => (quic, streams, remaining)
  | some s =>
    if s.unsent.isEmpty then (quic, streams, remaining)
    else
      let (n, quic) := quic.write s.streamId s.unsent
      let rest := s.unsent.drop n
      let streams := streams.slotModify pos fun s => { s with unsent := rest }
      if rest.isEmpty then (quic.finish s.streamId, streams, remaining) else (quic, streams, true)

/-- Push whatever of a request the QUIC stream would not take earlier. -/
def flushUnsent : Pass :=
  if !p.conn.hasUnsent then p
  else
    let (quic, streams, remaining) :=
      (List.range p.conn.streams.slotCount).foldl
        (fun acc pos => flushSlot acc.1 acc.2.1 acc.2.2 pos) (p.quic, p.conn.streams, false)
    { p with quic := quic, conn := { p.conn with streams := streams, hasUnsent := remaining } }

/-- The part of a pass that cannot fail, up to the filling. -/
def settle (cfg : Config) (p : Pass) : Pass :=
  let p := p.finished.foldl (finish cfg) p
  (((p.goAway cfg).judge cfg).flushInit).flushUnsent

/-- The connection with its QUIC state put back. -/
def result : Conn := { p.conn with quic := some p.quic }

end Pass

/-- Drive the QUIC and HTTP/3 state machines after input: whether the connection is alive. -/
def drive (cfg : Config) (stop : Bool) (now : Nat) (c : Conn) (n : Counts) : Bool × Conn × Counts :=
  match c.quic with
  | none => (true, c, n)
  | some quic =>
    match (Pass.start c quic n).gather with
    | (.error _, p) => (false, p.result, p.counts)
    | (.ok (), p) =>
      let p := p.settle cfg
      let (c, n) := fillStreams cfg stop now p.result p.counts
      (p.alive, c, n)

end Shb.Http3
