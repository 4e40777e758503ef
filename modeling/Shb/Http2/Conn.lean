import Shb.Inflight
import Shb.Http2.Hpack

/-!
# `http2/conn.rs` — an HTTP/2 client connection

The connection reads bytes and writes bytes: `feed` takes what arrived, changes the state,
queues answers in `out` and says what happened as events. A method that can fail returns its
result *and* the connection, as the source leaves it on either path.

Windows are integers, as the `i64`s of the source are; the other counters are natural
numbers. Two buffers are only memory and are left out: the spare output buffer, and the
capacity of the rest.
-/

namespace Shb.Http2

open Lib

/-! ## Constants -/

/-- `PRI * HTTP/2.0`, an empty line, `SM`, an empty line. -/
def preface : Bytes :=
  ascii ['P', 'R', 'I', ' ', '*', ' ', 'H', 'T', 'T', 'P', '/', '2', '.', '0'] ++
    [cr, lf, cr, lf] ++ ascii ['S', 'M'] ++ [cr, lf, cr, lf]

/-- The largest stream id there is. -/
def maxStreamId : Nat := 0x7fffffff

namespace FrameType

def data : UInt8 := 0x0
def headers : UInt8 := 0x1
def rstStream : UInt8 := 0x3
def settings : UInt8 := 0x4
def ping : UInt8 := 0x6
def goaway : UInt8 := 0x7
def windowUpdate : UInt8 := 0x8
def continuation : UInt8 := 0x9

end FrameType

def flagAck : UInt8 := 0x1
def flagEndStream : UInt8 := 0x1
def flagEndHeaders : UInt8 := 0x4
def flagPadded : UInt8 := 0x8
def flagPriority : UInt8 := 0x20

/-- The RST_STREAM code for a stream the peer would not take on at all. -/
def refusedStream : Nat := 0x7

def settingsHeaderTableSize : Nat := 0x1
def settingsEnablePush : Nat := 0x2
def settingsMaxConcurrentStreams : Nat := 0x3
def settingsInitialWindowSize : Nat := 0x4
def settingsMaxFrameSize : Nat := 0x5

def defaultMaxFrame : Nat := 16384
def maxFrameCeiling : Nat := 2 ^ 24 - 1
def maxWindow : Nat := 2 ^ 31 - 1
def defaultHeaderTableSize : Nat := 4096

/-- How many streams to assume the peer allows until its SETTINGS says. -/
def assumedMaxConcurrent : Nat := 100

/-- Receive-window credit to hand back in one go, once this much has been used. -/
def windowRefresh : Nat := 2 ^ 30

/-! ## Data -/

/-- What the worker needs to hear about. -/
inductive Event where
  /-- The response headers arrived; the stream may still be carrying a body. -/
  | status (streamId status : Nat)
  | finished (streamId : Nat)
  /-- The peer gave up on this stream. -/
  | reset (streamId : Nat)
  /-- The peer never acted on this stream, so the request can be sent again. -/
  | unprocessed (streamId : Nat)
  /-- No more streams may be opened on this connection. -/
  | goaway
  deriving DecidableEq, Repr

inductive FrameError where
  | http11
  | notSettings (kind : UInt8)
  | interleaved
  | headersOnZero
  | malformed (what : String)
  | unexpectedContinuation
  | malformedSettings
  | initialWindowSize
  | maxFrameSize
  | malformedRstStream
  | malformedGoaway
  | malformedWindowUpdate
  | pingOnStream (stream : Nat)
  | malformedPing
  | hpack (e : HpackError)
  deriving DecidableEq, Repr

/-- A stream we have opened and not yet finished. -/
structure OpenStream where
  id : Nat
  /-- How much of the request body has gone out. -/
  sent : Nat
  /-- What this stream's flow-control window still allows. -/
  window : Int
  deriving DecidableEq, Repr

structure Connection where
  /-- Bytes waiting to be written to the socket. -/
  out : Bytes
  /-- A partial frame carried over from an earlier receive. -/
  pending : Bytes
  /-- Header block fragments of a HEADERS still awaiting END_HEADERS. -/
  headerBlock : Bytes
  /-- Stream awaiting CONTINUATION, or zero when no field block is pending. -/
  headerStream : Nat
  headerEndStream : Bool
  /-- Next client stream id (odd, ascending). -/
  nextId : Nat
  /-- The streams opened and not yet finished: `open` in the source. -/
  opens : H2Ring OpenStream
  maxConcurrent : Nat
  maxConcurrentAssumed : Bool
  /-- Our remaining connection-level send credit. -/
  sendWindow : Int
  peerInitialWindow : Nat
  peerMaxFrame : Nat
  /-- Bytes received against the connection window since the last update. -/
  recvConsumed : Nat
  /-- The dynamic table our encoder is entitled to, as far as the peer knows. -/
  tableSize : Nat
  /-- A shrink the peer is owed, to go at the start of the next header block. -/
  tableSizeUpdate : Option Nat
  goaway : Bool
  peerPrefaceSeen : Bool
  deriving DecidableEq, Repr

namespace Connection

def new : Connection :=
  { out := [], pending := [], headerBlock := [], headerStream := 0, headerEndStream := false
    nextId := 1, opens := Ring.new
    maxConcurrent := assumedMaxConcurrent, maxConcurrentAssumed := true
    sendWindow := 65535, peerInitialWindow := 65535, peerMaxFrame := defaultMaxFrame
    recvConsumed := 0, tableSize := defaultHeaderTableSize, tableSizeUpdate := none
    goaway := false, peerPrefaceSeen := false }

/-! ## Writing -/

variable (c : Connection)

def frameHeader (len : Nat) (kind flags : UInt8) (stream : Nat) : Connection :=
  { c with out := c.out ++ (be32 len).drop 1 ++ [kind, flags] ++ be32 stream }

def windowUpdate (c : Connection) (stream increment : Nat) : Connection :=
  let c := c.frameHeader 4 FrameType.windowUpdate 0 stream
  { c with out := c.out ++ be32 increment }

/-- Queue the client preface, our settings and the connection window bump, in front of
anything already queued. -/
def initiate : Connection :=
  let peerDrew := c.out
  let settings :=
    [(settingsHeaderTableSize, 0), (settingsEnablePush, 0), (settingsInitialWindowSize, maxWindow)]
  let c := { c with out := preface }
  let c := c.frameHeader (6 * settings.length) FrameType.settings 0 0
  let c := { c with out := c.out ++ settings.flatMap fun (id, value) => be16 id ++ be32 value }
  let c := c.windowUpdate 0 (maxWindow - 65535)
  { c with out := c.out ++ peerDrew }

/-- No id is left to hand out. -/
def streamIdsExhausted : Bool := maxStreamId < c.nextId

/-- Whether another stream may be opened right now. -/
def canOpen : Bool :=
  !c.goaway && !c.streamIdsExhausted && c.opens.len < c.maxConcurrent

/-- Write what the connection window, the stream's window and the frame size between them
allow. A round sends at least one byte, so as many rounds as the body has bytes are enough. -/
def writeBody : Nat → Connection → Nat → Bytes → Connection
  | 0, c, _, _ => c
  | fuel + 1, c, pos, body =>
    match c.opens.slot pos with
    | none => c
    | some s =>
      let allowed := (max (min c.sendWindow s.window) 0).toNat
      let n := min (min (body.length - s.sent) c.peerMaxFrame) allowed
      if body.length ≤ s.sent ∨ n = 0 then c
      else
        let flags := if s.sent + n = body.length then flagEndStream else 0
        let c := c.frameHeader n FrameType.data flags s.id
        let c :=
          { c with
            out := c.out ++ (body.drop s.sent).take n
            opens := c.opens.slotModify pos fun s =>
              { s with sent := s.sent + n, window := s.window - n }
            sendWindow := c.sendWindow - n }
        writeBody fuel c pos body

/-- Send more of `body` on every stream a window has unblocked. -/
def pumpBodies (body : Bytes) : Connection :=
  if body.isEmpty then c
  else (List.range c.opens.slotCount).foldl (fun c pos => writeBody body.length c pos body) c

/-- A header block longer than one frame: HEADERS and then CONTINUATIONs, with END_HEADERS on
the last of them. -/
def headerFrames : Nat → Connection → Nat → UInt8 → Bool → Bytes → Connection
  | 0, c, _, _, _, _ => c
  | fuel + 1, c, id, endStream, first, block =>
    let chunk := block.take c.peerMaxFrame
    let rest := block.drop c.peerMaxFrame
    let kind := if first then FrameType.headers else FrameType.continuation
    let flags := (if rest.isEmpty then flagEndHeaders else 0) ||| (if first then endStream else 0)
    let c := c.frameHeader chunk.length kind flags id
    let c := { c with out := c.out ++ chunk }
    if rest.isEmpty then c else headerFrames fuel c id endStream false rest

/-- Open a stream carrying `block` (and `body`), returning its id. -/
def startStream (block body : Bytes) : Option Nat × Connection :=
  if !c.canOpen then (none, c)
  else
    let id := c.nextId
    let endStream := if body.isEmpty then flagEndStream else 0
    let block :=
      match c.tableSizeUpdate with
      | some size => sizeUpdate size ++ block
      | none => block
    let c := { c with nextId := min (c.nextId + 2) (2 ^ 32 - 1), tableSizeUpdate := none }
    let c :=
      if block.length ≤ c.peerMaxFrame then
        let c := c.frameHeader block.length FrameType.headers (flagEndHeaders ||| endStream) id
        { c with out := c.out ++ block }
      else headerFrames block.length c id endStream true block
    let c :=
      { c with opens := c.opens.push id { id := id, sent := 0, window := c.peerInitialWindow } }
    let c :=
      if body.isEmpty then c else writeBody body.length c (c.opens.slotCount - 1) body
    (some id, c)

/-- Take everything queued for the socket. -/
def takeOutput : Option Bytes × Connection :=
  if c.out.isEmpty then (none, c) else (some c.out, { c with out := [] })

/-- Queue a GOAWAY, so a clean teardown is not logged as an error by the peer. -/
def sendGoaway : Connection :=
  let c := c.frameHeader 8 FrameType.goaway 0 0
  { c with out := c.out ++ be32 0 ++ be32 0 }

/-! ## Reading -/

/-- What handling a frame leaves: whether it failed, the connection, and the events so far. -/
abbrev Handled := Except FrameError Unit × Connection × List Event

/-- Retire `stream` if it is still open, and say `event` if it was. -/
def finishStream (stream : Nat) (event : Event) (events : List Event) : Connection × List Event :=
  let (taken, opens) := c.opens.take stream
  ({ c with opens := opens }, if taken.isSome then events ++ [event] else events)

def onData (stream : Nat) (flags : UInt8) (payload : Bytes)
    (events : List Event) : Connection × List Event :=
  -- The whole frame counts against the connection window, padding included.
  let consumed := c.recvConsumed + payload.length
  let c :=
    if windowRefresh ≤ consumed then { c with recvConsumed := 0 }.windowUpdate 0 consumed
    else { c with recvConsumed := consumed }
  if flags &&& flagEndStream ≠ 0 then c.finishStream stream (.finished stream) events
  else (c, events)

def completeHeaders (stream : Nat) (endStream : Bool) (block : Bytes)
    (events : List Event) : Handled :=
  match findStatus block with
  | .error e => (.error (.hpack e), c, events)
  | .ok found =>
    -- No `:status` is trailers and a 1xx precedes the response; neither answers the request.
    let events :=
      match found with
      | some status =>
        if isInformational status then events else events ++ [.status stream status]
      | none => events
    if endStream then (.ok (), c.finishStream stream (.finished stream) events)
    else (.ok (), c, events)

/-- The field block of a HEADERS payload, without its padding and priority. -/
def fieldBlock (flags : UInt8) (payload : Bytes) : Except FrameError Bytes :=
  let unpadded : Except FrameError Bytes :=
    if flags &&& flagPadded ≠ 0 then
      match payload with
      | [] => .error (.malformed "padded HEADERS")
      | pad :: block =>
        if block.length < pad.toNat then .error (.malformed "padding")
        else .ok (block.take (block.length - pad.toNat))
    else .ok payload
  match unpadded with
  | .error e => .error e
  | .ok block =>
    if flags &&& flagPriority ≠ 0 then
      if block.length < 5 then .error (.malformed "priority in HEADERS") else .ok (block.drop 5)
    else .ok block

def onHeaders (stream : Nat) (flags : UInt8) (payload : Bytes) (events : List Event) : Handled :=
  -- Zero is the connection's, and no pending field block in `headerStream`.
  if stream = 0 then (.error .headersOnZero, c, events)
  else
    match fieldBlock flags payload with
    | .error e => (.error e, c, events)
    | .ok block =>
      if flags &&& flagEndHeaders ≠ 0 then
        c.completeHeaders stream (flags &&& flagEndStream ≠ 0) block events
      else
        (.ok (),
          { c with
            headerBlock := c.headerBlock ++ block
            headerStream := stream
            headerEndStream := flags &&& flagEndStream ≠ 0 },
          events)

def onContinuation (stream : Nat) (flags : UInt8) (payload : Bytes)
    (events : List Event) : Handled :=
  if c.headerStream = 0 ∨ stream ≠ c.headerStream then
    (.error .unexpectedContinuation, c, events)
  else
    let block := c.headerBlock ++ payload
    if flags &&& flagEndHeaders = 0 then (.ok (), { c with headerBlock := block }, events)
    else
      let endStream := c.headerEndStream
      let c := { c with headerBlock := [], headerStream := 0, headerEndStream := false }
      c.completeHeaders stream endStream block events

/-- One entry of a SETTINGS frame. -/
def onSetting (id value : Nat) : Except FrameError Unit × Connection :=
  if id = settingsHeaderTableSize ∧ value < c.tableSize then
    -- The encoder never grows into a raised limit, so only a cut is anything to act on.
    (.ok (), { c with tableSize := value, tableSizeUpdate := some value })
  else if id = settingsMaxConcurrentStreams then
    (.ok (), { c with maxConcurrent := value, maxConcurrentAssumed := false })
  else if id = settingsInitialWindowSize then
    if value ≤ maxWindow then
      let delta : Int := value - c.peerInitialWindow
      (.ok (),
        { c with
          peerInitialWindow := value
          opens := c.opens.mapLive fun s => { s with window := s.window + delta } })
    else (.error .initialWindowSize, c)
  else if id = settingsMaxFrameSize then
    if defaultMaxFrame ≤ value ∧ value ≤ maxFrameCeiling then
      (.ok (), { c with peerMaxFrame := value })
    else (.error .maxFrameSize, c)
  else (.ok (), c)

/-- The entries of a SETTINGS payload, six octets each. -/
def settingEntries : Bytes → List (Nat × Nat)
  | a :: b :: v :: w :: x :: y :: rest =>
    (fromBe [a, b], fromBe [v, w, x, y]) :: settingEntries rest
  | _ => []

def applySettings (c : Connection) : List (Nat × Nat) → Except FrameError Unit × Connection
  | [] => (.ok (), c)
  | (id, value) :: entries =>
    match c.onSetting id value with
    | (.error e, c) => (.error e, c)
    | (.ok _, c) => applySettings c entries

def onSettings (flags : UInt8) (payload : Bytes) : Except FrameError Unit × Connection :=
  if flags &&& flagAck ≠ 0 then (.ok (), c)
  else if payload.length % 6 ≠ 0 then (.error .malformedSettings, c)
  else
    match c.applySettings (settingEntries payload) with
    | (.error e, c) => (.error e, c)
    | (.ok _, c) =>
      -- A first SETTINGS that names no limit on streams has set none.
      let c :=
        if c.maxConcurrentAssumed then
          { c with maxConcurrent := 2 ^ 32 - 1, maxConcurrentAssumed := false }
        else c
      (.ok (), c.frameHeader 0 FrameType.settings flagAck 0)

/-- A refused stream was never acted on; any other code is a stream that went wrong. -/
def onRstStream (stream : Nat) (payload : Bytes) (events : List Event) : Handled :=
  if payload.length ≠ 4 then (.error .malformedRstStream, c, events)
  else
    let event := if fromBe payload = refusedStream then .unprocessed stream else .reset stream
    (.ok (), c.finishStream stream event events)

/-- Everything above the last stream id was never looked at. -/
def onGoaway (payload : Bytes) (events : List Event) : Handled :=
  if payload.length < 8 then (.error .malformedGoaway, c, events)
  else
    let last := fromBe (payload.take 4) % 2 ^ 31
    let (retired, opens) := c.opens.retireAfter last
    (.ok (), { c with goaway := true, opens := opens },
      events ++ retired.map (fun s => .unprocessed s.id) ++ [.goaway])

def onWindowUpdate (stream : Nat) (payload : Bytes) : Except FrameError Unit × Connection :=
  if payload.length ≠ 4 then (.error .malformedWindowUpdate, c)
  else
    let increment : Nat := fromBe payload % 2 ^ 31
    if stream = 0 then (.ok (), { c with sendWindow := c.sendWindow + increment })
    else
      (.ok (),
        { c with opens := c.opens.modify stream fun s =>
          { s with window := s.window + increment } })

def onPing (stream : Nat) (flags : UInt8) (payload : Bytes) : Except FrameError Unit × Connection :=
  if stream ≠ 0 then (.error (.pingOnStream stream), c)
  else if payload.length ≠ 8 then (.error .malformedPing, c)
  else if flags &&& flagAck = 0 then
    let c := c.frameHeader 8 FrameType.ping flagAck 0
    (.ok (), { c with out := c.out ++ payload })
  else (.ok (), c)

def onFrame (kind flags : UInt8) (stream : Nat) (payload : Bytes) (events : List Event) : Handled :=
  -- A HEADERS awaiting END_HEADERS may only be followed by CONTINUATION.
  if c.headerStream ≠ 0 ∧ kind ≠ FrameType.continuation then (.error .interleaved, c, events)
  else if kind = FrameType.data then (.ok (), c.onData stream flags payload events)
  else if kind = FrameType.headers then c.onHeaders stream flags payload events
  else if kind = FrameType.continuation then c.onContinuation stream flags payload events
  else if kind = FrameType.settings then
    let (r, c) := c.onSettings flags payload
    (r, c, events)
  else if kind = FrameType.windowUpdate then
    let (r, c) := c.onWindowUpdate stream payload
    (r, c, events)
  else if kind = FrameType.ping then
    let (r, c) := c.onPing stream flags payload
    (r, c, events)
  else if kind = FrameType.rstStream then c.onRstStream stream payload events
  else if kind = FrameType.goaway then c.onGoaway payload events
  else (.ok (), c, events)

/-- The server's preface is a SETTINGS frame, and it must be the first frame it sends. -/
def checkPreface (kind flags : UInt8) : Except FrameError Connection :=
  if c.peerPrefaceSeen then .ok c
  else if kind ≠ FrameType.settings ∨ flags &&& flagAck ≠ 0 then .error (.notSettings kind)
  else .ok { c with peerPrefaceSeen := true }

/-- Read as many whole frames from `buf` as possible: what is left of it, the connection and
the events. A round takes a frame header at least, so as many rounds as there are octets are
enough. -/
def frames : Nat → Connection → Bytes → List Event →
    Except FrameError Bytes × Connection × List Event
  | 0, c, buf, events => (.ok buf, c, events)
  | fuel + 1, c, buf, events =>
    match buf with
    | l0 :: l1 :: l2 :: kind :: flags :: s0 :: s1 :: s2 :: s3 :: rest =>
      match c.checkPreface kind flags with
      | .error e => (.error e, c, events)
      | .ok c =>
        let len := fromBe [l0, l1, l2]
        let stream := fromBe [s0 &&& 0x7f, s1, s2, s3]
        if rest.length < len then (.ok buf, c, events)
        else
          match c.onFrame kind flags stream (rest.take len) events with
          | (.error e, c, events) => (.error e, c, events)
          | (.ok _, c, events) => frames fuel c (rest.drop len) events
    | _ => (.ok buf, c, events)

def httpSlash : Bytes := ascii ['H', 'T', 'T', 'P', '/']

def run (buf : Bytes) (events : List Event) : Except FrameError Bytes × Connection × List Event :=
  -- What a server that does not speak HTTP/2 sends back is an HTTP/1.1 status line.
  if !c.peerPrefaceSeen && httpSlash.isPrefixOf buf then (.error .http11, c, events)
  else frames buf.length c buf events

/-- Consume received bytes, appending what happened to `events`. A failed connection keeps no
partial frame. -/
def feed (data : Bytes) (events : List Event) : Handled :=
  match run { c with pending := [] } (c.pending ++ data) events with
  | (.error e, c, events) => (.error e, c, events)
  | (.ok rest, c, events) => (.ok (), { c with pending := rest }, events)

end Connection

end Shb.Http2
