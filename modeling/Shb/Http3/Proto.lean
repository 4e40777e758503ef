import Shb.Http3.Qpack
import Shb.Quic.Varint

/-!
# `http3/proto.rs` — HTTP/3 framing

What a benchmark needs of RFC 9114: the streams it opens, a request, and the readers of a
response stream and of a stream the server opens. A position in a buffer is the bytes left
from it.
-/

namespace Shb.Http3

open Quic

namespace FrameType

def data : Nat := 0x00
def headers : Nat := 0x01
def settings : Nat := 0x04
def goaway : Nat := 0x07

end FrameType

def streamControl : Nat := 0x00
def streamQpackEncoder : Nat := 0x02
def streamQpackDecoder : Nat := 0x03

/-- Nothing went wrong; the connection is simply done with. -/
def h3NoError : Nat := 0x100
/-- The server never started on the request. -/
def h3RequestRejected : Nat := 0x10b
def h3RequestCancelled : Nat := 0x10c

/-- Settings, in the order they are sent: no dynamic table, no blocked streams, and the
largest field section that is taken. -/
def settings : List (Nat × Nat) := [(0x01, 0), (0x07, 0), (0x06, 2 ^ 20)]

/-- The client's control stream: the stream type, then SETTINGS. -/
def controlStreamPrelude : Bytes :=
  let payload := settings.flatMap fun setting => putVarint setting.1 ++ putVarint setting.2
  putVarint streamControl ++ putVarint FrameType.settings ++ putVarint payload.length ++ payload

/-- A request: one HEADERS frame, then a DATA frame when there is a body. -/
def requestBytes (fieldSection body : Bytes) : Bytes :=
  putVarint FrameType.headers ++ putVarint fieldSection.length ++ fieldSection ++
    if body.isEmpty then [] else putVarint FrameType.data ++ putVarint body.length ++ body

inductive ProtoError where
  | qpack (e : QpackError)
  | oversizedGoaway
  | goawayTooLong
  | goawayWithoutId
  | goawayTrailing
  | goawayRaised
  deriving DecidableEq, Repr

/-- The type and length of the frame at the front, and how many bytes say so. -/
def frameHeader (buf : Bytes) : Option (Nat × Nat × Nat) :=
  match getVarint buf with
  | none => none
  | some (kind, n₁) =>
    match getVarint (buf.drop n₁) with
    | none => none
    | some (len, n₂) => some (kind, len, n₁ + n₂)

/-! ## Responses -/

/-- Reader for one response stream. -/
structure ResponseReader where
  /-- A partial frame header or field section carried over. -/
  pending : Bytes := []
  /-- Bytes still to skip from the frame being read. -/
  skip : Nat := 0
  /-- Status from the HEADERS frame of the response; 0 is not seen yet. -/
  status : Nat := 0
  deriving DecidableEq, Repr

namespace ResponseReader

/-- A field section without `:status` is trailers, and a 1xx precedes the real response. -/
def note (r : ResponseReader) : Option Nat → ResponseReader
  | some status => if isInformational status then r else { r with status := status }
  | none => r

/-- The loop over a buffer: what is left of it. A frame takes two bytes or more, so one round
more than there are bytes is enough. -/
def run : Nat → ResponseReader → Bytes → Except ProtoError Bytes × ResponseReader
  | 0, r, buf => (.ok buf, r)
  | fuel + 1, r, buf =>
    let take := min r.skip buf.length
    let buf := buf.drop take
    let r := { r with skip := r.skip - take }
    if 0 < r.skip then (.ok buf, r)
    else
      match frameHeader buf with
      | none => (.ok buf, r)
      | some (kind, len, header) =>
        if kind = FrameType.headers then
          -- the whole field section, or wait for it
          if buf.length < header + len then (.ok buf, r)
          else
            match findStatus ((buf.drop header).take len) with
            | .error e => (.error (.qpack e), r)
            | .ok status => run fuel (r.note status) (buf.drop (header + len))
        else if kind = FrameType.goaway ∧ 2 ^ 20 < len then (.error .oversizedGoaway, r)
        else run fuel { r with skip := len } (buf.drop header)

/-- Consume stream data. -/
def feed (r : ResponseReader) (data : Bytes) : Except ProtoError Unit × ResponseReader :=
  let buf := r.pending ++ data
  match run (buf.length + 1) { r with pending := [] } buf with
  | (.error e, r) => (.error e, r)
  | (.ok rest, r) => (.ok (), { r with pending := rest })

end ResponseReader

/-! ## Streams the server opens -/

/-- Reader for a peer-opened unidirectional stream. -/
structure UniReader where
  kind : Option Nat := none
  pending : Bytes := []
  skip : Nat := 0
  /-- The stream id a GOAWAY carried. -/
  goaway : Option Nat := none
  deriving DecidableEq, Repr

namespace UniReader

variable (r : UniReader)

/-- A GOAWAY with this payload: one stream id, which may only be lowered. -/
def onGoaway (payload : Bytes) : Except ProtoError Unit × UniReader :=
  match getVarint payload with
  | none => (.error .goawayWithoutId, r)
  | some (id, n) =>
    if n ≠ payload.length then (.error .goawayTrailing, r)
    else if r.goaway.any (· < id) then (.error .goawayRaised, r)
    else (.ok (), { r with goaway := some id })

/-- The loop over the control stream: what is left of the buffer. -/
def run : Nat → UniReader → Bytes → Except ProtoError Bytes × UniReader
  | 0, r, buf => (.ok buf, r)
  | fuel + 1, r, buf =>
    let take := min r.skip buf.length
    let buf := buf.drop take
    let r := { r with skip := r.skip - take }
    if 0 < r.skip then (.ok buf, r)
    else
      match frameHeader buf with
      | none => (.ok buf, r)
      | some (kind, len, header) =>
        if kind = FrameType.goaway then
          if 8 < len then (.error .goawayTooLong, r)
          else if buf.length < header + len then (.ok buf, r)
          else
            match r.onGoaway ((buf.drop header).take len) with
            | (.error e, r) => (.error e, r)
            | (.ok (), r) => run fuel r (buf.drop (header + len))
        else run fuel { r with skip := len } (buf.drop header)

/-- Interpret what has arrived, once the stream has said what it is: only the control stream
carries anything that is acted on. -/
def interpret (buf : Bytes) : Except ProtoError Unit × UniReader :=
  if r.kind ≠ some streamControl then (.ok (), { r with pending := [] })
  else
    match run (buf.length + 1) r buf with
    | (.error e, r) => (.error e, r)
    | (.ok rest, r) => (.ok (), { r with pending := rest })

def feed (data : Bytes) : Except ProtoError Unit × UniReader :=
  let r := { r with pending := r.pending ++ data }
  match r.kind with
  | some _ => r.interpret r.pending
  | none =>
    match getVarint r.pending with
    | none => (.ok (), r)
    | some (kind, n) => { r with kind := some kind }.interpret (r.pending.drop n)

end UniReader

end Shb.Http3
