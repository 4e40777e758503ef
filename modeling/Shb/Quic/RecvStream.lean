import Shb.Lib.Bytes
import Mathlib.Data.List.Sort

/-!
# `quic/stream.rs` — the receiving half of a stream

Offsets are natural numbers: a frame that would end at `2^62` or beyond is refused before
anything is computed from it, so nothing here can wrap. A method that can fail returns its
result *and* the stream, as the source leaves it on either path.

`sort_unstable_by_key` may put early frames with the same offset in any order; the stable
order of `insertionSort` is one of them, and no proof below looks at it.
-/

namespace Shb.Quic

/-- A receive error that must be reported as a QUIC transport close. -/
inductive RecvError where
  | flowControl
  | streamLimit
  | finalSize
  | frameEncoding
  deriving DecidableEq, Repr

namespace RecvError

def code : RecvError → Nat
  | flowControl => 0x03
  | streamLimit => 0x04
  | finalSize => 0x06
  | frameEncoding => 0x07

end RecvError

/-- One end of a stream we read from. -/
structure RecvStream where
  /-- Contiguous data from `readOffset` that the application has not taken. -/
  ready : Bytes
  /-- Stream offset of the next byte the application will see. -/
  readOffset : Nat
  /-- Data that arrived early, sorted by offset. -/
  pending : List (Nat × Bytes)
  /-- Offset the stream ends at, once the peer says so. -/
  finalSize : Option Nat
  /-- Highest accepted end offset, including RESET final sizes and gaps. -/
  received : Nat
  /-- The most the peer may send on this stream, as last told. -/
  maxData : Nat
  deriving DecidableEq, Repr

namespace RecvStream

/-- `RecvStream::new`, and `with_buf` as well: a pooled buffer is cleared before use. -/
def new (window : Nat) : RecvStream :=
  { ready := [], readOffset := 0, pending := [], finalSize := none, received := 0,
    maxData := window }

variable (s : RecvStream)

def sizeKnown : Bool := s.finalSize.isSome

/-- Whether the peer is within half a window of the limit it was given. -/
def wantsCredit (window : Nat) : Bool :=
  !s.sizeKnown && decide (s.maxData ≤ s.readOffset + window / 2)

/-- Raise the limit to a window past what has been read, and say what it is now. -/
def grant (window : Nat) : Nat × RecvStream :=
  let maxData := max s.maxData (s.readOffset + window)
  (maxData, { s with maxData := maxData })

/-- How many bytes ending at `stop` are new, or why the frame cannot be taken. -/
def checkEnd (stop : Nat) (finalSize : Bool) (connectionCredit : Nat) : Except RecvError Nat :=
  if s.finalSize.any (fun size => size < stop || (finalSize && stop ≠ size)) ||
      (finalSize && stop < s.received) then
    .error .finalSize
  else
    let new := stop - s.received
    if s.maxData < stop ∨ connectionCredit < new then .error .flowControl else .ok new

/-- The loop of `drain_pending` over `pending`, with the buffer it appends to. -/
def drain (readOffset : Nat) (ready : Bytes) : List (Nat × Bytes) → Bytes × List (Nat × Bytes)
  | [] => (ready, [])
  | (offset, data) :: rest =>
    let head := readOffset + ready.length
    if head < offset then (ready, (offset, data) :: rest)
    else
      let skip := head - offset
      drain readOffset (if skip < data.length then ready ++ data.drop skip else ready) rest

/-- Move anything that has become contiguous out of `pending`. -/
def drainPending : RecvStream :=
  let (ready, pending) := drain s.readOffset s.ready s.pending
  { s with ready := ready, pending := pending }

/-- `sort_unstable_by_key` on the offset. -/
def sortPending (ps : List (Nat × Bytes)) : List (Nat × Bytes) :=
  ps.insertionSort fun a b => a.1 ≤ b.1

/-- Where the data of an accepted frame goes: onto `ready` if it touches it, into `pending`
if it is early. -/
def place (offset : Nat) (data : Bytes) : RecvStream :=
  if offset ≤ s.readOffset + s.ready.length then
    let skip := s.readOffset + s.ready.length - offset
    { s with
      ready := if skip < data.length then s.ready ++ data.drop skip else s.ready }.drainPending
  else if data ≠ [] then { s with pending := sortPending (s.pending ++ [(offset, data)]) }
  else s

/-- Take a STREAM frame. Both advertised limits are checked before any byte is copied. -/
def pushWithCredit (offset : Nat) (data : Bytes) (fin : Bool)
    (connectionCredit : Nat) : Except RecvError Nat × RecvStream :=
  let stop := offset + data.length
  if 2 ^ 62 ≤ stop then (.error .frameEncoding, s)
  else
    match s.checkEnd stop fin connectionCredit with
    | .error e => (.error e, s)
    | .ok new =>
      let s := if fin then { s with finalSize := some stop } else s
      (.ok new, { s with received := max s.received stop }.place offset data)

/-- `push`: CRYPTO data has no connection credit; `u64::MAX` bounds nothing below `2^62`. -/
def push (offset : Nat) (data : Bytes) (fin : Bool) : Except RecvError Nat × RecvStream :=
  s.pushWithCredit offset data fin (2 ^ 64 - 1)

/-- Show the application everything contiguous that is ready. Consumed only if `f` succeeds. -/
def consume {ε : Type} (f : Bytes → Except ε Unit) : Except ε Nat × RecvStream :=
  if s.ready.isEmpty then (.ok 0, s)
  else
    match f s.ready with
    | .error e => (.error e, s)
    | .ok () =>
      (.ok s.ready.length, { s with ready := [], readOffset := s.readOffset + s.ready.length })

theorem received_consume {ε : Type} {s s' : RecvStream} {f : Bytes → Except ε Unit}
    {r : Except ε Nat} (h : s.consume f = (r, s')) : s'.received = s.received := by
  unfold consume at h
  split at h
  · cases h
    rfl
  · split at h <;> cases h <;> rfl

def isFinished : Bool :=
  match s.finalSize with
  | some size => decide (size ≤ s.readOffset + s.ready.length)
  | none => false

def hasData : Bool := !s.ready.isEmpty

/-- RESET consumes the declared final size even when its data never arrived. -/
def reset (finalSize connectionCredit : Nat) : Except RecvError Nat × RecvStream :=
  match s.checkEnd finalSize true connectionCredit with
  | .error e => (.error e, s)
  | .ok new => (.ok new, { s with finalSize := some finalSize, received := finalSize })

end RecvStream
end Shb.Quic
