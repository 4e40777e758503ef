import Shb.Lib.Bytes
import Mathlib.Data.List.Sort

/-!
# `quic/stream.rs` — the sending half of a stream

`SendStream` keeps one contiguous buffer: `buf[bufStart..]` is the live suffix, the byte at
its front sits at stream offset `baseOffset`, and the first `sent` bytes of it have been in
a packet at least once. `lost` holds ranges to send again, *relative to `baseOffset`*;
`acked` holds acknowledged runs beyond `baseOffset`, in *absolute* offsets. Offsets and
lengths are natural numbers here: every one of them is bounded by `limit`, which is a QUIC
varint, so no `u64` or `usize` operation of the source can wrap.

Methods that change the stream and return a value are pairs `(value, stream)`.
-/

namespace Shb.Quic

/-- One end of a stream we write to. -/
structure SendStream where
  /-- Written bytes; the live suffix starts at `bufStart`. -/
  buf : Bytes
  /-- Acknowledged prefix retained until an append can reclaim it cheaply. -/
  bufStart : Nat
  /-- Stream offset of `buf[bufStart]`. -/
  baseOffset : Nat
  /-- How much of the live suffix has been put into a packet at least once. -/
  sent : Nat
  /-- Ranges that need sending again, relative to `baseOffset`. -/
  lost : List (Nat × Nat)
  /-- Acknowledged runs beyond `baseOffset`, absolute. -/
  acked : List (Nat × Nat)
  /-- The peer's MAX_STREAM_DATA for this stream. -/
  limit : Nat
  fin : Bool
  finSent : Bool
  finAcked : Bool
  /-- The source's field `reset`; `reset` is the method here. -/
  wasReset : Bool
  resetAcked : Bool
  deriving DecidableEq, Repr

namespace SendStream

/-- `SendStream::new`, and `with_buf` as well: a pooled buffer is cleared before use. -/
def new (limit : Nat) : SendStream :=
  { buf := [], bufStart := 0, baseOffset := 0, sent := 0, lost := [], acked := [],
    limit := limit, fin := false, finSent := false, finAcked := false,
    wasReset := false, resetAcked := false }

variable (s : SendStream)

/-- `buf[buf_start..]` -/
def live : Bytes := s.buf.drop s.bufStart

/-- How many bytes flow control still allows. -/
def writable : Nat :=
  if s.wasReset then 0 else s.limit - (s.baseOffset + (s.buf.length - s.bufStart))

/-- The reclaiming move of `write`: `copy_within(buf_start.., 0)` and `truncate(live)`. -/
def compact : SendStream :=
  { s with buf := s.buf.drop s.bufStart, bufStart := 0 }

def write (data : Bytes) : Nat × SendStream :=
  let room := min s.writable data.length
  let live := s.buf.length - s.bufStart
  let s := if room ≠ 0 ∧ s.bufStart ≠ 0 ∧ live ≤ s.bufStart then s.compact else s
  (room, { s with buf := s.buf ++ data.take room })

def finish : SendStream := { s with fin := true }

def setLimit (limit : Nat) : SendStream :=
  { s with limit := max s.limit limit }

/-- Whether `nextSend` would produce anything. -/
def hasPending : Bool :=
  !s.wasReset &&
    (!s.lost.isEmpty || decide (s.sent < s.buf.length - s.bufStart) || (s.fin && !s.finSent))

/-- The next STREAM frame: offset, data and FIN. Retransmissions use packet room (`max`)
but no connection credit; only bytes never sent before are limited by `credit`. -/
def nextSend (max credit : Nat) : Option (Nat × Bytes × Bool) :=
  if s.wasReset then none
  else
    let buf := s.live
    match s.lost with
    | (start, stop) :: _ =>
      if max = 0 then none
      else
        let stop := start + min (stop - start) max
        some (s.baseOffset + start, (buf.drop start).take (stop - start), false)
    | [] =>
      let max := min max credit
      let stop := s.sent + min (buf.length - s.sent) max
      if s.sent < stop then
        some (s.baseOffset + s.sent, (buf.drop s.sent).take (stop - s.sent),
          s.fin && decide (stop = buf.length))
      else if s.fin ∧ ¬ s.finSent ∧ buf.length ≤ s.sent then
        some (s.baseOffset + buf.length, [], true)
      else none

/-- The first lost range that begins at `start` loses `len` bytes off its front; the other
ranges stay. -/
def resend (start len : Nat) : List (Nat × Nat) → List (Nat × Nat)
  | [] => []
  | (s, e) :: rest =>
    if s = start ∧ start < e then
      if e ≤ s + len then rest else (s + len, e) :: rest
    else (s, e) :: resend start len rest

variable (offset len : Nat)

/-- Record that `len` bytes from `offset` went into a packet, and say how many of them were
sent for the first time. -/
def onSent (fin : Bool) : Nat × SendStream :=
  let start := offset - s.baseOffset
  let (new, s) :=
    if s.lost.any (fun r => r.1 = start ∧ start < r.2) then
      (0, { s with lost := resend start len s.lost })
    else if 0 < len then
      let stop := start + len
      (stop - s.sent, { s with sent := max s.sent stop })
    else (0, s)
  (new, if fin then { s with finSent := true } else s)

/-- Everything has been put in a packet at least once, the FIN included. -/
def fullySent : Bool :=
  s.fin && s.finSent && decide (s.buf.length - s.bufStart ≤ s.sent)

/-- The peer has acknowledged everything, the FIN or the RESET_STREAM included. -/
def isSettled : Bool :=
  if s.wasReset then s.resetAcked
  else s.fin && s.finAcked && decide (s.bufStart = s.buf.length)

def onResetAcked : SendStream := { s with resetAcked := true }

/-- The loop of `on_acked` over the runs a new contiguous prefix has reached: the end it
grows to, and the runs beyond it. -/
def absorb (stop : Nat) : List (Nat × Nat) → Nat × List (Nat × Nat)
  | [] => (stop, [])
  | (lo, hi) :: rest =>
    if stop < lo then (stop, (lo, hi) :: rest) else absorb (max stop hi) rest

/-- The `while let` loop of `on_acked`: a sparse run `[start, stop)` swallows every run it
touches from the front of the list. -/
def joinRuns (start stop : Nat) : List (Nat × Nat) → (Nat × Nat) × List (Nat × Nat)
  | [] => ((start, stop), [])
  | (lo, hi) :: rest =>
    if stop < lo then ((start, stop), (lo, hi) :: rest)
    else joinRuns (min start lo) (max stop hi) rest

/-- What is left of one lost range once `[start, stop)` is acknowledged. -/
def clip (start stop : Nat) (r : Nat × Nat) : List (Nat × Nat) :=
  if r.2 ≤ start ∨ stop ≤ r.1 then [r]
  else if r.1 < start then
    if stop < r.2 then [(r.1, start), (stop, r.2)] else [(r.1, start)]
  else if stop < r.2 then [(stop, r.2)]
  else []

/-- `sort_unstable` on pairs: the lexicographic order, under which equal elements are the
same pair. -/
def sortRanges (rs : List (Nat × Nat)) : List (Nat × Nat) :=
  rs.insertionSort fun a b => a.1 < b.1 ∨ (a.1 = b.1 ∧ a.2 ≤ b.2)

def acknowledgeLost (start stop : Nat) : SendStream :=
  { s with lost := sortRanges (s.lost.flatMap (clip start stop)) }

/-- Release `drop` bytes of the live buffer and move every relative offset down by it. -/
def release (drop : Nat) : SendStream :=
  let bufStart := s.bufStart + drop
  let emptied := bufStart = s.buf.length
  { s with
    buf := if emptied then [] else s.buf
    bufStart := if emptied then 0 else bufStart
    baseOffset := s.baseOffset + drop
    sent := s.sent - drop
    lost := (s.lost.map fun r => (r.1 - drop, r.2 - drop)).filter fun r => r.1 < r.2 }

/-- Remember the acknowledged run and release any now-contiguous prefix. -/
def onAcked (fin : Bool) : SendStream :=
  if s.wasReset then s
  else
    let s := if fin then { s with finAcked := true, finSent := true } else s
    let stop := offset + len
    if len = 0 ∨ stop ≤ s.baseOffset then s
    else if offset ≤ s.baseOffset then
      let (stop, acked) := absorb stop s.acked
      let drop := min (stop - s.baseOffset) (s.buf.length - s.bufStart)
      { s with acked := acked }.release drop
    else
      let first := s.acked.takeWhile fun r => r.2 < offset
      let ((start, stop), rest) := joinRuns offset stop (s.acked.dropWhile fun r => r.2 < offset)
      { s with acked := first ++ (start, stop) :: rest }.acknowledgeLost
        (start - s.baseOffset) (stop - s.baseOffset)

/-- The loop of `on_lost`: the parts of `[start, stop)` between the acknowledged runs,
relative to `base`. -/
def lostPieces (base stop start : Nat) : List (Nat × Nat) → List (Nat × Nat)
  | [] => if start < stop then [(start - base, stop - base)] else []
  | (lo, hi) :: rest =>
    if stop ≤ lo then if start < stop then [(start - base, stop - base)] else []
    else if hi ≤ start then lostPieces base stop start rest
    else
      (if start < lo then [(start - base, lo - base)] else []) ++
        lostPieces base stop (max start hi) rest

/-- The packet carrying this run was declared lost. -/
def onLost (fin : Bool) : SendStream :=
  if s.wasReset then s
  else
    -- The FIN is not data: it is reconsidered even when every byte was acknowledged
    let s := if fin ∧ ¬ s.finAcked then { s with finSent := false } else s
    if offset + len ≤ s.baseOffset then s
    else
      let start := max offset s.baseOffset
      let stop := min (offset + len) (s.baseOffset + min s.sent (s.buf.length - s.bufStart))
      { s with lost := sortRanges (s.lost ++ lostPieces s.baseOffset stop start s.acked) }

/-- STOP_SENDING: drop the rest and say where the stream ends. -/
def reset : Nat × SendStream :=
  (s.baseOffset + s.sent,
    { s with wasReset := true, buf := [], bufStart := 0, lost := [], acked := [] })

end SendStream

end Shb.Quic
