import Mathlib.Algebra.Ring.Nat
import Mathlib.Tactic.Common

/-!
# `quic/ack.rs`, `quic/received.rs` — what has been received

`AckState` is what to acknowledge, `ReceivedPackets` what not to process twice. Both are
ranges of packet numbers, largest first. Time is a natural number of nanoseconds.
-/

namespace Shb.Quic

/-- Received packet numbers, kept as ranges largest first. -/
structure AckState where
  /-- (smallest, largest), descending and never touching. -/
  ranges : List (Nat × Nat) := []
  /-- Set when something arrived that the peer wants acknowledged. -/
  ackElicitingPending : Bool := false
  /-- When the largest packet number was received. -/
  largestReceivedAt : Option Nat := none
  deriving DecidableEq, Repr

namespace AckState

def maxRanges : Nat := 32

/-- The loop of `insert`: `above` are the ranges already passed. `none` if the number belongs
below every range. -/
def place (pn : Nat) : List (Nat × Nat) → List (Nat × Nat) → Option (List (Nat × Nat))
  | _, [] => none
  | above, (smallest, largest) :: rest =>
    if smallest ≤ pn ∧ pn ≤ largest then some (above ++ (smallest, largest) :: rest)
    else if pn = largest + 1 then
      match above.getLast? with
      | some (lo, hi) =>
        -- it may now touch the range above
        if lo = pn + 1 then some (above.dropLast ++ (smallest, hi) :: rest)
        else some (above ++ (smallest, pn) :: rest)
      | none => some ((smallest, pn) :: rest)
    else if 0 < smallest ∧ pn = smallest - 1 then
      match rest with
      | (lo, hi) :: below =>
        if hi + 1 = pn then some (above ++ (lo, largest) :: below)
        else some (above ++ (pn, largest) :: rest)
      | [] => some (above ++ [(pn, largest)])
    else if largest < pn then
      -- a full list loses its oldest range first
      let kept :=
        if above.length + rest.length + 1 = maxRanges then ((smallest, largest) :: rest).dropLast
        else (smallest, largest) :: rest
      some (above ++ (pn, pn) :: kept)
    else place pn (above ++ [(smallest, largest)]) rest

variable (s : AckState)

def insert (pn : Nat) : AckState :=
  match place pn [] s.ranges with
  | some ranges => { s with ranges := ranges }
  | none => if s.ranges.length < maxRanges then { s with ranges := s.ranges ++ [(pn, pn)] } else s

def record (pn : Nat) (ackEliciting : Bool) (now : Nat) : AckState :=
  let s := if ackEliciting then { s with ackElicitingPending := true } else s
  let s :=
    if s.ranges.head?.all (fun r => r.2 < pn) then { s with largestReceivedAt := some now } else s
  s.insert pn

/-- Microseconds since the largest packet arrived, scaled. -/
def delay (now exponent : Nat) : Nat :=
  match s.largestReceivedAt with
  | none => 0
  | some at_ => (now - at_) / 1000 / 2 ^ exponent

/-- Drop ranges the peer has confirmed it knows about. -/
def trimBelow (largestAckedByPeer : Nat) : AckState :=
  { s with ranges := s.ranges.filter fun r => largestAckedByPeer < r.2 }

def takePending : AckState := { s with ackElicitingPending := false }

theorem place_ne_nil {pn : Nat} : ∀ {rest above ranges : List (Nat × Nat)},
    place pn above rest = some ranges → ranges ≠ []
  | [], _, _, h => by simp [place] at h
  | (smallest, largest) :: rest, above, ranges, h => by
    simp only [place] at h
    split at h
    · cases h; simp
    · split at h
      · split at h
        · split at h <;> cases h <;> simp
        · cases h; simp
      · split at h
        · split at h
          · split at h <;> cases h <;> simp
          · cases h; simp
        · split at h
          · cases h; simp
          · exact place_ne_nil h

/-- Recording a packet leaves something to acknowledge. -/
theorem record_ranges (pn : Nat) (ackEliciting : Bool) (now : Nat) :
    (s.record pn ackEliciting now).ranges ≠ [] := by
  unfold record
  simp only
  generalize hs : (if (if ackEliciting then { s with ackElicitingPending := true }
    else s).ranges.head?.all (fun r => r.2 < pn) then _ else _ : AckState) = t
  unfold insert
  split
  · rename_i h
    exact place_ne_nil h
  · split
    · simp
    · rename_i h
      intro hnil
      rw [hnil] at h
      exact h (by decide)

theorem mem_trimBelow {s : AckState} {n : Nat} {r : Nat × Nat} :
    r ∈ (s.trimBelow n).ranges ↔ r ∈ s.ranges ∧ n < r.2 := by
  simp [trimBelow]

end AckState

/-- Duplicate history, bounded, independent of what is acknowledged. -/
structure ReceivedPackets where
  /-- Inclusive ranges, largest first. -/
  ranges : List (Nat × Nat) := []
  /-- Everything below this counts as seen. -/
  minimum : Nat := 0
  deriving DecidableEq, Repr

namespace ReceivedPackets

def maxRanges : Nat := 256

/-- Record an authenticated packet; true only for a new number. -/
def insert (s : ReceivedPackets) (pn : Nat) : Bool × ReceivedPackets :=
  if pn < s.minimum then (false, s)
  else
    let above := s.ranges.takeWhile fun r => pn < r.1
    let below := s.ranges.dropWhile fun r => pn < r.1
    if below.head?.any fun r => pn ≤ r.2 then (false, s)
    else
      let touchesAbove := above.getLast?.any fun r => r.1 = pn + 1
      let touchesBelow := below.head?.any fun r => r.2 + 1 = pn
      match touchesAbove, touchesBelow, above.getLast?, below with
      | true, true, some (_, hi), (lo, _) :: rest =>
        (true, { s with ranges := above.dropLast ++ (lo, hi) :: rest })
      | true, _, some (_, hi), rest =>
        (true, { s with ranges := above.dropLast ++ (pn, hi) :: rest })
      | _, true, _, (lo, _) :: rest => (true, { s with ranges := above ++ (lo, pn) :: rest })
      | _, _, _, _ =>
        if s.ranges.length = maxRanges then
          match below.getLast? with
          | none => (false, { s with minimum := pn + 1 })
          | some (_, hi) =>
            (true, { ranges := above ++ (pn, pn) :: below.dropLast, minimum := hi + 1 })
        else (true, { s with ranges := above ++ (pn, pn) :: below })

end ReceivedPackets

end Shb.Quic
