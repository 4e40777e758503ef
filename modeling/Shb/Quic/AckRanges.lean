import Shb.Lib.Spans
import Shb.Quic.Ack
import Shb.Quic.Frame

/-!
# The acknowledgement ranges are a bounded set, and survive the wire

`AckState` keeps what it received as at most 32 ranges. Here that list is compared with the
set it stands for: every number recorded goes in, and while the set has more than 32 runs its
lowest one goes. Insertion is one pass with six ways out (`place`); on a spaced list they are
the ways a number can lie next to the spans there are (`Lib.add`), so the list stays the
spelling of the set.

The gaps `put_ack` writes are differences that a spaced list keeps nonnegative, and
`AckRanges` subtracts them again.
-/

namespace Shb.Quic

open Lib

namespace AckState

/-! ## The insertion loop -/

/-- Passing over `above`, the loop puts the number where it belongs among the rest, and a list
too long by that loses its end; off the end, the number is a new oldest span. -/
theorem place_eq (pn : Nat) : ∀ (rest above : List (Nat × Nat)), Spaced (above ++ rest) →
    (above ++ rest).length ≤ maxRanges → (∀ r ∈ above, pn + 1 < r.1) →
    (∀ ranges, place pn above rest = some ranges →
      ranges = (above ++ add pn rest).take maxRanges) ∧
    (place pn above rest = none → above ++ add pn rest = (above ++ rest) ++ [(pn, pn)])
  | [], above, _, _, _ => by simp [place, add]
  | (smallest, largest) :: rest, above, hs, hlen, habove => by
    obtain ⟨-, hrest, hcross⟩ := spaced_append.mp hs
    obtain ⟨hle, hbelow, -⟩ := spaced_cons.mp hrest
    have ih := place_eq pn rest (above ++ [(smallest, largest)])
      (by rwa [List.append_assoc]) (by rwa [List.append_assoc])
    simp only [List.length_append, List.length_cons] at hlen
    simp only [place, add]
    split
    · -- inside
      rename_i hin
      rw [if_neg (by omega), if_neg (by omega), if_pos hin.1]
      refine ⟨fun ranges h => ?_, fun h => absurd h (by simp)⟩
      cases h
      simpa using hlen
    split
    · -- one above; the range above is not next to it, or the loop had stopped there
      rename_i hup
      rw [if_neg (by omega), if_pos hup.symm]
      have hup' : place pn above ((smallest, largest) :: rest)
          = some (above ++ (smallest, pn) :: rest) := by
        simp only [place]
        rw [if_neg (by omega), if_pos hup]
        cases hlast : above.getLast? with
        | none => rw [List.getLast?_eq_none_iff.mp hlast, List.nil_append]
        | some r =>
          have := habove r (List.mem_of_getLast? hlast)
          simp only
          rw [if_neg (by omega)]
      simp only [place] at hup'
      rw [if_neg (by omega), if_pos hup] at hup'
      rw [hup']
      refine ⟨fun ranges h => ?_, fun h => absurd h (by simp)⟩
      cases h
      simpa using hlen
    split
    · -- one below, and maybe one above the next
      rename_i hdown
      rw [if_neg (by omega), if_neg (by omega), if_neg (by omega), if_pos (by omega)]
      cases rest with
      | nil =>
        refine ⟨fun ranges h => ?_, fun h => absurd h (by simp)⟩
        cases h
        simpa using hlen
      | cons r below =>
        simp only
        split
        all_goals
          refine ⟨fun ranges h => ?_, fun h => absurd h (by simp)⟩
          cases h
          rw [List.take_of_length_le]
          simp only [List.length_append, List.length_cons] at hlen ⊢
          omega
    split
    · -- a span of its own in the middle: a full list loses its end
      rw [if_pos (show largest + 1 < pn by omega)]
      refine ⟨fun ranges h => ?_, fun h => absurd h (by simp)⟩
      cases h
      split
      · rename_i hfull
        rw [List.take_append, List.take_of_length_le (by omega), List.dropLast_eq_take]
        congr 1
        have hsub : maxRanges - above.length = rest.length + 1 := by omega
        rw [hsub]
        rfl
      · rw [List.take_of_length_le]
        simp only [List.length_append, List.length_cons]
        omega
    · rw [if_neg (by omega), if_neg (by omega), if_neg (by omega), if_neg (by omega)]
      have habove' : ∀ r ∈ above ++ [(smallest, largest)], pn + 1 < r.1 := by
        intro r hr
        rcases List.mem_append.mp hr with hr | hr
        · exact habove r hr
        · cases List.mem_singleton.mp hr
          omega
      simpa [List.append_assoc] using ih habove'

/-- The ranges are the spelling of a set of at most 32 runs. -/
structure Bounded (s : AckState) : Prop where
  spaced : Spaced s.ranges
  short : s.ranges.length ≤ maxRanges

theorem Bounded.start : Bounded {} := ⟨Spaced.nil, Nat.zero_le _⟩

theorem ranges_insert {s : AckState} (h : s.Bounded) (pn : Nat) :
    (s.insert pn).ranges = (add pn s.ranges).take maxRanges := by
  obtain ⟨hsome, hnone⟩ := place_eq pn s.ranges [] h.spaced h.short
    nofun
  simp only [List.nil_append] at hsome hnone
  unfold insert
  cases hplace : place pn [] s.ranges with
  | some ranges => exact hsome ranges hplace
  | none =>
    rw [hnone hplace]
    simp only
    split
    · rw [List.take_of_length_le]
      simp only [List.length_append, List.length_singleton]
      omega
    · have hshort := h.short
      rw [List.take_append_of_le_length (by omega), List.take_of_length_le (by omega)]

theorem ranges_record {s : AckState} (h : s.Bounded) (pn : Nat) (ackEliciting : Bool) (now : Nat) :
    (s.record pn ackEliciting now).ranges = (add pn s.ranges).take maxRanges := by
  unfold record
  simp only
  generalize ht : (if (if ackEliciting then { s with ackElicitingPending := true }
    else s).ranges.head?.all (fun r => r.2 < pn) then _ else _ : AckState) = t
  have hranges : t.ranges = s.ranges := by
    rw [← ht]
    repeat' split
    all_goals rfl
  rw [ranges_insert ⟨hranges ▸ h.spaced, hranges ▸ h.short⟩, hranges]

theorem Bounded.record {s : AckState} (h : s.Bounded) (pn : Nat) (ackEliciting : Bool) (now : Nat) :
    (s.record pn ackEliciting now).Bounded := by
  have hranges := ranges_record h pn ackEliciting now
  constructor
  · rw [hranges]
    exact h.spaced.add.sublist (List.take_sublist _ _)
  · rw [hranges, List.length_take]
    exact Nat.min_le_left _ _

/-! ## Any number of packets -/

/-- A call of `record`. -/
structure Arrival where
  pn : Nat
  ackEliciting : Bool
  now : Nat

def recordAll (s : AckState) (arrivals : List Arrival) : AckState :=
  arrivals.foldl (fun s a => s.record a.pn a.ackEliciting a.now) s

/-- The set model: each number goes in, then the lowest run goes while there are too many. -/
def modelAll (packets : Finset Nat) (arrivals : List Arrival) : Finset Nat :=
  arrivals.foldl (fun packets a => dropLowest maxRanges (Insert.insert a.pn packets)) packets

/-- One call keeps the ranges the spelling of the model's set. -/
theorem ranges_record_model {s : AckState} {packets : Finset Nat} (h : s.Bounded)
    (hr : s.ranges = maximalRuns packets) (a : Arrival) :
    (s.record a.pn a.ackEliciting a.now).ranges
      = maximalRuns (dropLowest maxRanges (Insert.insert a.pn packets)) := by
  have hpackets : members s.ranges = packets := by rw [hr, members_maximalRuns]
  rw [ranges_record h, maximalRuns_dropLowest, ← hpackets, h.spaced.maximalRuns_insert]

theorem recordAll_model : ∀ (arrivals : List Arrival) {s : AckState} {packets : Finset Nat},
    s.Bounded → s.ranges = maximalRuns packets →
    (s.recordAll arrivals).Bounded ∧
      (s.recordAll arrivals).ranges = maximalRuns (modelAll packets arrivals)
  | [], _, _, h, hr => ⟨h, hr⟩
  | a :: arrivals, s, packets, h, hr => by
    have hstep := ranges_record_model h hr a
    exact recordAll_model arrivals (h.record a.pn a.ackEliciting a.now) hstep

theorem mem_recordAll : ∀ (arrivals : List Arrival) {s : AckState} {n : Nat}, s.Bounded →
    n ∈ members (s.recordAll arrivals).ranges →
    n ∈ members s.ranges ∨ ∃ a ∈ arrivals, a.pn = n
  | [], _, _, _, hn => Or.inl hn
  | a :: arrivals, s, n, h, hn => by
    rcases mem_recordAll arrivals (h.record a.pn a.ackEliciting a.now) hn with hn | ⟨b, hb, hbn⟩
    · rw [ranges_record h] at hn
      obtain ⟨r, hr, hin⟩ := mem_members.mp hn
      have hadd := mem_members.mpr ⟨r, List.mem_of_mem_take hr, hin⟩
      rw [members_add h.spaced] at hadd
      rcases Finset.mem_insert.mp hadd with rfl | hadd
      · exact Or.inr ⟨a, List.mem_cons_self, rfl⟩
      · exact Or.inl hadd
    · exact Or.inr ⟨b, List.mem_cons_of_mem _ hb, hbn⟩

end AckState

/-! ## The wire -/

namespace Iter

theorem varint_putVarint {v : Nat} (h : v < 2 ^ 62) (rest : Bytes) :
    varint (putVarint v ++ rest) = .ok (v, rest) := by
  rw [varint, getVarint_putVarint h]
  simp

theorem varint_putVarint_mod (v : Nat) (rest : Bytes) :
    varint (putVarint v ++ rest) = .ok (v % 2 ^ 62, rest) := by
  rw [varint, getVarint_putVarint_mod]
  simp

/-- The pairs of an ACK are stepped over to its end. -/
theorem skipPairs_putAckRest (tail : Bytes) : ∀ (ranges : List (Nat × Nat)) (prevSmallest : Nat),
    prevSmallest < 2 ^ 62 → (∀ r ∈ ranges, r.1 ≤ r.2 ∧ r.2 < 2 ^ 62) →
    skipPairs ranges.length (putAckRest prevSmallest ranges ++ tail) = .ok tail
  | [], _, _, _ => rfl
  | (smallest, largest) :: rest, prevSmallest, hprev, hlt => by
    obtain ⟨hle, hl⟩ := hlt (smallest, largest) List.mem_cons_self
    have ih := skipPairs_putAckRest tail rest smallest
      (Nat.lt_of_le_of_lt hle hl) fun r hr => hlt r (List.mem_cons_of_mem _ hr)
    simp only [List.length_cons, putAckRest, skipPairs, List.append_assoc, bind, Except.bind]
    rw [varint_putVarint (by omega)]
    simp only
    rw [varint_putVarint (by simp only at hl; omega)]
    exact ih

/-- A whole ACK, read as one frame. -/
theorem nextFrame_putAck {smallest largest : Nat} (delay : Nat) {rest : List (Nat × Nat)}
    (hlt : ∀ r ∈ (smallest, largest) :: rest, r.1 ≤ r.2 ∧ r.2 < 2 ^ 62)
    (hlen : rest.length < 2 ^ 62) (tail : Bytes) :
    nextFrame (putVarint FrameType.ack ++ (putVarint largest ++ (putVarint delay ++
        (putVarint rest.length ++ (putVarint (largest - smallest) ++
          (putAckRest smallest rest ++ tail))))))
      = .ok (.ack largest (delay % 2 ^ 62) (largest - smallest) (putAckRest smallest rest)
          rest.length, tail) := by
  obtain ⟨hle, hl⟩ := hlt (smallest, largest) List.mem_cons_self
  have hskip := skipPairs_putAckRest tail rest smallest (by omega)
    fun r hr => hlt r (List.mem_cons_of_mem _ hr)
  simp only [nextFrame, bind, Except.bind]
  rw [varint_putVarint (by decide)]
  simp only
  rw [varint_putVarint hl]
  simp only
  rw [varint_putVarint_mod]
  simp only
  rw [varint_putVarint hlen]
  simp only
  rw [varint_putVarint (by omega)]
  simp only [hskip, List.length_append, Nat.add_sub_cancel, List.take_left]
  rfl

end Iter

/-- Each gap and length gives back the range it was written from. -/
theorem ackRangesFrom_putAckRest : ∀ (ranges : List (Nat × Nat)) (prevSmallest fuel : Nat),
    prevSmallest < 2 ^ 62 → Spaced ranges → (∀ r ∈ ranges, r.2 + 1 < prevSmallest) →
    (putAckRest prevSmallest ranges).length ≤ fuel →
    ackRangesFrom prevSmallest fuel (putAckRest prevSmallest ranges) = ranges
  | [], _, fuel, _, _, _, _ => by cases fuel <;> rfl
  | (smallest, largest) :: rest, prevSmallest, fuel, hprev, hs, hbelow, hfuel => by
    obtain ⟨hle, hbelow', hs'⟩ := spaced_cons.mp hs
    have hlt := hbelow (smallest, largest) List.mem_cons_self
    have hpos := putVarint_length_pos (prevSmallest - largest - 2)
    simp only [putAckRest, List.append_assoc, List.length_append] at hfuel
    cases fuel with
    | zero => omega
    | succ fuel =>
      have ih := ackRangesFrom_putAckRest rest smallest fuel
        (by omega) hs' hbelow' (by omega)
      have hlargest : prevSmallest - (prevSmallest - largest - 2 + 2) = largest := by omega
      have hsmallest : largest - (largest - smallest) = smallest := by omega
      simp only [putAckRest, List.append_assoc, ackRangesFrom]
      rw [getVarint_putVarint (by omega)]
      simp only [List.drop_left]
      rw [getVarint_putVarint (by omega)]
      simp only [hlargest, hsmallest]
      rw [if_neg (by omega), ← List.drop_drop, List.drop_left, List.drop_left, ih]

/-- What `put_ack` writes for a spaced list, with more behind it: a frame that names exactly
the ranges of the list, and the rest. -/
theorem nextFrame_of_putAck {ranges : List (Nat × Nat)} {delay : Nat} {bytes : Bytes}
    (hs : Spaced ranges) (hlen : ranges.length ≤ 2 ^ 62) (hlt : ∀ r ∈ ranges, r.2 < 2 ^ 62)
    (hput : putAck ranges delay = some bytes) (tail : Bytes) :
    bytes ≠ [] ∧ ∃ largest firstRange rest count,
      Iter.nextFrame (bytes ++ tail) =
        .ok (.ack largest (delay % 2 ^ 62) firstRange rest count, tail) ∧
      ackRanges largest firstRange rest = ranges := by
  cases ranges with
  | nil => cases hput
  | cons r rest =>
    obtain ⟨smallest, largest⟩ := r
    obtain ⟨hle, hbelow, hs'⟩ := spaced_cons.mp hs
    have hl := hlt (smallest, largest) List.mem_cons_self
    simp only [List.length_cons] at hle hbelow hl hlen
    simp only [putAck, List.length_cons, Nat.add_sub_cancel, Option.some.injEq,
      List.append_assoc] at hput
    refine ⟨fun hnil => ?_, largest, largest - smallest, putAckRest smallest rest,
      rest.length, ?_, ?_⟩
    · have hpos := putVarint_length_pos FrameType.ack
      rw [(List.append_eq_nil_iff.mp (hput.trans hnil)).1] at hpos
      exact absurd hpos (by simp)
    · rw [← hput]
      simp only [List.append_assoc]
      exact Iter.nextFrame_putAck delay (fun r hr => ⟨hs.ordered r hr, hlt r hr⟩) (by omega) tail
    · rw [ackRanges, if_neg (by omega), Nat.sub_sub_self hle,
        ackRangesFrom_putAckRest _ _ _ (by omega) hs' hbelow (Nat.le_refl _)]

theorem frames_of_nextFrame {bytes rest : Bytes} {f : Frame} (hne : bytes ≠ [])
    (h : Iter.nextFrame bytes = .ok (f, rest)) :
    frames bytes = .ok f :: Iter.walk (bytes.length - 1) rest := by
  cases bytes with
  | nil => exact absurd rfl hne
  | cons b bytes =>
    simp only [frames, List.length_cons, Iter.walk, h, Nat.add_sub_cancel]

/-- What `put_ack` writes for a spaced list is one frame, with the same delay, that names
exactly the ranges of the list. -/
theorem frames_putAck {ranges : List (Nat × Nat)} {delay : Nat} (hs : Spaced ranges)
    (hne : ranges ≠ []) (hlen : ranges.length ≤ 2 ^ 62) (hlt : ∀ r ∈ ranges, r.2 < 2 ^ 62)
    (hdelay : delay < 2 ^ 62) :
    ∃ bytes largest firstRange rest count, putAck ranges delay = some bytes ∧
      frames bytes = [.ok (.ack largest delay firstRange rest count)] ∧
      ackRanges largest firstRange rest = ranges := by
  obtain ⟨bytes, hput⟩ : ∃ bytes, putAck ranges delay = some bytes := by
    cases ranges with
    | nil => exact absurd rfl hne
    | cons r rest => exact ⟨_, rfl⟩
  obtain ⟨hbytes, largest, firstRange, rest, count, hnext, hranges⟩ :=
    nextFrame_of_putAck hs hlen hlt hput []
  rw [List.append_nil, Nat.mod_eq_of_lt hdelay] at hnext
  refine ⟨bytes, largest, firstRange, rest, count, hput, ?_, hranges⟩
  rw [frames_of_nextFrame hbytes hnext]
  cases bytes.length - 1 <;> rfl

/-! ## Together -/

open AckState in
/-- After any calls of `record` the ranges are the maximal runs, largest first, of the set that
takes each number in and then drops its lowest run while it has more than 32; and an ACK
written from them reads back as one frame with those ranges and the delay it was given.
Numbers and delay are what a varint can carry: packet numbers end at `2 ^ 62 - 1`. -/
theorem ack_ranges_are_model_runs (arrivals : List Arrival) :
    (recordAll {} arrivals).ranges = maximalRuns (modelAll ∅ arrivals) ∧
    ∀ delay, (∀ a ∈ arrivals, a.pn < 2 ^ 62) → delay < 2 ^ 62 →
      (recordAll {} arrivals).ranges ≠ [] →
      ∃ bytes largest firstRange rest count,
        putAck (recordAll {} arrivals).ranges delay = some bytes ∧
        frames bytes = [.ok (.ack largest delay firstRange rest count)] ∧
        ackRanges largest firstRange rest = (recordAll {} arrivals).ranges := by
  obtain ⟨hbounded, hmodel⟩ := recordAll_model arrivals Bounded.start
    Spaced.nil.maximalRuns_members.symm
  refine ⟨hmodel, fun delay hpn hdelay hne => ?_⟩
  have hshort : (recordAll {} arrivals).ranges.length ≤ 2 ^ 62 :=
    Nat.le_trans hbounded.short (by decide)
  refine frames_putAck hbounded.spaced hne hshort (fun r hr => ?_) hdelay
  have hmem : r.2 ∈ members (recordAll {} arrivals).ranges :=
    mem_members.mpr ⟨r, hr, hbounded.spaced.ordered r hr, Nat.le_refl _⟩
  rcases mem_recordAll arrivals Bounded.start hmem with hmem | ⟨a, ha, hpna⟩
  · exact absurd hmem (by simp)
  · exact hpna ▸ hpn a ha

/-- Packets 3, 7, 5 and 4, in that order, reach the peer as the ranges 7 and 3 to 5. -/
theorem ack_ranges_are_model_runs_reordered :
    ∃ bytes largest firstRange rest count, putAck [(7, 7), (3, 5)] 9 = some bytes ∧
      frames bytes = [.ok (.ack largest 9 firstRange rest count)] ∧
      ackRanges largest firstRange rest = [(7, 7), (3, 5)] :=
  (ack_ranges_are_model_runs [⟨3, true, 0⟩, ⟨7, true, 1⟩, ⟨5, false, 2⟩, ⟨4, true, 3⟩]).2 9
    (by simp) (by decide) (by decide)

end Shb.Quic
