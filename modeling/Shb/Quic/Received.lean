import Mathlib.Data.List.TakeWhile
import Shb.Lib.Run
import Shb.Lib.Spans
import Shb.Quic.Ack

/-!
# Each packet is processed at most once

`ReceivedPackets` remembers the numbers it accepted as at most 256 ranges and a floor below
which everything counts as seen. The model next to it keeps the accepted numbers themselves,
spells their runs out at every call, and when there are too many raises the floor past the
lowest one. Both answer every call alike, for any numbers in any order; that a number is
accepted once is then a matter of the set and the floor.
-/

namespace Shb.Quic

open Lib

namespace ReceivedPackets

/-- What every reachable history is. -/
structure Bounded (s : ReceivedPackets) : Prop where
  spaced : Spaced s.ranges
  short : s.ranges.length ≤ maxRanges
  floor : ∀ r ∈ s.ranges, s.minimum ≤ r.1

theorem Bounded.start : Bounded {} :=
  ⟨Spaced.nil, Nat.zero_le _, nofun⟩

/-! ## One call -/

/-- Where the binary search splits the ranges, the number is below everything in front. -/
theorem split_spec {l : List (Nat × Nat)} (pn : Nat) (h : Spaced l) :
    ∃ above below, l.takeWhile (fun r => decide (pn < r.1)) = above ∧
      l.dropWhile (fun r => decide (pn < r.1)) = below ∧ l = above ++ below ∧
      (∀ r ∈ above, pn < r.1 ∧ r.1 ≤ r.2) ∧ ∀ r, below.head? = some r → r.1 ≤ pn := by
  refine ⟨_, _, rfl, rfl, List.takeWhile_append_dropWhile.symm, fun r hr => ⟨?_, ?_⟩,
    fun r hr => ?_⟩
  · simpa using List.mem_takeWhile_imp hr
  · exact h.ordered r (List.takeWhile_subset _ hr)
  · have := List.head?_dropWhile_not (fun r : Nat × Nat => decide (pn < r.1)) l
    rw [hr] at this
    simpa using this

/-- Of the ranges that start at or below a number only the first can hold it. -/
theorem mem_split {above below : List (Nat × Nat)} {pn : Nat} (hs : Spaced (above ++ below))
    (habove : ∀ r ∈ above, pn < r.1 ∧ r.1 ≤ r.2) (hbelow : ∀ r, below.head? = some r → r.1 ≤ pn) :
    pn ∈ members (above ++ below) ↔ below.head?.any (fun r => decide (pn ≤ r.2)) = true := by
  have hnot : pn ∉ members above := by
    intro hmem
    obtain ⟨r, hr, hin⟩ := mem_members.mp hmem
    have := habove r hr
    omega
  rw [mem_members_append]
  cases below with
  | nil => simp [hnot]
  | cons r rest =>
    have hr := hbelow r rfl
    have hrest : pn ∉ members rest := by
      intro hmem
      have := (spaced_append.mp hs).2.1.lt_head hmem
      omega
    simp [hnot, hrest, hr]

/-- What `insert` makes of a number above the floor: known, or new, or new with the lowest run
pushed out, which may be the number itself. -/
def inserted (s : ReceivedPackets) (pn : Nat) : Bool × ReceivedPackets :=
  if pn ∈ members s.ranges then (false, s)
  else if (add pn s.ranges).length ≤ maxRanges then (true, { s with ranges := add pn s.ranges })
  else
    match (add pn s.ranges).getLast? with
    | some r => (decide (r.2 < pn), ⟨(add pn s.ranges).dropLast, r.2 + 1⟩)
    | none => (false, s)

section
variable {above below : List (Nat × Nat)} {pn minimum : Nat}
  (htake : (above ++ below).takeWhile (fun r => decide (pn < r.1)) = above)
  (hdrop : (above ++ below).dropWhile (fun r => decide (pn < r.1)) = below)
  (hshort : (above ++ below).length ≤ maxRanges)
  (hbelow : ∀ r ∈ below, r.1 ≤ pn ∧ r.2 < pn)
  (hpn : minimum ≤ pn) (hnew : pn ∉ members (above ++ below))
include htake hdrop hshort hbelow hpn hnew

/-- Nothing in front is next to the number. -/
theorem insert_apart (habove : ∀ r ∈ above, pn + 1 < r.1 ∧ r.1 ≤ r.2) :
    insert ⟨above ++ below, minimum⟩ pn = inserted ⟨above ++ below, minimum⟩ pn := by
  have hlast : above.getLast?.any (fun r => decide (r.1 = pn + 1)) = false := by
    cases hl : above.getLast? with
    | none => rfl
    | some r =>
      have := habove r (List.mem_of_getLast? hl)
      simp only [Option.any_some, decide_eq_false_iff_not]
      omega
  rw [insert, if_neg (by simp only; omega), inserted, if_neg hnew, add_append habove]
  simp only [htake, hdrop, hlast]
  cases below with
  | nil =>
    simp only [List.head?_nil, Option.any_none, Bool.false_eq_true, if_false, add, List.append_nil,
      List.length_append, List.length_singleton, List.getLast?_nil, List.getLast?_append,
      List.getLast?_singleton, Option.some_or, List.dropLast_concat, Nat.lt_irrefl, decide_false]
    simp only [List.append_nil] at hshort
    by_cases hfull : above.length = maxRanges
    · rw [if_pos hfull, if_neg (by omega)]
    · rw [if_neg hfull, if_pos (by omega)]
  | cons r rest =>
    obtain ⟨lo, hi⟩ := r
    obtain ⟨hlo, hhi⟩ := hbelow _ List.mem_cons_self
    have hhi' : ¬ pn ≤ hi := Nat.not_le.mpr hhi
    simp only [List.head?_cons, Option.any_some, add, hhi', decide_false, Bool.false_eq_true,
      if_false]
    by_cases hup : hi + 1 = pn
    · have hlen : (above ++ (lo, pn) :: rest).length ≤ maxRanges := by simpa using hshort
      simp only [hup, decide_true, Nat.lt_irrefl, if_false, if_true, hlen]
    · have hlt : hi + 1 < pn := by omega
      simp only [hup, decide_false, hlt, if_true, List.length_append, List.length_cons] at hshort ⊢
      by_cases hfull : above.length + (rest.length + 1) = maxRanges
      · rw [if_pos hfull, if_neg (by omega), List.getLast?_append_of_ne_nil _ (by simp),
          List.getLast?_cons_cons, List.dropLast_append_of_ne_nil (by simp),
            List.dropLast_cons_cons]
        cases hlow : ((lo, hi) :: rest).getLast? with
        | none => simp at hlow
        | some r =>
          have hr := (hbelow r (List.mem_of_getLast? hlow)).2
          simp only [hr, decide_true]
      · rw [if_neg hfull, if_pos (by omega)]

/-- The range in front is next to the number: it grows down, maybe to the next one. -/
theorem insert_touching {front : List (Nat × Nat)} {hi : Nat}
    (habove : above = front ++ [(pn + 1, hi)]) (hfront : ∀ r ∈ front, pn + 1 < r.1 ∧ r.1 ≤ r.2)
    (hhi : pn < hi) :
    insert ⟨above ++ below, minimum⟩ pn = inserted ⟨above ++ below, minimum⟩ pn := by
  have hadd : add pn (above ++ below) = front ++ add pn ((pn + 1, hi) :: below) := by
    rw [habove, List.append_assoc, add_append hfront]
    rfl
  have hlast : above.getLast? = some (pn + 1, hi) := by rw [habove, List.getLast?_concat]
  have hfrontEq : above.dropLast = front := by rw [habove, List.dropLast_concat]
  have h1 : ¬ hi + 1 < pn := by omega
  have h2 : ¬ hi + 1 = pn := by omega
  have h3 : ¬ pn + 1 ≤ pn := by omega
  rw [insert, if_neg (by simp only; omega), inserted, if_neg hnew, hadd]
  simp only [htake, hdrop, hlast, hfrontEq, Option.any_some, decide_true]
  rw [habove] at hshort
  simp only [List.length_append, List.length_singleton] at hshort
  cases below with
  | nil =>
    have hlen : (front ++ [(pn, hi)]).length ≤ maxRanges := by simpa using hshort
    simp only [List.head?_nil, Option.any_none, Bool.false_eq_true, if_false, add, h1, h2, h3,
      if_true, hlen]
  | cons r rest =>
    obtain ⟨lo', hi'⟩ := r
    obtain ⟨hlo, hhi'⟩ := hbelow _ List.mem_cons_self
    have hnle : ¬ pn ≤ hi' := Nat.not_le.mpr hhi'
    simp only [List.head?_cons, Option.any_some, hnle, decide_false, Bool.false_eq_true, if_false,
      add, h1, h2, h3, if_true]
    simp only [List.length_cons] at hshort
    by_cases hup : hi' + 1 = pn
    · have hlen : (front ++ (lo', hi) :: rest).length ≤ maxRanges := by
        simp only [List.length_append, List.length_cons]
        omega
      simp only [hup, decide_true, if_true, hlen]
    · have hlen : (front ++ (pn, hi) :: (lo', hi') :: rest).length ≤ maxRanges := by
        simp only [List.length_append, List.length_cons]
        omega
      simp only [hup, decide_false, if_false, hlen, if_true]
end

theorem insert_eq {s : ReceivedPackets} (h : s.Bounded) {pn : Nat} (hpn : s.minimum ≤ pn) :
    s.insert pn = s.inserted pn := by
  obtain ⟨ranges, minimum⟩ := s
  obtain ⟨hs, hshort, -⟩ := h
  simp only at hs hshort hpn
  obtain ⟨above, below, htake, hdrop, rfl, habove, hbelow⟩ := split_spec pn hs
  have hmem := mem_split hs habove hbelow
  by_cases hin : pn ∈ members (above ++ below)
  · rw [insert, if_neg (by simp only; omega), inserted, if_pos hin]
    simp only [htake, hdrop]
    rw [if_pos (hmem.mp hin)]
  have hbelow' : ∀ r ∈ below, r.1 ≤ pn ∧ r.2 < pn := by
    intro r hr
    have hle := hs.ordered r (List.mem_append_right _ hr)
    have hend : r.2 < pn := by
      cases below with
      | nil => exact absurd hr List.not_mem_nil
      | cons head rest =>
        have hhead := mt hmem.mpr hin
        simp only [List.head?_cons, Option.any_some, decide_eq_true_eq, Nat.not_le] at hhead
        have hmem' := (spaced_append.mp hs).2.1.le_head (x := r.2)
          (mem_members.mpr ⟨r, hr, hle, Nat.le_refl _⟩)
        omega
    exact ⟨by omega, hend⟩
  rcases List.eq_nil_or_concat above with hnil | ⟨front, last, hfront⟩
  · exact insert_apart htake hdrop hshort hbelow' hpn hin fun r hr =>
      absurd (hnil ▸ hr) List.not_mem_nil
  · obtain ⟨lo, hi⟩ := last
    have hlast := habove (lo, hi) (by simp [hfront])
    have hgap : ∀ r ∈ front, hi + 1 < r.1 := by
      intro r hr
      have hs' := (spaced_append.mp hs).1
      rw [hfront, List.concat_eq_append] at hs'
      exact (spaced_append.mp hs').2.2 r hr (lo, hi) (by simp)
    have hfront' : ∀ r ∈ front, pn + 1 < r.1 ∧ r.1 ≤ r.2 := by
      intro r hr
      have h1 := hgap r hr
      have h2 := (habove r (by simp [hfront, hr])).2
      exact ⟨by omega, h2⟩
    by_cases hlo : lo = pn + 1
    · subst hlo
      exact insert_touching htake hdrop hshort hbelow' hpn hin (by simpa using hfront)
        hfront' hlast.2
    · refine insert_apart htake hdrop hshort hbelow' hpn hin fun r hr => ?_
      rw [hfront, List.concat_eq_append] at hr
      rcases List.mem_append.mp hr with hr | hr
      · exact hfront' r hr
      · cases List.mem_singleton.mp hr
        exact ⟨by omega, hlast.2⟩

/-! ## The set model -/

end ReceivedPackets

/-- The accepted numbers themselves, and the floor. -/
structure SeenSet where
  seen : Finset Nat := ∅
  floor : Nat := 0

namespace SeenSet

/-- With more than 256 runs the floor rises past the lowest. -/
def raiseFloor (m : SeenSet) : SeenSet :=
  if (maximalRuns m.seen).length ≤ ReceivedPackets.maxRanges then m
  else
    match (maximalRuns m.seen).getLast? with
    | some lowest => ⟨m.seen.filter (lowest.2 + 1 ≤ ·), lowest.2 + 1⟩
    | none => m

def insert (m : SeenSet) (pn : Nat) : Bool × SeenSet :=
  let fresh := m.floor ≤ pn ∧ pn ∉ m.seen
  let after := (if m.floor ≤ pn then { m with seen := Insert.insert pn m.seen } else m).raiseFloor
  (decide (fresh ∧ after.floor ≤ pn), after)

/-- The history `s` stands for the set `m`. -/
structure Matches (m : SeenSet) (s : ReceivedPackets) : Prop where
  bounded : s.Bounded
  seen : m.seen = members s.ranges
  floor : m.floor = s.minimum

theorem Matches.start : Matches {} {} := ⟨ReceivedPackets.Bounded.start, rfl, rfl⟩

variable {n : Nat} {m : SeenSet}

theorem Matches.floor_le {s : ReceivedPackets} (h : m.Matches s) (hn : n ∈ m.seen) :
    m.floor ≤ n := by
  rw [h.seen] at hn
  obtain ⟨r, hr, hrn, -⟩ := mem_members.mp hn
  rw [h.floor]
  exact Nat.le_trans (h.bounded.floor r hr) hrn

theorem raiseFloor_of_short (h : (maximalRuns m.seen).length ≤ ReceivedPackets.maxRanges) :
    m.raiseFloor = m := by
  rw [raiseFloor, if_pos h]

/-- Whatever is in the set stays there or falls below the floor. -/
theorem mem_raiseFloor (hn : n ∈ m.seen) : n < m.raiseFloor.floor ∨ n ∈ m.raiseFloor.seen := by
  unfold raiseFloor
  split
  · exact Or.inr hn
  · split
    · rename_i lowest _
      by_cases hlt : n < lowest.2 + 1
      · exact Or.inl hlt
      · exact Or.inr (Finset.mem_filter.mpr ⟨hn, Nat.not_lt.mp hlt⟩)
    · exact Or.inr hn

theorem floor_le_raiseFloor (h : ∀ n ∈ m.seen, m.floor ≤ n) : m.floor ≤ m.raiseFloor.floor := by
  unfold raiseFloor
  split
  · exact Nat.le_refl _
  · split
    · rename_i lowest hlow
      have hmem := List.mem_of_getLast? hlow
      have hin : lowest.2 ∈ members (maximalRuns m.seen) :=
        mem_members.mpr ⟨lowest, hmem, (spaced_maximalRuns _).ordered _ hmem, Nat.le_refl _⟩
      rw [members_maximalRuns] at hin
      exact Nat.le_succ_of_le (h _ hin)
    · exact Nat.le_refl _

/-- A number the model does not take as new any more. -/
def Known (m : SeenSet) (n : Nat) : Prop := n < m.floor ∨ n ∈ m.seen

theorem insert_known (h : m.Known n) : (m.insert n).1 = false := by
  simp only [insert, decide_eq_false_iff_not]
  rintro ⟨⟨hfloor, hnew⟩, -⟩
  rcases h with hlt | hmem
  · omega
  · exact hnew hmem

theorem Known.insert (hfloor : ∀ x ∈ m.seen, m.floor ≤ x) (h : m.Known n) (pn : Nat) :
    (m.insert pn).2.Known n := by
  have hfloor' : ∀ x ∈ (if m.floor ≤ pn then { m with seen := Insert.insert pn m.seen }
    else m).seen,
      (if m.floor ≤ pn then { m with seen := Insert.insert pn m.seen } else m).floor ≤ x := by
    split
    · rename_i hpn
      intro x hx
      rcases Finset.mem_insert.mp hx with rfl | hx
      · exact hpn
      · exact hfloor x hx
    · exact hfloor
  rcases h with hlt | hmem
  · refine Or.inl (Nat.lt_of_lt_of_le hlt (Nat.le_trans ?_ (floor_le_raiseFloor hfloor')))
    split <;> exact Nat.le_refl _
  · refine mem_raiseFloor ?_
    split
    · exact Finset.mem_insert_of_mem hmem
    · exact hmem

theorem known_of_insert {pn : Nat} (h : (m.insert pn).1 = true) : (m.insert pn).2.Known pn := by
  simp only [insert, decide_eq_true_eq] at h
  refine mem_raiseFloor ?_
  rw [if_pos h.1.1]
  exact Finset.mem_insert_self _ _

/-! ## The history refines it -/

/-- One call: the same answer, and the history still stands for the set. -/
theorem Matches.insert {s : ReceivedPackets} (h : m.Matches s) (pn : Nat) :
    (s.insert pn).1 = (m.insert pn).1 ∧ (m.insert pn).2.Matches (s.insert pn).2 := by
  obtain ⟨seen, floor⟩ := m
  obtain ⟨ranges, minimum⟩ := s
  obtain ⟨hb, hseen, hfloor⟩ := h
  simp only at hseen hfloor
  subst hseen hfloor
  have hruns : maximalRuns (members ranges) = ranges := hb.spaced.maximalRuns_members
  have hadd : maximalRuns (Insert.insert pn (members ranges)) = add pn ranges :=
    hb.spaced.maximalRuns_insert pn
  have hbelow : ∀ r ∈ add pn ranges, floor ≤ pn → floor ≤ r.1 := by
    intro r hr hpn
    have hmem : r.1 ∈ members (add pn ranges) :=
      mem_members.mpr ⟨r, hr, Nat.le_refl _, hb.spaced.add.ordered r hr⟩
    rw [members_add hb.spaced] at hmem
    rcases Finset.mem_insert.mp hmem with heq | hmem
    · omega
    · obtain ⟨q, hq, hqr, -⟩ := mem_members.mp hmem
      exact Nat.le_trans (hb.floor q hq) hqr
  by_cases hpn : floor ≤ pn
  · rw [ReceivedPackets.insert_eq hb hpn]
    simp only [ReceivedPackets.inserted, SeenSet.insert, hpn, if_true, true_and]
    by_cases hin : pn ∈ members ranges
    · -- known: nothing changes
      have hsame : Insert.insert pn (members ranges) = members ranges := Finset.insert_eq_of_mem hin
      simp only [hin, if_true, hsame, not_true, false_and, decide_false, true_and]
      rw [raiseFloor_of_short (by simp only [hruns]; exact hb.short)]
      exact ⟨hb, rfl, rfl⟩
    simp only [hin, if_false, not_false_eq_true, true_and]
    by_cases hlen : (add pn ranges).length ≤ ReceivedPackets.maxRanges
    · rw [raiseFloor_of_short (by simp only [hadd]; exact hlen), if_pos hlen]
      simp only [hpn, decide_true, true_and]
      exact ⟨⟨hb.spaced.add, hlen, fun r hr => hbelow r hr hpn⟩, (members_add hb.spaced).symm, rfl⟩
    · -- one run too many: the lowest goes
      simp only [raiseFloor, hadd, if_neg hlen]
      rcases List.eq_nil_or_concat (add pn ranges) with hnil | ⟨kept, lowest, hkept⟩
      · rw [hnil] at hlen
        exact absurd (Nat.zero_le _) hlen
      rw [List.concat_eq_append] at hkept
      have hspaced : Spaced (kept ++ [lowest]) := hkept ▸ hb.spaced.add
      have hshort : kept.length ≤ ReceivedPackets.maxRanges := by
        have h1 := length_add_le pn ranges
        have h2 : ranges.length ≤ ReceivedPackets.maxRanges := hb.short
        rw [hkept, List.length_append, List.length_singleton] at h1
        omega
      simp only [hkept, List.getLast?_concat, List.dropLast_concat, Nat.succ_le_iff, true_and]
      refine ⟨⟨(spaced_append.mp hspaced).1, hshort, fun r hr => ?_⟩, ?_, rfl⟩
      · exact Nat.le_of_lt ((spaced_append.mp hspaced).2.2 r hr lowest (List.mem_singleton_self _))
      · simp only
        rw [← hspaced.filter_members_concat, ← hkept, members_add hb.spaced]
        rfl
  · -- below the floor
    have hlt : pn < floor := Nat.not_le.mp hpn
    simp only [ReceivedPackets.insert, hlt, if_true, SeenSet.insert, hpn, if_false, false_and,
      decide_false, true_and]
    rw [raiseFloor_of_short (by simp only [hruns]; exact hb.short)]
    exact ⟨hb, rfl, rfl⟩

end SeenSet

/-! ## Any numbers in any order -/

/-- Once known, a number is never answered with true again. -/
theorem not_mem_answers_of_known {n : Nat} :
    ∀ (pns : List Nat) {m m' : SeenSet} {s : ReceivedPackets}
    {verdicts : List Bool}, m.Matches s → m.Known n →
    answers (total SeenSet.insert) m pns = some (verdicts, m') → (n, true) ∉ pns.zip verdicts
  | [], _, _, _, _, _, _, _ => List.not_mem_nil
  | pn :: pns, m, _, s, _, h, hn, hrun => by
    intro hmem
    obtain ⟨rest, hrest, rfl⟩ := answers_total_cons hrun
    rcases List.mem_cons.mp hmem with heq | hmem
    · obtain ⟨rfl, htrue⟩ := Prod.mk.inj heq
      rw [SeenSet.insert_known hn] at htrue
      exact absurd htrue.symm (by decide)
    · exact not_mem_answers_of_known pns (h.insert pn).2
        (hn.insert (fun _ => h.floor_le) pn) hrest hmem

theorem count_answers_le_one {n : Nat} : ∀ (pns : List Nat) {m m' : SeenSet} {s : ReceivedPackets}
    {verdicts : List Bool}, m.Matches s → answers (total SeenSet.insert) m pns = some
      (verdicts, m') →
    (pns.zip verdicts).count (n, true) ≤ 1
  | [], _, _, _, _, _, _ => Nat.zero_le _
  | pn :: pns, m, _, s, _, h, hrun => by
    obtain ⟨rest, hrest, rfl⟩ := answers_total_cons hrun
    rw [List.zip_cons_cons]
    by_cases heq : (pn, (m.insert pn).1) = (n, true)
    · obtain ⟨rfl, htrue⟩ := Prod.mk.inj heq
      have hnone := not_mem_answers_of_known pns (h.insert pn).2
        (SeenSet.known_of_insert htrue) hrest
      rw [heq, List.count_cons_self, List.count_eq_zero_of_not_mem hnone]
    · rw [List.count_cons_of_ne heq]
      exact count_answers_le_one pns (h.insert pn).2 hrest

/-- For any packet numbers: every call of `insert` answers as the set with a floor does, no
number is answered with true twice, and the ranges are descending, apart, at or above the
floor and at most 256. -/
theorem received_packets_match_seen_set (pns : List Nat) :
    ∃ verdicts s m, answers (total ReceivedPackets.insert) {} pns = some (verdicts, s) ∧
      answers (total SeenSet.insert) {} pns = some (verdicts, m) ∧
      (∀ n, (pns.zip verdicts).count (n, true) ≤ 1) ∧ s.Bounded := by
  obtain ⟨verdicts, m, hm⟩ := answers_total SeenSet.insert pns {}
  obtain ⟨s, hs, hmatches⟩ := answers_simulation (f := total ReceivedPackets.insert)
    (R := fun s m => m.Matches s) (fun {s t pn r t'} h hstep => by
      obtain ⟨hanswer, hnext⟩ := h.insert pn
      cases hstep
      exact ⟨_, congrArg some (Prod.ext hanswer rfl), hnext⟩) SeenSet.Matches.start hm
  exact ⟨verdicts, s, m, hs, hm, fun n => count_answers_le_one pns SeenSet.Matches.start hm,
    hmatches.bounded⟩

end Shb.Quic
