import Mathlib.Algebra.BigOperators.Group.Finset.Basic
import Mathlib.Algebra.BigOperators.Ring.Finset
import Mathlib.Data.Finset.Interval
import Mathlib.Order.Interval.Finset.Nat

/-!
# High-water marks

A record of reports, newest first: each says how far something under a key has got. The mark
of a key is the furthest any report says, and a report moves the sum of all marks by what it
adds to its own. Reports may come in any order, repeat and overlap.

The second half is about spans: the numbers that some span covers, as a finite set.
-/

namespace Shb.Lib

/-- The largest of a list, or zero. -/
def highest (l : List Nat) : Nat := l.foldr max 0

@[simp] theorem highest_nil : highest [] = 0 := rfl

@[simp] theorem highest_cons (n : Nat) (l : List Nat) : highest (n :: l) = max n (highest l) := rfl

theorem le_highest {l : List Nat} {n : Nat} (h : n ∈ l) : n ≤ highest l := by
  induction l with
  | nil => exact absurd h List.not_mem_nil
  | cons m l ih =>
    rcases List.mem_cons.mp h with rfl | h
    · exact Nat.le_max_left _ _
    · exact Nat.le_trans (ih h) (Nat.le_max_right _ _)

theorem highest_le {l : List Nat} {b : Nat} (h : ∀ n ∈ l, n ≤ b) : highest l ≤ b := by
  induction l with
  | nil => exact Nat.zero_le b
  | cons m l ih =>
    exact Nat.max_le.mpr ⟨h m List.mem_cons_self, ih fun n hn => h n (List.mem_cons_of_mem _ hn)⟩

theorem highest_mono {l l' : List Nat} (h : l ⊆ l') : highest l ≤ highest l' :=
  highest_le fun _ hn => le_highest (h hn)

/-! ## Marks by key -/

section Keys

variable {κ : Type} [DecidableEq κ]

/-- The reports under a key. -/
def reports (k : κ) (l : List (κ × Nat)) : List Nat :=
  l.filterMap fun r => if r.1 = k then some r.2 else none

def high (k : κ) (l : List (κ × Nat)) : Nat := highest (reports k l)

/-- The sum of the marks of every key that was reported. -/
def totalHigh (l : List (κ × Nat)) : Nat := ∑ k ∈ (l.map Prod.fst).toFinset, high k l

@[simp] theorem high_nil (k : κ) : high k ([] : List (κ × Nat)) = 0 := rfl

theorem high_cons_self (k : κ) (n : Nat) (l : List (κ × Nat)) :
    high k ((k, n) :: l) = max n (high k l) := by
  simp [high, reports]

theorem high_cons_of_ne {k k' : κ} (h : k' ≠ k) (n : Nat) (l : List (κ × Nat)) :
    high k ((k', n) :: l) = high k l := by
  simp [high, reports, h]

theorem le_high {k : κ} {n : Nat} {l : List (κ × Nat)} (h : (k, n) ∈ l) : n ≤ high k l :=
  le_highest (List.mem_filterMap.mpr ⟨(k, n), h, if_pos rfl⟩)

theorem high_mono {l l' : List (κ × Nat)} (h : l ⊆ l') (k : κ) : high k l ≤ high k l' := by
  refine highest_mono fun n hn => ?_
  obtain ⟨r, hr, hrn⟩ := List.mem_filterMap.mp hn
  exact List.mem_filterMap.mpr ⟨r, h hr, hrn⟩

theorem high_eq_zero {k : κ} {l : List (κ × Nat)} (h : k ∉ l.map Prod.fst) : high k l = 0 := by
  refine Nat.le_zero.mp (highest_le fun n hn => ?_)
  obtain ⟨r, hr, hrn⟩ := List.mem_filterMap.mp hn
  split at hrn
  · rename_i hk
    exact absurd (List.mem_map.mpr ⟨r, hr, hk⟩) h
  · exact absurd hrn (by simp)

theorem sum_bump {s : Finset κ} {f g : κ → Nat} {k : κ} {n : Nat} (hk : k ∈ s)
    (hself : g k = f k + n) (hother : ∀ j ∈ s, j ≠ k → g j = f j) :
    ∑ j ∈ s, g j = ∑ j ∈ s, f j + n := by
  have hg := Finset.add_sum_erase s g hk
  have hf := Finset.add_sum_erase s f hk
  have herase : ∑ j ∈ s.erase k, g j = ∑ j ∈ s.erase k, f j :=
    Finset.sum_congr rfl fun j hj => hother j (Finset.mem_of_mem_erase hj)
      (Finset.ne_of_mem_erase hj)
  omega

/-- A report adds what it is beyond the mark of its key. -/
theorem totalHigh_cons (k : κ) (n : Nat) (l : List (κ × Nat)) :
    totalHigh ((k, n) :: l) = totalHigh l + (n - high k l) := by
  have hself : high k ((k, n) :: l) = high k l + (n - high k l) := by
    rw [high_cons_self]
    omega
  have hother : ∀ j, j ≠ k → high j ((k, n) :: l) = high j l :=
    fun j hj => high_cons_of_ne (Ne.symm hj) n l
  unfold totalHigh
  rw [List.map_cons, List.toFinset_cons]
  by_cases hk : k ∈ (l.map Prod.fst).toFinset
  · rw [Finset.insert_eq_of_mem hk]
    exact sum_bump hk hself fun j _ => hother j
  · have hzero := high_eq_zero (l := l) fun h => hk (List.mem_toFinset.mpr h)
    rw [Finset.sum_insert hk, hself, hzero]
    have hrest : ∑ j ∈ (l.map Prod.fst).toFinset, high j ((k, n) :: l) =
        ∑ j ∈ (l.map Prod.fst).toFinset, high j l :=
      Finset.sum_congr rfl fun j hj => hother j fun h => hk (h ▸ hj)
    omega

end Keys

/-! ## Spans -/

/-- The numbers that some span `(start, length)` covers. -/
def covered (l : List (Nat × Nat)) : Finset Nat :=
  l.toFinset.biUnion fun r => Finset.Ico r.1 (r.1 + r.2)

@[simp] theorem covered_nil : covered [] = ∅ := rfl

theorem covered_cons (start len : Nat) (l : List (Nat × Nat)) :
    covered ((start, len) :: l) = Finset.Ico start (start + len) ∪ covered l := by
  simp [covered, List.toFinset_cons, Finset.biUnion_insert]

/-- A span that starts at or before a mark and is the first to pass it. -/
theorem covered_cons_range {start len m m' : Nat} {l : List (Nat × Nat)}
    (h : covered l = Finset.range m) (hle : m ≤ m') (hend : start + len ≤ m')
    (hfresh : ∀ x, m ≤ x → x < m' → start ≤ x ∧ x < start + len) :
    covered ((start, len) :: l) = Finset.range m' := by
  rw [covered_cons, h]
  ext x
  simp only [Finset.mem_union, Finset.mem_Ico, Finset.mem_range]
  constructor
  · rintro (⟨-, hx⟩ | hx) <;> omega
  · intro hx
    by_cases hm : x < m
    · exact Or.inr hm
    · exact Or.inl (hfresh x (Nat.not_lt.mp hm) hx)

end Shb.Lib
