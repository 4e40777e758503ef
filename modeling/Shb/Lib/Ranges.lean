import Mathlib.Data.List.Sort

/-!
# Lists of half-open ranges

A retransmission queue, a set of acknowledged runs, a set of frames in flight: each is a
list of pairs `(lo, hi)`, and what matters about it is the set of offsets it covers. The
lists are allowed to overlap and to be in any order, so the facts below are about `Covers`
and never about the list's shape. The one shape that does recur — sorted, disjoint and not
even touching — is `Runs`, the form in which a *set* of offsets has only one spelling.
-/

namespace Shb.Lib

/-- The offset lies in one of the ranges. -/
def Covers (rs : List (Nat × Nat)) (x : Nat) : Prop :=
  ∃ r ∈ rs, r.1 ≤ x ∧ x < r.2

@[simp] theorem covers_nil (x : Nat) : ¬ Covers [] x := by
  rintro ⟨r, hr, -⟩
  exact absurd hr (by simp)

variable {rs as bs : List (Nat × Nat)} {x floor : Nat}

@[simp] theorem covers_cons {r : Nat × Nat} :
    Covers (r :: rs) x ↔ (r.1 ≤ x ∧ x < r.2) ∨ Covers rs x := by
  simp [Covers]

@[simp] theorem covers_append : Covers (as ++ bs) x ↔ Covers as x ∨ Covers bs x := by
  simp [Covers, or_and_right, exists_or]

/-- Order is irrelevant to what a list of ranges covers. -/
theorem covers_perm (h : as.Perm bs) (x : Nat) : Covers as x ↔ Covers bs x := by
  constructor
  · rintro ⟨r, hr, hx⟩; exact ⟨r, h.subset hr, hx⟩
  · rintro ⟨r, hr, hx⟩; exact ⟨r, h.symm.subset hr, hx⟩

theorem covers_flatMap {f : Nat × Nat → List (Nat × Nat)} :
    Covers (rs.flatMap f) x ↔ ∃ r ∈ rs, Covers (f r) x := by
  constructor
  · rintro ⟨p, hp, hx⟩
    obtain ⟨r, hr, hpr⟩ := List.mem_flatMap.mp hp
    exact ⟨r, hr, p, hpr, hx⟩
  · rintro ⟨r, hr, p, hpr, hx⟩
    exact ⟨p, List.mem_flatMap.mpr ⟨r, hr, hpr⟩, hx⟩

/-! ## Sorted, disjoint, non-touching runs above a floor -/

/-- Every run starts strictly above `floor`, is nonempty, and ends strictly before the next
one starts. -/
def Runs (floor : Nat) : List (Nat × Nat) → Prop
  | [] => True
  | (lo, hi) :: rest => floor < lo ∧ lo < hi ∧ Runs hi rest

theorem Runs.mono {floor' : Nat} (hle : floor' ≤ floor) :
    ∀ {rs : List (Nat × Nat)}, Runs floor rs → Runs floor' rs
  | [], _ => trivial
  | (_, _) :: _, h => ⟨Nat.lt_of_le_of_lt hle h.1, h.2.1, h.2.2⟩

/-- No run of the list reaches down to the floor. -/
theorem Runs.lt_of_covers {floor x : Nat} :
    ∀ {rs : List (Nat × Nat)}, Runs floor rs → Covers rs x → floor < x
  | [], _, h => absurd h (covers_nil x)
  | (lo, hi) :: rest, hr, h => by
    rcases covers_cons.mp h with hx | hx
    · exact Nat.lt_of_lt_of_le hr.1 hx.1
    · have := hr.2.2.lt_of_covers hx
      have h1 := hr.1
      have h2 := hr.2.1
      omega

theorem Runs.mem_lt {floor : Nat} : ∀ {rs : List (Nat × Nat)}, Runs floor rs →
    ∀ r ∈ rs, floor < r.1 ∧ r.1 < r.2
  | [], _, r, hr => absurd hr (by simp)
  | (lo, hi) :: rest, h, r, hr => by
    rcases List.mem_cons.mp hr with rfl | hr
    · exact ⟨h.1, h.2.1⟩
    · obtain ⟨h1, h2⟩ := h.2.2.mem_lt r hr
      exact ⟨Nat.lt_trans (Nat.lt_trans h.1 h.2.1) h1, h2⟩

/-- Where the last run ends, or the floor when there is none. -/
def lastHi (floor : Nat) (rs : List (Nat × Nat)) : Nat :=
  rs.foldl (fun _ r => r.2) floor

theorem runs_append : Runs floor (as ++ bs) ↔ Runs floor as ∧ Runs (lastHi floor as) bs := by
  induction as generalizing floor with
  | nil => simp [Runs, lastHi]
  | cons r rest ih =>
    simp only [List.cons_append, Runs, ih, and_assoc]
    exact Iff.rfl

theorem le_lastHi : ∀ {floor : Nat} {rs : List (Nat × Nat)}, Runs floor rs →
    floor ≤ lastHi floor rs
  | _, [], _ => Nat.le_refl _
  | _, (_, _) :: _, h => Nat.le_trans (Nat.le_of_lt (Nat.lt_trans h.1 h.2.1)) (le_lastHi h.2.2)

/-- A bound on the floor and on every run's end bounds the last end. -/
theorem lastHi_lt {b : Nat} (hf : floor < b) (h : ∀ r ∈ rs, r.2 < b) : lastHi floor rs < b := by
  induction rs generalizing floor with
  | nil => exact hf
  | cons r rest ih =>
    exact ih (h r (by simp)) fun r' hr' => h r' (by simp [hr'])

end Shb.Lib
