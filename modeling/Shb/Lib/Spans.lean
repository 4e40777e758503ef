import Mathlib.Data.Finset.Sort
import Mathlib.Order.Interval.Finset.Nat

/-!
# Finite sets of naturals as descending spans

A span is a pair `(smallest, largest)`, both ends included. A list of them, largest first,
with a gap of at least one number between neighbours, is the only such spelling of the set it
covers: `Spaced.unique`. So an algorithm on spans is right about sets exactly when it keeps
lists `Spaced` and gets the members right.

`maximalRuns` spells a set that way, number by number from the bottom, and `add` puts one
number into a list without spelling the set out.
-/

namespace Shb.Lib

/-- The numbers in some span. -/
def members : List (Nat × Nat) → Finset Nat
  | [] => ∅
  | r :: l => Finset.Icc r.1 r.2 ∪ members l

@[simp] theorem members_nil : members [] = ∅ := rfl

variable {l m : List (Nat × Nat)} {r : Nat × Nat} {x : Nat}

@[simp] theorem mem_members_cons : x ∈ members (r :: l) ↔ (r.1 ≤ x ∧ x ≤ r.2) ∨ x ∈ members l := by
  simp [members]

theorem mem_members : x ∈ members l ↔ ∃ r ∈ l, r.1 ≤ x ∧ x ≤ r.2 := by
  induction l with
  | nil => simp
  | cons r l ih => simp [ih]

theorem mem_members_append : x ∈ members (l ++ m) ↔ x ∈ members l ∨ x ∈ members m := by
  simp [mem_members, or_and_right, exists_or]

/-- Largest first, none empty, no two touching. -/
structure Spaced (l : List (Nat × Nat)) : Prop where
  ordered : ∀ r ∈ l, r.1 ≤ r.2
  apart : l.Pairwise fun a b => b.2 + 1 < a.1

theorem Spaced.nil : Spaced [] := ⟨nofun, List.Pairwise.nil⟩

theorem spaced_cons : Spaced (r :: l) ↔ r.1 ≤ r.2 ∧ (∀ s ∈ l, s.2 + 1 < r.1) ∧ Spaced l := by
  constructor
  · intro h
    obtain ⟨hr, hl⟩ := List.pairwise_cons.mp h.apart
    exact ⟨h.ordered r List.mem_cons_self, hr,
      fun s hs => h.ordered s (List.mem_cons_of_mem _ hs), hl⟩
  · rintro ⟨hr, hbelow, hl⟩
    refine ⟨fun s hs => ?_, List.pairwise_cons.mpr ⟨hbelow, hl.apart⟩⟩
    rcases List.mem_cons.mp hs with rfl | hs
    · exact hr
    · exact hl.ordered s hs

theorem spaced_append :
    Spaced (l ++ m) ↔ Spaced l ∧ Spaced m ∧ ∀ r ∈ l, ∀ s ∈ m, s.2 + 1 < r.1 := by
  constructor
  · intro h
    obtain ⟨hl, hm, hlm⟩ := List.pairwise_append.mp h.apart
    exact ⟨⟨fun r hr => h.ordered r (List.mem_append_left _ hr), hl⟩,
      ⟨fun r hr => h.ordered r (List.mem_append_right _ hr), hm⟩, hlm⟩
  · rintro ⟨hl, hm, hlm⟩
    refine ⟨fun r hr => ?_, List.pairwise_append.mpr ⟨hl.apart, hm.apart, hlm⟩⟩
    rcases List.mem_append.mp hr with hr | hr
    · exact hl.ordered r hr
    · exact hm.ordered r hr

theorem Spaced.sublist (h : Spaced m) (hs : l.Sublist m) : Spaced l :=
  ⟨fun r hr => h.ordered r (hs.subset hr), h.apart.sublist hs⟩

/-- What is below the first span is at least two below it. -/
theorem Spaced.lt_head (h : Spaced (r :: l)) (hx : x ∈ members l) : x + 1 < r.1 := by
  obtain ⟨s, hs, -, hxs⟩ := mem_members.mp hx
  have hlt := (spaced_cons.mp h).2.1 s hs
  omega

theorem Spaced.le_head (h : Spaced (r :: l)) (hx : x ∈ members (r :: l)) : x ≤ r.2 := by
  rcases mem_members_cons.mp hx with hx | hx
  · exact hx.2
  · have hlt := h.lt_head hx
    have hle := (spaced_cons.mp h).1
    omega

/-- The first span ends at the largest member and reaches down to where the members stop. -/
theorem Spaced.head_unique {s : Nat × Nat} (hl : Spaced (r :: l)) (hm : Spaced (s :: m))
    (h : members (r :: l) = members (s :: m)) : r.1 ≤ s.1 ∧ r.2 ≤ s.2 := by
  obtain ⟨hr, -, -⟩ := spaced_cons.mp hl
  obtain ⟨hs, -, -⟩ := spaced_cons.mp hm
  have htop : r.2 ≤ s.2 := hm.le_head (h ▸ mem_members_cons.mpr (Or.inl ⟨hr, Nat.le_refl _⟩))
  refine ⟨?_, htop⟩
  by_contra hlt
  -- the number just below `r` would be in `s`, but nothing of the other list is there
  have hmem : r.1 - 1 ∈ members (r :: l) := h.symm ▸ mem_members_cons.mpr
    (Or.inl ⟨by omega, by omega⟩)
  rcases mem_members_cons.mp hmem with hx | hx
  · omega
  · have := hl.lt_head hx
    omega

/-- A set has one spelling. -/
theorem Spaced.unique : ∀ {l m : List (Nat × Nat)}, Spaced l → Spaced m →
    members l = members m → l = m
  | [], [], _, _, _ => rfl
  | [], s :: m, _, hm, h => by
    have hs := (spaced_cons.mp hm).1
    have hmem : s.1 ∈ members (s :: m) := mem_members_cons.mpr (Or.inl ⟨Nat.le_refl _, hs⟩)
    rw [← h] at hmem
    exact absurd hmem (Finset.notMem_empty _)
  | r :: l, [], hl, _, h => by
    have hr := (spaced_cons.mp hl).1
    have hmem : r.1 ∈ members (r :: l) := mem_members_cons.mpr (Or.inl ⟨Nat.le_refl _, hr⟩)
    rw [h] at hmem
    exact absurd hmem (Finset.notMem_empty _)
  | r :: l, s :: m, hl, hm, h => by
    obtain ⟨h1, h2⟩ := hl.head_unique hm h
    obtain ⟨h3, h4⟩ := hm.head_unique hl h.symm
    have hrs : r = s := Prod.ext (Nat.le_antisymm h1 h3) (Nat.le_antisymm h2 h4)
    subst hrs
    have hrest : members l = members m := by
      ext x
      have hx := Finset.ext_iff.mp h x
      simp only [mem_members_cons] at hx
      constructor
      · intro hxl
        have := hl.lt_head hxl
        rcases hx.mp (Or.inr hxl) with hxr | hxm
        · omega
        · exact hxm
      · intro hxm
        have := hm.lt_head hxm
        rcases hx.mpr (Or.inr hxm) with hxr | hxl
        · omega
        · exact hxl
    rw [Spaced.unique (spaced_cons.mp hl).2.2 (spaced_cons.mp hm).2.2 hrest]

/-! ## Spelling a set out -/

/-- One number more, larger than any so far. -/
def extend (runs : List (Nat × Nat)) (n : Nat) : List (Nat × Nat) :=
  match runs with
  | (lo, hi) :: rest => if hi + 1 = n then (lo, n) :: rest else (n, n) :: (lo, hi) :: rest
  | [] => [(n, n)]

variable (s : Finset Nat)

/-- The maximal runs of consecutive members, largest first. -/
def maximalRuns : List (Nat × Nat) := (s.sort (· ≤ ·)).foldl extend []

theorem extend_spec {n : Nat} (h : Spaced l) (hn : ∀ x ∈ members l, x < n) :
    Spaced (extend l n) ∧ members (extend l n) = insert n (members l) := by
  cases l with
  | nil =>
    refine ⟨spaced_cons.mpr ⟨Nat.le_refl _, nofun, Spaced.nil⟩, ?_⟩
    ext x
    simp [extend, members]
  | cons r rest =>
    obtain ⟨lo, hi⟩ := r
    obtain ⟨hr, hbelow, hrest⟩ := spaced_cons.mp h
    have hhi := hn hi (mem_members_cons.mpr (Or.inl ⟨hr, Nat.le_refl _⟩))
    simp only [extend]
    split
    · rename_i heq
      refine ⟨spaced_cons.mpr ⟨by simp only at hr ⊢; omega, hbelow, hrest⟩, ?_⟩
      ext x
      simp only [mem_members_cons, Finset.mem_insert] at hr ⊢
      constructor
      · rintro (hx | hx)
        · by_cases hxn : x = n
          · exact Or.inl hxn
          · exact Or.inr (Or.inl ⟨hx.1, by omega⟩)
        · exact Or.inr (Or.inr hx)
      · rintro (rfl | hx | hx)
        · exact Or.inl ⟨by omega, Nat.le_refl _⟩
        · exact Or.inl ⟨hx.1, by omega⟩
        · exact Or.inr hx
    · rename_i hne
      refine ⟨spaced_cons.mpr ⟨Nat.le_refl _, fun s hs => ?_, h⟩, ?_⟩
      · rcases List.mem_cons.mp hs with rfl | hs
        · simp only
          omega
        · have := hbelow s hs
          omega
      · ext x
        simp only [mem_members_cons, Finset.mem_insert]
        constructor
        · rintro (hx | hx)
          · exact Or.inl (by omega)
          · exact Or.inr hx
        · rintro (rfl | hx)
          · exact Or.inl ⟨Nat.le_refl _, Nat.le_refl _⟩
          · exact Or.inr hx

theorem foldl_extend_spec : ∀ {ns : List Nat} {l : List (Nat × Nat)}, Spaced l →
    ns.Pairwise (· < ·) → (∀ n ∈ ns, ∀ x ∈ members l, x < n) →
    Spaced (ns.foldl extend l) ∧ ∀ x, x ∈ members (ns.foldl extend l) ↔ x ∈ members l ∨ x ∈ ns
  | [], l, h, _, _ => ⟨h, fun x => by simp⟩
  | n :: ns, l, h, hns, hlt => by
    obtain ⟨hn, hns⟩ := List.pairwise_cons.mp hns
    obtain ⟨hspaced, hmem⟩ := extend_spec h (hlt n List.mem_cons_self)
    have hlt' : ∀ m ∈ ns, ∀ x ∈ members (extend l n), x < m := by
      intro m hm x hx
      rw [hmem] at hx
      rcases Finset.mem_insert.mp hx with rfl | hx
      · exact hn m hm
      · exact hlt m (List.mem_cons_of_mem _ hm) x hx
    obtain ⟨h1, h2⟩ := foldl_extend_spec hspaced hns hlt'
    refine ⟨h1, fun x => ?_⟩
    rw [List.foldl_cons, h2, hmem]
    simp only [Finset.mem_insert, List.mem_cons]
    tauto

theorem spaced_maximalRuns : Spaced (maximalRuns s) :=
  (foldl_extend_spec Spaced.nil s.sortedLT_sort.pairwise fun _ _ _ hx => absurd hx (by simp)).1

theorem members_maximalRuns : members (maximalRuns s) = s := by
  ext x
  have h := (foldl_extend_spec Spaced.nil s.sortedLT_sort.pairwise
    fun _ _ _ hx => absurd hx (by simp)).2 x
  rw [maximalRuns, h]
  simp

/-- A spaced list is the spelling of its members. -/
theorem Spaced.maximalRuns_members (h : Spaced l) : maximalRuns (members l) = l :=
  (spaced_maximalRuns _).unique h (members_maximalRuns _)

/-- Everything above the lowest span is in another one. -/
theorem Spaced.filter_members_concat (h : Spaced (l ++ [r])) :
    (members (l ++ [r])).filter (r.2 + 1 ≤ ·) = members l := by
  obtain ⟨hl, -, hcross⟩ := spaced_append.mp h
  ext x
  simp only [Finset.mem_filter, mem_members_append]
  constructor
  · rintro ⟨hx | hx, hlt⟩
    · exact hx
    · obtain ⟨s, hs, -, hxs⟩ := mem_members.mp hx
      cases List.mem_singleton.mp hs
      omega
  · intro hx
    obtain ⟨s, hs, hxs, -⟩ := mem_members.mp hx
    have := hcross s hs r (List.mem_singleton_self r)
    exact ⟨Or.inl hx, by omega⟩

/-! ## Only the newest runs -/

/-- The lowest run goes, while there are more than `max`. -/
def dropLowest (max : Nat) (s : Finset Nat) : Finset Nat :=
  if max < (maximalRuns s).length then dropLowest max (members (maximalRuns s).dropLast) else s
termination_by (maximalRuns s).length
decreasing_by
  rw [((spaced_maximalRuns s).sublist (List.dropLast_sublist _)).maximalRuns_members,
    List.length_dropLast]
  omega

/-- What stays is the first `max` runs. -/
theorem maximalRuns_dropLowest (max : Nat) (s : Finset Nat) :
    maximalRuns (dropLowest max s) = (maximalRuns s).take max := by
  fun_induction dropLowest max s with
  | case1 s h ih =>
    have hspaced := (spaced_maximalRuns s).sublist (List.dropLast_sublist _)
    rw [ih, hspaced.maximalRuns_members, List.dropLast_eq_take, List.take_take]
    congr 1
    omega
  | case2 s h => rw [List.take_of_length_le (by omega)]

/-! ## One number more -/

/-- The list with `n` in it: a span of its own, or one grown by it, or two joined by it. -/
def add (n : Nat) : List (Nat × Nat) → List (Nat × Nat)
  | [] => [(n, n)]
  | (lo, hi) :: rest =>
    if hi + 1 < n then (n, n) :: (lo, hi) :: rest
    else if hi + 1 = n then (lo, n) :: rest
    else if lo ≤ n then (lo, hi) :: rest
    else if n + 1 = lo then
      match rest with
      | (lo', hi') :: below =>
        if hi' + 1 = n then (lo', hi) :: below else (n, hi) :: (lo', hi') :: below
      | [] => [(n, hi)]
    else (lo, hi) :: add n rest

theorem length_add_le (n : Nat) : ∀ l : List (Nat × Nat), (add n l).length ≤ l.length + 1
  | [] => Nat.le_refl _
  | (lo, hi) :: rest => by
    have ih := length_add_le n rest
    simp only [add]
    repeat' split
    all_goals simp only [List.length_cons, List.length_nil] at ih ⊢
    all_goals omega

/-- Spans wholly above `n`, and not next to it, are passed over. -/
theorem add_append {n : Nat} {below : List (Nat × Nat)} : ∀ {above : List (Nat × Nat)},
    (∀ r ∈ above, n + 1 < r.1 ∧ r.1 ≤ r.2) → add n (above ++ below) = above ++ add n below
  | [], _ => rfl
  | (lo, hi) :: above, h => by
    obtain ⟨h1, h2⟩ := h (lo, hi) List.mem_cons_self
    have ih : add n (above ++ below) = above ++ add n below :=
      add_append fun r hr => h r (List.mem_cons_of_mem _ hr)
    simp only [List.cons_append, add]
    rw [if_neg (by omega), if_neg (by omega), if_neg (by omega), if_neg (by omega), ih]

theorem members_add {n : Nat} : ∀ {l : List (Nat × Nat)}, Spaced l →
    members (add n l) = Insert.insert n (members l)
  | [], _ => by
    ext x
    simp [add, members]
  | (lo, hi) :: rest, h => by
    obtain ⟨hle, hbelow, hrest⟩ := spaced_cons.mp h
    have ih := members_add (n := n) hrest
    ext x
    simp only [add]
    split
    · simp only [mem_members_cons, Finset.mem_insert]
      constructor
      · rintro (hx | hx)
        · exact Or.inl (by omega)
        · exact Or.inr hx
      · rintro (rfl | hx)
        · exact Or.inl ⟨Nat.le_refl _, Nat.le_refl _⟩
        · exact Or.inr hx
    split
    · simp only [mem_members_cons, Finset.mem_insert]
      by_cases hx : x ∈ members rest
      · simp [hx]
      · simp only [hx, or_false]
        omega
    split
    · have hn : n ∈ members ((lo, hi) :: rest) := mem_members_cons.mpr
        (Or.inl ⟨by assumption, by omega⟩)
      rw [Finset.insert_eq_of_mem hn]
    split
    · cases rest with
      | nil =>
        simp only [mem_members_cons, Finset.mem_insert, members_nil, Finset.notMem_empty, or_false]
        omega
      | cons r below =>
        obtain ⟨lo', hi'⟩ := r
        have hr := (spaced_cons.mp hrest).1
        have hlt := hbelow (lo', hi') List.mem_cons_self
        simp only at hr hlt ⊢
        split
        all_goals simp only [mem_members_cons, Finset.mem_insert]
        all_goals
          by_cases hx : x ∈ members below
          · simp [hx]
          · simp only [hx, or_false]
            omega
    · simp only [mem_members_cons, Finset.mem_insert, ih]
      tauto

theorem Spaced.add {n : Nat} : ∀ {l : List (Nat × Nat)}, Spaced l → Spaced (add n l)
  | [], _ => spaced_cons.mpr ⟨Nat.le_refl _, nofun, Spaced.nil⟩
  | (lo, hi) :: rest, h => by
    obtain ⟨hle, hbelow, hrest⟩ := spaced_cons.mp h
    have ih := Spaced.add (n := n) hrest
    simp only [Lib.add]
    split
    · refine spaced_cons.mpr ⟨Nat.le_refl _, fun s hs => ?_, h⟩
      rcases List.mem_cons.mp hs with rfl | hs
      · assumption
      · have := hbelow s hs
        omega
    split
    · exact spaced_cons.mpr ⟨by simp only; omega, hbelow, hrest⟩
    split
    · exact h
    split
    · cases rest with
      | nil =>
        exact spaced_cons.mpr ⟨by simp only; omega, nofun, hrest⟩
      | cons r below =>
        obtain ⟨lo', hi'⟩ := r
        obtain ⟨hr, hbelow', hrest'⟩ := spaced_cons.mp hrest
        have hlt := hbelow (lo', hi') List.mem_cons_self
        simp only at hr hlt hbelow' ⊢
        split
        · exact spaced_cons.mpr ⟨by simp only; omega, hbelow', hrest'⟩
        · refine spaced_cons.mpr ⟨by simp only; omega, fun s hs => ?_, hrest⟩
          rcases List.mem_cons.mp hs with rfl | hs
          · simp only
            omega
          · have := hbelow' s hs
            omega
    · refine spaced_cons.mpr ⟨hle, fun s hs => ?_, ih⟩
      -- its upper end is a member, so it is `n` or was one before
      have hmem : s.2 ∈ members (Lib.add n rest) :=
        mem_members.mpr ⟨s, hs, ih.ordered s hs, Nat.le_refl _⟩
      rw [members_add hrest] at hmem
      rcases Finset.mem_insert.mp hmem with heq | hmem
      · simp only
        omega
      · exact h.lt_head hmem

/-- Spelling the set with one number more is adding the number to its spelling. -/
theorem Spaced.maximalRuns_insert (h : Spaced l) (n : Nat) :
    maximalRuns (Insert.insert n (members l)) = Lib.add n l := by
  rw [← members_add h, h.add.maximalRuns_members]

end Shb.Lib
