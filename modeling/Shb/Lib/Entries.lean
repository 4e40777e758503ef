import Mathlib.Data.List.Basic

/-!
# Finite maps as lists of entries

A finite map from numbers, written as its entries in ascending order of the key. The
operations are the ones a map has, said on the list; two lists in order with the same members
are the same map.
-/

namespace Shb.Lib

variable {α : Type}

abbrev Entries (α : Type) := List (Nat × α)

namespace Entries

variable (m : Entries α)

def insert (key : Nat) (x : α) : Entries α :=
  m.filter (fun e => e.1 < key) ++ (key, x) :: m.filter fun e => key < e.1

def erase (key : Nat) : Entries α := m.filter fun e => e.1 ≠ key

def adjust (key : Nat) (f : α → α) : Entries α :=
  m.map fun e => if e.1 = key then (e.1, f e.2) else e

/-- The entries with a key up to `last`. -/
def upTo (last : Nat) : Entries α := m.filter fun e => e.1 ≤ last

/-- The entries beyond `last`. -/
def above (last : Nat) : Entries α := m.filter fun e => last < e.1

def values : List α := m.map Prod.snd

/-- In strictly ascending order of the keys. -/
def Ascending : Prop := m.Pairwise fun a b => a.1 < b.1

variable {m : Entries α}

theorem Ascending.filter (h : m.Ascending) (p : Nat × α → Bool) :
    Ascending (m.filter p) := List.Pairwise.filter p h

theorem Ascending.adjust (h : m.Ascending) (key : Nat) (f : α → α) :
    (m.adjust key f).Ascending := by
  have hfst : ∀ e : Nat × α, (if e.1 = key then (e.1, f e.2) else e).1 = e.1 := by
    intro e
    split <;> rfl
  refine List.pairwise_map.mpr (h.imp fun hab => ?_)
  rw [hfst, hfst]
  exact hab

variable {key : Nat} {x : α}

/-- A key has at most one entry, and looking it up finds it. -/
theorem Ascending.lookup_eq_some (h : m.Ascending) : m.lookup key = some x ↔ (key, x) ∈ m := by
  induction m with
  | nil => simp
  | cons e m ih =>
    obtain ⟨k, y⟩ := e
    obtain ⟨hlt, hm⟩ := List.pairwise_cons.mp h
    rw [List.lookup_cons, List.mem_cons, Prod.mk.injEq]
    by_cases hk : key = k
    · subst hk
      simp only [beq_self_eq_true, Option.some.injEq, true_and]
      refine ⟨fun hxy => Or.inl hxy.symm, fun hor => ?_⟩
      rcases hor with hxy | hmem
      · exact hxy.symm
      · exact absurd (hlt _ hmem) (Nat.lt_irrefl _)
    · rw [beq_eq_false_iff_ne.mpr hk]
      simp only [hk, false_and, false_or]
      exact ih hm

variable {n : Entries α}

/-- Two maps with the same entries are the same. -/
theorem Ascending.ext (hm : m.Ascending) (hn : n.Ascending)
    (h : ∀ key x, (key, x) ∈ m ↔ (key, x) ∈ n) : m = n := by
  induction m generalizing n with
  | nil =>
    cases n with
    | nil => rfl
    | cons e n => exact absurd ((h e.1 e.2).mpr List.mem_cons_self) List.not_mem_nil
  | cons e m ih =>
    obtain ⟨he, htail⟩ := List.pairwise_cons.mp hm
    cases n with
    | nil => exact absurd ((h e.1 e.2).mp List.mem_cons_self) List.not_mem_nil
    | cons d n =>
      obtain ⟨hd, htail'⟩ := List.pairwise_cons.mp hn
      -- Each head is in the other list, so neither key is below the other.
      have hed : e = d := by
        rcases List.mem_cons.mp ((h e.1 e.2).mp List.mem_cons_self) with hE | hE
        · exact hE
        · rcases List.mem_cons.mp ((h d.1 d.2).mpr List.mem_cons_self) with hD | hD
          · exact hD.symm
          · exact absurd (hd _ hE) (Nat.lt_asymm (he _ hD))
      subst hed
      refine congrArg (e :: ·) (ih htail htail' fun key x => ?_)
      refine ⟨fun hmem => ?_, fun hmem => ?_⟩
      · rcases List.mem_cons.mp ((h key x).mp (List.mem_cons_of_mem _ hmem)) with heq | hmem'
        · subst heq; exact absurd (he _ hmem) (Nat.lt_irrefl _)
        · exact hmem'
      · rcases List.mem_cons.mp ((h key x).mpr (List.mem_cons_of_mem _ hmem)) with heq | hmem'
        · subst heq; exact absurd (hd _ hmem) (Nat.lt_irrefl _)
        · exact hmem'

theorem mem_erase {k : Nat} : (k, x) ∈ m.erase key ↔ (k, x) ∈ m ∧ k ≠ key := by
  simp [erase]

theorem mem_adjust {k : Nat} {f : α → α} :
    (k, x) ∈ m.adjust key f ↔ ∃ y, (k, y) ∈ m ∧ x = if k = key then f y else y := by
  refine List.mem_map.trans ⟨?_, ?_⟩
  · rintro ⟨⟨j, y⟩, hy, he⟩
    refine ⟨y, ?_⟩
    by_cases hj : j = key
    · rw [if_pos hj, Prod.mk.injEq] at he
      obtain ⟨rfl, rfl⟩ := he
      exact ⟨hy, by rw [if_pos hj]⟩
    · rw [if_neg hj, Prod.mk.injEq] at he
      obtain ⟨rfl, rfl⟩ := he
      exact ⟨hy, by rw [if_neg hj]⟩
  · rintro ⟨y, hy, rfl⟩
    refine ⟨(k, y), hy, ?_⟩
    by_cases hk : k = key
    · simp only [if_pos hk]
    · simp only [if_neg hk]

/-- A key beyond all the others goes to the end. -/
theorem insert_of_lt (h : ∀ e ∈ m, e.1 < key) (x : α) : m.insert key x = m ++ [(key, x)] := by
  have hlow : m.filter (fun e => e.1 < key) = m :=
    List.filter_eq_self.mpr fun e he => decide_eq_true (h e he)
  have hhigh : m.filter (fun e => key < e.1) = [] :=
    List.filter_eq_nil_iff.mpr fun e he => by simp [Nat.le_of_lt (h e he)]
  rw [insert, hlow, hhigh]

/-- A boundary between two halves of a list sorts its entries. -/
theorem upTo_append {last : Nat} (hm : ∀ e ∈ m, e.1 ≤ last) (hn : ∀ e ∈ n, last < e.1) :
    upTo (m ++ n) last = m := by
  rw [upTo, List.filter_append, List.filter_eq_self.mpr fun e he => decide_eq_true (hm e he),
    List.filter_eq_nil_iff.mpr fun e he => by simp [hn e he], List.append_nil]

theorem above_append {last : Nat} (hm : ∀ e ∈ m, e.1 ≤ last) (hn : ∀ e ∈ n, last < e.1) :
    above (m ++ n) last = n := by
  rw [above, List.filter_append, List.filter_eq_nil_iff.mpr fun e he => by simp [hm e he],
    List.filter_eq_self.mpr fun e he => decide_eq_true (hn e he), List.nil_append]

end Entries

end Shb.Lib
