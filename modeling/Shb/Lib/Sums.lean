import Mathlib.Algebra.Ring.Nat
import Mathlib.Algebra.BigOperators.Group.List.Basic

/-!
# Sums over a list of slots

A system of slots changes one slot at a time. `sumOf f l` adds `f` up over the slots; what
replacing one slot does to it is stated without subtraction, so that the totals stay natural
numbers.
-/

namespace Shb.Lib

variable {α : Type}

def sumOf (f : α → Nat) (l : List α) : Nat := (l.map f).sum

@[simp] theorem sumOf_nil (f : α → Nat) : sumOf f [] = 0 := rfl

@[simp] theorem sumOf_cons (f : α → Nat) (a : α) (l : List α) :
    sumOf f (a :: l) = f a + sumOf f l := by
  simp [sumOf]

@[simp] theorem sumOf_append (f : α → Nat) (l m : List α) :
    sumOf f (l ++ m) = sumOf f l + sumOf f m := by
  simp [sumOf]

variable {a : α} {i : Nat} {l : List α}

/-- Replacing one slot moves the total by the difference. -/
theorem sumOf_set (f : α → Nat) (h : l[i]? = some a) (b : α) :
    sumOf f (l.set i b) + f a = sumOf f l + f b := by
  induction l generalizing i with
  | nil => simp at h
  | cons c l ih =>
    cases i with
    | zero =>
      simp only [List.getElem?_cons_zero, Option.some.injEq] at h
      subst h
      simp only [List.set_cons_zero, sumOf_cons]
      omega
    | succ i =>
      have := ih (by simpa using h)
      simp only [List.set_cons_succ, sumOf_cons]
      omega

theorem le_sumOf (f : α → Nat) (h : a ∈ l) : f a ≤ sumOf f l := by
  induction l with
  | nil => exact absurd h List.not_mem_nil
  | cons b l ih =>
    rcases List.mem_cons.mp h with rfl | h
    · exact Nat.le_add_right _ _
    · exact Nat.le_trans (ih h) (Nat.le_add_left _ _)

theorem sumOf_le_sumOf {f g : α → Nat} (h : ∀ a ∈ l, f a ≤ g a) : sumOf f l ≤ sumOf g l := by
  induction l with
  | nil => exact Nat.le_refl _
  | cons a l ih =>
    exact Nat.add_le_add (h a List.mem_cons_self) (ih fun b hb => h b (List.mem_cons_of_mem _ hb))

theorem sumOf_add (f g : α → Nat) (l : List α) :
    sumOf (fun a => f a + g a) l = sumOf f l + sumOf g l := by
  induction l with
  | nil => rfl
  | cons a l ih =>
    simp only [sumOf_cons, ih]
    omega

theorem sumOf_mul (k : Nat) (f : α → Nat) (l : List α) :
    sumOf (fun a => k * f a) l = k * sumOf f l := by
  induction l with
  | nil => rfl
  | cons a l ih => rw [sumOf_cons, sumOf_cons, ih, Nat.mul_add]

theorem sumOf_map {β : Type} (f : β → Nat) (g : α → β) (l : List α) :
    sumOf f (l.map g) = sumOf (fun a => f (g a)) l := by
  simp [sumOf, Function.comp_def]

/-- Pieces that lie one behind another between two marks are together no longer than what is
between them. -/
theorem sumOf_le_of_apart (start len : α → Nat) {hi : Nat} : ∀ {l : List α} {lo : Nat}, lo ≤ hi →
    (∀ a ∈ l, lo ≤ start a ∧ start a + len a ≤ hi) →
    l.Pairwise (fun a b => start a + len a ≤ start b) → lo + sumOf len l ≤ hi
  | [], _, hlo, _, _ => hlo
  | a :: l, lo, _, hin, hapart => by
    obtain ⟨hfirst, hrest⟩ := List.pairwise_cons.mp hapart
    obtain ⟨hlow, hend⟩ := hin a List.mem_cons_self
    have ih := sumOf_le_of_apart start len hend
      (fun b hb => ⟨hfirst b hb, (hin b (List.mem_cons_of_mem _ hb)).2⟩) hrest
    rw [sumOf_cons]
    omega

theorem countP_eq_sumOf (p : α → Bool) (l : List α) :
    l.countP p = sumOf (fun a => (p a).toNat) l := by
  induction l with
  | nil => rfl
  | cons a l ih =>
    rw [List.countP_cons, sumOf_cons, ih]
    cases p a <;> simp [Nat.add_comm]

/-- A positive total has a positive slot. -/
theorem exists_pos_of_sumOf (f : α → Nat) (h : 0 < sumOf f l) : ∃ a ∈ l, 0 < f a := by
  induction l with
  | nil => exact absurd h (Nat.lt_irrefl 0)
  | cons a l ih =>
    by_cases ha : 0 < f a
    · exact ⟨a, List.mem_cons_self, ha⟩
    · rw [sumOf_cons] at h
      obtain ⟨b, hb, hpos⟩ := ih (by omega)
      exact ⟨b, List.mem_cons_of_mem _ hb, hpos⟩

theorem sumOf_eq_zero (f : α → Nat) (h : ∀ a ∈ l, f a = 0) : sumOf f l = 0 := by
  by_contra hne
  obtain ⟨a, ha, hpos⟩ := exists_pos_of_sumOf f (Nat.pos_of_ne_zero hne)
  exact absurd (h a ha) (by omega)

theorem eq_of_getElem?_set {b : α} (h : (l.set i a)[i]? = some b) : b = a := by
  rw [List.getElem?_set, if_pos rfl] at h
  split at h
  · exact (Option.some.inj h).symm
  · exact absurd h (by simp)

/-- What holds of every slot and of the new value holds of every slot afterwards. -/
theorem forall_mem_set {P : α → Prop} {b : α} (h : ∀ a ∈ l, P a) (hb : P b) :
    ∀ a ∈ l.set i b, P a := by
  intro a ha
  rcases List.mem_or_eq_of_mem_set ha with h' | h'
  · exact h a h'
  · exact h' ▸ hb

end Shb.Lib
