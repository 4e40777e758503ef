import Mathlib.Data.List.Basic
import Mathlib.Logic.Function.Basic

/-!
# Run queues

Tasks come and go; each has a flag that says whether it stands in the queue, so that it is
not put there twice. A task that goes leaves its place in the queue behind, and the queue skips
it when its turn comes. `Scheduled` says that the flags of the tasks that are there tell the
truth and that none of them waits without standing in the queue. Between the end of a task's
turn and the decision whether it gets another, that one task may: it is `due`.
-/

namespace Shb.Lib

section RunQueue

variable {ι τ : Type} [DecidableEq ι] {flag wants : τ → Bool}

structure Scheduled (flag wants : τ → Bool) (due : Option ι) (task : ι →
    Option τ) (queue : List ι) : Prop where
  mem : ∀ {i t}, task i = some t → (flag t = true ↔ i ∈ queue)
  once : ∀ {i t}, task i = some t → queue.count i ≤ 1
  turn : ∀ {i t}, task i = some t → wants t = true → flag t = true ∨ due = some i

namespace Scheduled

variable {due : Option ι} {task : ι → Option τ} {queue : List ι} {i : ι} {t t' : τ}

/-- A task of the changed table is the changed one, or one of the old. -/
theorem of_update {o : Option τ} {j : ι} {u : τ} (h : Function.update task i o j = some u) :
    (j = i ∧ o = some u) ∨ (j ≠ i ∧ task j = some u) := by
  rw [Function.update_apply] at h
  split at h
  · rename_i heq
    exact Or.inl ⟨heq, h⟩
  · rename_i hne
    exact Or.inr ⟨hne, h⟩

theorem owe (h : Scheduled flag wants none task queue) (i : ι) :
    Scheduled flag wants (some i) task queue where
  mem := h.mem
  once := h.once
  turn ht hw := Or.inl ((h.turn ht hw).resolve_right (by simp))

/-- The task that was due is in the queue, or does not want a turn. -/
theorem settled (h : Scheduled flag wants (some i) task queue)
    (hi : ∀ t, task i = some t → wants t = true → flag t = true) :
    Scheduled flag wants none task queue where
  mem := h.mem
  once := h.once
  turn ht hw := by
    rcases h.turn ht hw with hf | heq
    · exact Or.inl hf
    · cases heq
      exact Or.inl (hi _ ht hw)

theorem change (h : Scheduled flag wants due task queue) (ht : task i = some t)
    (hflag : flag t' = flag t) (hwants : wants t' = true → wants t = true ∨ due = some i) :
    Scheduled flag wants due (Function.update task i (some t')) queue where
  mem hu := by
    rcases of_update hu with ⟨rfl, heq⟩ | ⟨-, hu⟩
    · cases heq
      rw [hflag]
      exact h.mem ht
    · exact h.mem hu
  once hu := by
    rcases of_update hu with ⟨rfl, -⟩ | ⟨-, hu⟩
    · exact h.once ht
    · exact h.once hu
  turn hu hw := by
    rcases of_update hu with ⟨rfl, heq⟩ | ⟨-, hu⟩
    · cases heq
      rw [hflag]
      rcases hwants hw with hw | hdue
      · exact h.turn ht hw
      · exact Or.inr hdue
    · exact h.turn hu hw

theorem push (h : Scheduled flag wants (some i) task queue) (ht : task i = some t)
    (hf : flag t = false) (hf' : flag t' = true) :
    Scheduled flag wants none (Function.update task i (some t')) (queue ++ [i]) where
  mem hu := by
    rcases of_update hu with ⟨rfl, heq⟩ | ⟨hne, hu⟩
    · cases heq
      simp [hf']
    · rw [h.mem hu]
      simp [hne]
  once hu := by
    have hout : i ∉ queue := fun hmem => by simp [(h.mem ht).mpr hmem] at hf
    rw [List.count_append]
    rcases of_update hu with ⟨rfl, -⟩ | ⟨hne, hu⟩
    · simp [List.count_eq_zero.mpr hout]
    · rw [List.count_singleton, if_neg (by simpa using Ne.symm hne)]
      exact h.once hu
  turn hu hw := by
    rcases of_update hu with ⟨rfl, heq⟩ | ⟨hne, hu⟩
    · cases heq
      exact Or.inl hf'
    · rcases h.turn hu hw with hf | heq
      · exact Or.inl hf
      · exact absurd (Option.some.inj heq).symm hne

theorem pop (h : Scheduled flag wants none task (i :: queue)) (ht : task i = some t)
    (hf' : flag t' = false) :
    Scheduled flag wants (some i) (Function.update task i (some t')) queue where
  mem hu := by
    rcases of_update hu with ⟨rfl, heq⟩ | ⟨hne, hu⟩
    · cases heq
      have hcount := h.once ht
      rw [List.count_cons_self] at hcount
      have hout : _ ∉ queue := List.count_eq_zero.mp (Nat.le_zero.mp
        (Nat.le_of_succ_le_succ hcount))
      simp [hf', hout]
    · rw [h.mem hu, List.mem_cons, or_iff_right hne]
  once hu := by
    rcases of_update hu with ⟨rfl, -⟩ | ⟨-, hu⟩
    · exact Nat.le_trans List.count_le_count_cons (h.once ht)
    · exact Nat.le_trans List.count_le_count_cons (h.once hu)
  turn hu hw := by
    rcases of_update hu with ⟨rfl, -⟩ | ⟨-, hu⟩
    · exact Or.inr rfl
    · exact Or.inl ((h.turn hu hw).resolve_right (by simp))

theorem skip (h : Scheduled flag wants due task (i :: queue)) (hi : task i = none) :
    Scheduled flag wants due task queue where
  mem {j u} hu := by
    have hne : j ≠ i := by
      rintro rfl
      simp [hi] at hu
    rw [h.mem hu, List.mem_cons, or_iff_right hne]
  once hu := Nat.le_trans List.count_le_count_cons (h.once hu)
  turn := h.turn

theorem start (h : Scheduled flag wants due task queue) (hi : i ∉ queue) (hf : flag t = false)
    (hw : wants t = false) : Scheduled flag wants due (Function.update task i (some t)) queue where
  mem hu := by
    rcases of_update hu with ⟨rfl, heq⟩ | ⟨-, hu⟩
    · cases heq
      simp [hf, hi]
    · exact h.mem hu
  once hu := by
    rcases of_update hu with ⟨rfl, -⟩ | ⟨-, hu⟩
    · rw [List.count_eq_zero.mpr hi]
      exact Nat.zero_le 1
    · exact h.once hu
  turn hu hw' := by
    rcases of_update hu with ⟨rfl, heq⟩ | ⟨-, hu⟩
    · cases heq
      simp [hw] at hw'
    · exact h.turn hu hw'

theorem gone (h : Scheduled flag wants due task queue) (i : ι) :
    Scheduled flag wants due (Function.update task i none) queue where
  mem hu := by
    rcases of_update hu with ⟨-, heq⟩ | ⟨-, hu⟩
    · cases heq
    · exact h.mem hu
  once hu := by
    rcases of_update hu with ⟨-, heq⟩ | ⟨-, hu⟩
    · cases heq
    · exact h.once hu
  turn hu hw := by
    rcases of_update hu with ⟨-, heq⟩ | ⟨-, hu⟩
    · cases heq
    · exact h.turn hu hw

end Scheduled

end RunQueue

end Shb.Lib
