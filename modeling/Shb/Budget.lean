import Mathlib.Algebra.Ring.Nat
import Mathlib.Algebra.BigOperators.Group.List.Basic

/-!
# `budget.rs` — what ends a run

A run is bounded either by a number of requests or by a timer, never by both. Counts are
natural numbers; a `Duration` is a number of nanoseconds.
-/

namespace Shb

inductive Budget where
  /-- Stop after this many requests. -/
  | requests (n : Nat)
  /-- Stop after this long, however many requests fit. -/
  | duration (d : Nat)
  deriving DecidableEq, Repr

namespace Budget

variable (b : Budget)

/-- May another request be started, given how many already have been? -/
def mayStart : Budget → Nat → Bool
  | requests n, started => started < n
  | duration _, _ => true

/-- Has the run met its own terms? A timed run ends on its timeout instead. -/
def isMet : Budget → Nat → Bool
  | requests n, finished => n ≤ finished
  | duration _, _ => false

/-- How many requests this will take, when that is known. -/
def expectedRequests : Budget → Option Nat
  | requests n => some n
  | duration _ => none

/-- One budget per thread: a count is divided, with the remainder going to the first threads. -/
def split (threads : Nat) : List Budget :=
  match b with
  | duration d => List.replicate threads (duration d)
  | requests total =>
    (List.range threads).map fun i =>
      requests (total / threads + if i < total % threads then 1 else 0)

/-- So many may have been started. -/
def Covers : Budget → Nat → Prop
  | requests n, started => started ≤ n
  | duration _, _ => True

@[simp] theorem mayStart_requests (n started : Nat) :
    (requests n).mayStart started = true ↔ started < n := by
  simp [mayStart]

/-- A budget that covers another request covered it when fewer had been started. -/
theorem mayStart_of_le {b : Budget} {m n : Nat} (h : m ≤ n) (hn : b.mayStart n = true) :
    b.mayStart m = true := by
  cases b with
  | requests k =>
    rw [mayStart_requests] at hn ⊢
    exact Nat.lt_of_le_of_lt h hn
  | duration d => rfl

theorem Covers.mono {b : Budget} {m n : Nat} (h : b.Covers n) (hle : m ≤ n) : b.Covers m := by
  cases b with
  | requests k => exact Nat.le_trans hle h
  | duration d => trivial

/-- A budget that covers another request covers it once it is started. -/
theorem covers_of_mayStart {b : Budget} {n : Nat} (h : b.mayStart n = true) : b.Covers (n + 1) := by
  cases b with
  | requests k => exact (mayStart_requests k n).mp h
  | duration d => trivial

/-- As many connections as the budget covers open with a request. -/
theorem covers_opening (connections : Nat) :
    b.Covers ((List.range connections).filter fun i => b.mayStart i).length := by
  cases b with
  | duration d => trivial
  | requests n =>
    have hmin : ((List.range connections).filter fun i => (requests n).mayStart i).length =
        min connections n := by
      induction connections with
      | zero => simp
      | succ k ih =>
        rw [List.range_succ, List.filter_append, List.length_append, ih, List.filter_singleton]
        by_cases hlt : k < n
        · simp only [mayStart, hlt, decide_true, cond_true, List.length_singleton]
          omega
        · simp only [mayStart, hlt, decide_false, cond_false, List.length_nil]
          omega
    exact Nat.le_trans (Nat.le_of_eq hmin) (Nat.min_le_right _ _)

theorem covers_zero : b.Covers 0 := by
  cases b with
  | requests k => exact Nat.zero_le k
  | duration d => trivial

/-- The first `r` of `k` threads take one request more. -/
theorem sum_remainder (r k : Nat) :
    ((List.range k).map fun i => if i < r then 1 else 0).sum = min r k := by
  induction k with
  | zero => simp
  | succ k ih =>
    rw [List.range_succ, List.map_append, List.sum_append, ih]
    simp only [List.map_cons, List.map_nil, List.sum_cons, List.sum_nil]
    split <;> omega

/-- Nothing is lost in the division. -/
theorem sum_split (total threads : Nat) (h : 0 < threads) :
    (((requests total).split threads).filterMap expectedRequests).sum = total := by
  have hparts : ((requests total).split threads).filterMap expectedRequests =
      (List.range threads).map fun i =>
        total / threads + if i < total % threads then 1 else 0 := by
    simp [split, List.filterMap_map, Function.comp_def, expectedRequests]
  have hlt := Nat.mod_lt total h
  rw [hparts, List.sum_map_add, sum_remainder, Nat.min_eq_left (Nat.le_of_lt hlt)]
  simp only [List.map_const', List.length_range, List.sum_replicate_nat]
  exact Nat.div_add_mod total threads

end Budget

end Shb
