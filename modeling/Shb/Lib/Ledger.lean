import Shb.Lib.Sums

/-!
# A ledger of slots

Slots are used one tenant after another. What a tenant brought in is booked on its slot, as
successes and as failures; when a tenant is replaced its entry is closed and the slot starts
from nothing. The books say what the replacements cost: **if every tenant that was replaced
without a success had at least one failure, there are no more tenants than slots, successes
and failures together** (`Ledger.tenants_le`).
-/

namespace Shb.Lib

/-- What one tenant brought in. -/
structure Entry where
  completed : Nat
  errors : Nat
  deriving DecidableEq, Repr

namespace Entry

def zero : Entry := ⟨0, 0⟩

def total (e : Entry) : Nat := e.completed + e.errors

def add (e : Entry) (completed errors : Nat) : Entry :=
  ⟨e.completed + completed, e.errors + errors⟩

/-- No success, but at least one failure to show for it. -/
def Paid (e : Entry) : Prop := e.completed = 0 → 1 ≤ e.errors

end Entry

structure Ledger where
  /-- The tenant of each slot. -/
  live : List Entry
  /-- Those that were replaced. -/
  replaced : List Entry
  deriving DecidableEq, Repr

namespace Ledger

def new (slots : Nat) : Ledger := ⟨List.replicate slots Entry.zero, []⟩

/-- Book what slot `i` brought in and, if its tenant has been replaced, close its entry. -/
def book (l : Ledger) (i : Nat) (completed errors : Nat) (closes : Bool) : Ledger :=
  match l.live[i]? with
  | none => l
  | some e =>
    let e := e.add completed errors
    if closes then ⟨l.live.set i Entry.zero, l.replaced ++ [e]⟩
    else ⟨l.live.set i e, l.replaced⟩

/-- Everything that has been booked. -/
def total (l : Ledger) : Nat := sumOf Entry.total l.live + sumOf Entry.total l.replaced

theorem total_new (slots : Nat) : (new slots).total = 0 := by
  have h : sumOf Entry.total (new slots).live = 0 :=
    sumOf_eq_zero Entry.total fun e he => by rw [List.eq_of_mem_replicate he]; rfl
  unfold total
  rw [h]
  rfl

theorem total_book {l : Ledger} {i : Nat} {e : Entry} (hi : l.live[i]? = some e)
    (completed errors : Nat) (closes : Bool) :
    (l.book i completed errors closes).total = l.total + completed + errors := by
  have h0 := sumOf_set Entry.total hi Entry.zero
  have h1 := sumOf_set Entry.total hi (e.add completed errors)
  have hz : Entry.zero.total = 0 := rfl
  have hadd : (e.add completed errors).total = e.total + completed + errors := by
    simp only [Entry.add, Entry.total]
    omega
  unfold book
  rw [hi]
  cases closes with
  | true =>
    simp only [if_true, total, sumOf_append, sumOf_cons, sumOf_nil]
    omega
  | false =>
    simp only [Bool.false_eq_true, if_false, total]
    omega

theorem book_zero (l : Ledger) (i : Nat) : l.book i 0 0 false = l := by
  unfold book
  split
  · rfl
  · rename_i e he
    obtain ⟨hlt, rfl⟩ := List.getElem?_eq_some_iff.mp he
    show (⟨l.live.set i l.live[i], l.replaced⟩ : Ledger) = l
    rw [List.set_getElem_self]

@[simp] theorem length_live_book (l : Ledger) (i completed errors : Nat) (closes : Bool) :
    (l.book i completed errors closes).live.length = l.live.length := by
  unfold book
  split
  · rfl
  · dsimp only
    split <;> simp

theorem length_le_total {es : List Entry} (h : ∀ e ∈ es, e.Paid) :
    es.length ≤ sumOf Entry.total es := by
  induction es with
  | nil => exact Nat.le_refl _
  | cons e es ih =>
    have hone : 1 ≤ e.total := by
      have hp := h e List.mem_cons_self
      unfold Entry.Paid at hp
      unfold Entry.total
      omega
    have hrest := ih fun e' he' => h e' (List.mem_cons_of_mem _ he')
    rw [sumOf_cons, List.length_cons]
    omega

/-- Replacements that are paid for are bounded by what they brought in. -/
theorem tenants_le {l : Ledger} {tenants slots : Nat} (h : tenants ≤ slots + l.replaced.length)
    (hp : ∀ e ∈ l.replaced, e.Paid) : tenants ≤ slots + l.total := by
  have := length_le_total hp
  unfold total
  omega

end Ledger

end Shb.Lib
