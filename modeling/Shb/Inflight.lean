import Mathlib.Algebra.Ring.Nat
import Mathlib.Data.List.ReduceOption

/-!
# `inflight.rs` — requests in flight, found by stream number

HTTP/2 and HTTP/3 hand out stream ids in order and evenly spaced, so a request's id says
where it is: one slot per id, with the front trimmed as requests finish. The constants of
the source's type are parameters of ours: `shift` is the gap between consecutive ids as a
power of two, `offset` what our ids leave in the bits below it.

The vector keeps a retired prefix, so two rings can hold the same requests in different
slots. What a ring *means* is read off its **window**, the slots from `head` on: `cell n` is
the request with stream number `n`, and every operation below is described by what it does
to `cell`.
-/

namespace Shb

variable {α : Type} {shift offset : Nat}

structure Ring (α : Type) (shift offset : Nat) where
  /-- In stream order, oldest first. -/
  slots : List (Option α)
  /-- Where the oldest request still in flight sits in `slots`. -/
  head : Nat
  /-- Stream number of `slots[head]`. -/
  base : Nat
  /-- How many slots hold a request. -/
  opened : Nat
  /-- The `head` at which the retired prefix is worth moving the rest down over. -/
  compactAt : Nat
  deriving DecidableEq, Repr

/-- HTTP/2 client streams are 1, 3, 5. -/
abbrev H2Ring (α : Type) := Ring α 1 1

/-- HTTP/3 client bidirectional streams are 0, 4, 8. -/
abbrev H3Ring (α : Type) := Ring α 2 0

namespace Ring

def compactFloor : Nat := 64

def mask (shift : Nat) : Nat := 2 ^ shift - 1

def new : Ring α shift offset :=
  { slots := [], head := 0, base := 0, opened := 0, compactAt := compactFloor }

variable (r : Ring α shift offset)

def len : Nat := r.opened

def isEmpty : Bool := r.opened == 0

def clear (_ : Ring α shift offset) : Ring α shift offset := new

/-- Slots from the front onwards, holes included. -/
def live : Nat := r.slots.length - r.head

variable (id : Nat)

def push (item : α) : Ring α shift offset :=
  { r with
    base := if r.slots.isEmpty then id >>> shift else r.base
    slots := r.slots ++ [some item]
    opened := r.opened + 1 }

/-- An id that leaves anything but `offset` below the shift has no slot: it belongs to the
peer or to the connection. -/
def index : Option Nat :=
  if id &&& mask shift ≠ offset then none
  else if id >>> shift < r.base then none
  else if id >>> shift - r.base < r.live then some (r.head + (id >>> shift - r.base))
  else none

/-- What `get_mut` finds. -/
def get : Option α :=
  (r.index id).bind fun i => (r.slots[i]?).join

/-- A write through `get_mut`. -/
def modify (r : Ring α shift offset) (id : Nat) (f : α → α) : Ring α shift offset :=
  match r.index id with
  | none => r
  | some i => { r with slots := r.slots.modify i (Option.map f) }

/-- The holes a front has to step over. -/
def holes : List (Option α) → Nat
  | none :: w => holes w + 1
  | _ => 0

/-- Move what is still in flight down over the slots that have finished. -/
def compact : Ring α shift offset :=
  { r with
    slots := r.slots.drop r.head
    head := 0
    compactAt := max (r.slots.length - r.head) compactFloor }

/-- Step the front over the holes left by requests that finished early, and then decide
what to do with the retired prefix. -/
def settle : Ring α shift offset :=
  let n := holes (r.slots.drop r.head)
  let r := { r with head := r.head + n, base := r.base + n }
  if r.head == r.slots.length then
    { r with slots := [], head := 0, compactAt := compactFloor }
  else if r.compactAt ≤ r.head then r.compact
  else r

/-- The front has just been emptied: trim it. -/
def trim : Ring α shift offset :=
  let r := { r with head := r.head + 1, base := r.base + 1 }
  match r.slots[r.head]? with
  | some (some _) => if r.compactAt ≤ r.head then r.compact else r
  | _ => r.settle

def take : Option α × Ring α shift offset :=
  match r.index id with
  | none => (none, r)
  | some i =>
    match r.slots[i]? with
    | some (some x) =>
      let s := { r with slots := r.slots.set i none, opened := r.opened - 1 }
      (some x, if i == s.head then s.trim else s)
    | _ => (none, r)

/-- The requests in flight, oldest first. -/
def iter : List α :=
  (r.slots.drop r.head).reduceOption

/-- How many slots there are, for a caller that walks them by position. -/
def slotCount : Nat := r.live

def slot (i : Nat) : Option α :=
  (r.slots[r.head + i]?).join

/-- A write through `slot_mut`. -/
def slotModify (i : Nat) (f : α → α) : Ring α shift offset :=
  { r with slots := r.slots.modify (r.head + i) (Option.map f) }

/-- A write through `iter_mut`, the same at every request. -/
def mapLive (f : α → α) : Ring α shift offset :=
  { r with slots := r.slots.take r.head ++ (r.slots.drop r.head).map (Option.map f) }

/-- Retire streams above a GOAWAY's last-stream id, in ascending order. -/
def retireAfter (r : H2Ring α) (last : Nat) : List α × H2Ring α :=
  let first := (last + 1) / 2
  let n := min (first - r.base) r.live
  if n == 0 then
    (r.iter,
      { slots := [], head := 0, base := r.base + r.live, opened := 0, compactAt := compactFloor })
  else
    let retired := (r.slots.drop (r.head + n)).reduceOption
    (retired,
      { r with
        slots := r.slots.take (r.head + n) ++ (r.slots.drop (r.head + n)).map fun _ => none
        opened := r.opened - retired.length })

/-! ## What a ring means -/

/-- The slots from the front on. -/
def window : List (Option α) :=
  r.slots.drop r.head

/-- The content at stream number `n` of a window that starts at number `b`. -/
def cellAt (b : Nat) (w : List (Option α)) (n : Nat) : Option α :=
  if n < b then none else (w[n - b]?).join

/-- The request with stream number `n`. -/
def cell (n : Nat) : Option α :=
  cellAt r.base r.window n

/-- The stream number the next request has to have to land in its own slot. -/
def Expects (n : Nat) : Prop :=
  r.slots = [] ∨ r.base + r.live = n

/-- What every ring built by the operations satisfies. -/
structure Ok (r : Ring α shift offset) : Prop where
  head_le : r.head ≤ r.slots.length
  opened_eq : r.opened = r.iter.length
  /-- `slots[head]` is never a hole. -/
  front : holes r.window = 0
  /-- A ring without slots keeps no front. -/
  settled : r.window = [] → r.slots = []

/-! ## Windows -/

section Windows

theorem cellAt_append (b n : Nat) (w : List (Option α)) (x : α) :
    cellAt b (w ++ [some x]) n = if n = b + w.length then some x else cellAt b w n := by
  unfold cellAt
  by_cases hb : n < b
  · rw [if_pos hb, if_neg (by omega), if_pos hb]
  · rw [if_neg hb, if_neg hb]
    rcases Nat.lt_trichotomy (n - b) w.length with h | h | h
    · rw [if_neg (by omega), List.getElem?_append_left h]
    · rw [if_pos (by omega), h]
      simp
    · rw [if_neg (by omega), List.getElem?_eq_none (by simp; omega),
        List.getElem?_eq_none (by omega)]

theorem cellAt_set (b n i : Nat) (w : List (Option α)) :
    cellAt b (w.set i none) n = if n = b + i then none else cellAt b w n := by
  unfold cellAt
  by_cases hb : n < b
  · simp only [if_pos hb, ite_self]
  · rw [if_neg hb, if_neg hb, List.getElem?_set]
    by_cases hi : i = n - b
    · rw [if_pos hi, if_pos (show n = b + i by omega)]
      split <;> rfl
    · rw [if_neg hi, if_neg (show ¬ n = b + i by omega)]

theorem cellAt_cons_none (b n : Nat) (w : List (Option α)) :
    cellAt b (none :: w) n = cellAt (b + 1) w n := by
  unfold cellAt
  rcases Nat.lt_trichotomy n b with h | h | h
  · rw [if_pos h, if_pos (by omega)]
  · subst h
    rw [if_neg (Nat.lt_irrefl _), if_pos (by omega), Nat.sub_self]
    rfl
  · rw [if_neg (by omega), if_neg (by omega), show n - b = (n - (b + 1)) + 1 by omega,
      List.getElem?_cons_succ]

/-- Stepping the front over its holes changes nothing that can be looked up. -/
theorem cellAt_drop_holes (n : Nat) (w : List (Option α)) :
    ∀ b, cellAt (b + holes w) (w.drop (holes w)) n = cellAt b w n := by
  induction w with
  | nil => intro b; rfl
  | cons s w ih =>
    intro b
    cases s with
    | none =>
      rw [cellAt_cons_none, ← ih (b + 1)]
      simp only [holes, List.drop_succ_cons]
      congr 1
      omega
    | some x => rfl

variable (w : List (Option α))

theorem holes_drop_holes : holes (w.drop (holes w)) = 0 := by
  induction w with
  | nil => rfl
  | cons s w ih =>
    cases s with
    | none => simpa [holes] using ih
    | some x => rfl

theorem holes_le : holes w ≤ w.length := by
  induction w with
  | nil => exact Nat.le_refl _
  | cons s w ih =>
    cases s with
    | none => simpa [holes] using ih
    | some x => exact Nat.zero_le _

theorem reduceOption_drop_holes : (w.drop (holes w)).reduceOption = w.reduceOption := by
  induction w with
  | nil => rfl
  | cons s w ih =>
    cases s with
    | none => simpa [holes] using ih
    | some x => rfl

theorem reduceOption_set {w : List (Option α)} {i : Nat} {x : α} (h : w[i]? = some (some x)) :
    w.reduceOption.length = (w.set i none).reduceOption.length + 1 := by
  induction w generalizing i with
  | nil => simp at h
  | cons s w ih =>
    cases i with
    | zero =>
      simp only [List.getElem?_cons_zero, Option.some.injEq] at h
      subst h
      simp
    | succ i =>
      have := ih (by simpa using h)
      cases s with
      | none => simpa using this
      | some y => simpa using this

end Windows

/-! ## The operations -/

@[simp] theorem new_ok : (new : Ring α shift offset).Ok where
  head_le := Nat.le_refl _
  opened_eq := rfl
  front := rfl
  settled _ := rfl

@[simp] theorem len_new : (new : Ring α shift offset).len = 0 := rfl

@[simp] theorem cell_new (n : Nat) : (new : Ring α shift offset).cell n = none := by
  simp [cell, cellAt, new, window]

theorem live_eq (r : Ring α shift offset) : r.live = r.window.length := by
  simp [live, window]

/-- `index` finds exactly the slots of the window. -/
theorem index_eq_some {r : Ring α shift offset} {id i : Nat} (h : r.index id = some i) :
    id &&& mask shift = offset ∧ r.base ≤ id >>> shift ∧ i = r.head + (id >>> shift - r.base) ∧
      id >>> shift - r.base < r.live := by
  unfold index at h
  split at h
  · exact absurd h (by simp)
  · split at h
    · exact absurd h (by simp)
    · split at h
      · rename_i hm hb hl
        simp only [Option.some.injEq] at h
        exact ⟨not_not.mp hm, Nat.not_lt.mp hb, h.symm, hl⟩
      · exact absurd h (by simp)

/-- A lookup reads the cell of the id's stream number, when the id is one of ours. -/
theorem get_eq_cell (r : Ring α shift offset) (id : Nat) :
    r.get id = if id &&& mask shift = offset then r.cell (id >>> shift) else none := by
  unfold get index cell cellAt window
  by_cases hm : id &&& mask shift = offset
  · by_cases hb : id >>> shift < r.base
    · simp [hm, hb]
    · by_cases hl : id >>> shift - r.base < r.live
      · simp [hm, hb, hl]
      · have hlen : r.slots.length ≤ r.head + (id >>> shift - r.base) := by
          unfold live at hl
          omega
        simp [hm, hb, hl, List.getElem?_eq_none hlen]
  · simp [hm]

section Trim

/-- `s` holds what `r` holds, with its front settled. -/
structure Settles (r s : Ring α shift offset) : Prop where
  cell : ∀ n, s.cell n = r.cell n
  iter : s.iter = r.iter
  opened : s.opened = r.opened
  head_le : s.head ≤ s.slots.length
  front : holes s.window = 0
  settled : s.window = [] → s.slots = []
  expects : s.slots = [] ∨ s.base + s.live = r.base + r.live

theorem Settles.ok {r s : Ring α shift offset} (h : Settles r s)
    (ho : r.opened = r.iter.length) : s.Ok where
  head_le := h.head_le
  opened_eq := by rw [h.opened, h.iter, ho]
  front := h.front
  settled := h.settled

theorem compact_settles {r : Ring α shift offset} (hf : holes r.window = 0) :
    Settles r r.compact where
  cell n := by simp [Ring.cell, compact, window]
  iter := by simp [Ring.iter, compact]
  opened := rfl
  head_le := Nat.zero_le _
  front := by simpa [compact, window] using hf
  settled := by simp [compact, window]
  expects := Or.inr (by simp [compact, live])

theorem settle_settles {r : Ring α shift offset} (hle : r.head ≤ r.slots.length) :
    Settles r r.settle := by
  have hn : r.head + holes r.window ≤ r.slots.length := by
    have := holes_le r.window
    rw [← live_eq, live] at this
    omega
  let t : Ring α shift offset :=
    { r with head := r.head + holes r.window, base := r.base + holes r.window }
  have hw : t.window = r.window.drop (holes r.window) := by
    simp [t, window, List.drop_drop]
  have hcell : ∀ n, t.cell n = r.cell n := by
    intro n
    unfold Ring.cell
    rw [hw]
    exact cellAt_drop_holes n r.window r.base
  have hiter : t.iter = r.iter := by
    show t.window.reduceOption = r.window.reduceOption
    rw [hw]
    exact reduceOption_drop_holes r.window
  have hfront : holes t.window = 0 := by
    rw [hw]
    exact holes_drop_holes r.window
  have hnext : t.base + t.live = r.base + r.live := by
    show r.base + holes r.window + (r.slots.length - (r.head + holes r.window)) = _
    unfold live
    omega
  show Settles r (if t.head == t.slots.length then
    { t with slots := [], head := 0, compactAt := compactFloor }
    else if t.compactAt ≤ t.head then t.compact else t)
  split
  · rename_i he
    -- The ring has drained, so there is nothing in the window to lose.
    have hnil : t.window = [] := by
      rw [beq_iff_eq] at he
      unfold window
      rw [he]
      exact List.drop_length
    refine ⟨fun n => ?_, ?_, rfl, Nat.zero_le _, rfl, fun _ => rfl, Or.inl rfl⟩
    · rw [← hcell n]
      unfold Ring.cell
      rw [hnil]
      rfl
    · rw [← hiter]
      show _ = t.window.reduceOption
      rw [hnil]
      rfl
  · rename_i he
    have hlt : t.head < t.slots.length := by
      rw [beq_iff_eq] at he
      exact Nat.lt_of_le_of_ne hn he
    split
    · have hc := compact_settles hfront
      exact ⟨fun n => (hc.cell n).trans (hcell n), hc.iter.trans hiter, rfl, hc.head_le, hc.front,
        hc.settled, hc.expects.imp_right fun h => h.trans hnext⟩
    · refine ⟨hcell, hiter, rfl, hn, hfront, fun h => ?_, Or.inr hnext⟩
      have := congrArg List.length h
      simp only [window, List.length_drop, List.length_nil] at this
      omega

/-- Trimming the front, once it is a hole. -/
theorem trim_settles {r : Ring α shift offset} {w : List (Option α)}
    (hw : r.window = none :: w) : Settles r r.trim := by
  have hlt : r.head < r.slots.length := by
    have := congrArg List.length hw
    simp only [window, List.length_drop, List.length_cons] at this
    omega
  let t : Ring α shift offset := { r with head := r.head + 1, base := r.base + 1 }
  have htw : t.window = w := by
    show r.slots.drop (r.head + 1) = w
    rw [← List.drop_drop, show r.slots.drop r.head = none :: w from hw]
    rfl
  have hcell : ∀ n, t.cell n = r.cell n := by
    intro n
    unfold Ring.cell
    rw [htw, hw, cellAt_cons_none]
  have hiter : t.iter = r.iter := by
    show t.window.reduceOption = r.window.reduceOption
    rw [htw, hw]
    rfl
  have hnext : t.base + t.live = r.base + r.live := by
    show r.base + 1 + (r.slots.length - (r.head + 1)) = _
    unfold live
    omega
  have hstep : ∀ {s : Ring α shift offset}, Settles t s → Settles r s := fun hs =>
    ⟨fun n => (hs.cell n).trans (hcell n), hs.iter.trans hiter, hs.opened, hs.head_le, hs.front,
      hs.settled, hs.expects.imp_right fun h => h.trans hnext⟩
  show Settles r (match t.slots[t.head]? with
    | some (some _) => if t.compactAt ≤ t.head then t.compact else t
    | _ => t.settle)
  split
  · rename_i x hx
    have hfx : t.window = some x :: t.slots.drop (t.head + 1) := by
      obtain ⟨hl, hg⟩ := List.getElem?_eq_some_iff.mp hx
      unfold window
      rw [List.drop_eq_getElem_cons hl, hg]
    have hf : holes t.window = 0 := by
      rw [hfx]
      rfl
    split
    · exact hstep (compact_settles hf)
    · exact ⟨hcell, hiter, rfl, hlt, hf, fun h => absurd (hfx.symm.trans h) (by simp),
        Or.inr hnext⟩
  · exact hstep (settle_settles hlt)

end Trim

section Take

variable {r : Ring α shift offset} {id : Nat}

theorem take_none (h : (r.take id).1 = none) : (r.take id).2 = r := by
  unfold take at h ⊢
  split at h
  · rfl
  · split at h
    · exact absurd h (by simp)
    · rfl

/-- A take empties one slot of the window and, when that was the front, settles it. -/
theorem take_some {x : α} (h : (r.take id).1 = some x) :
    id &&& mask shift = offset ∧ r.base ≤ id >>> shift ∧
      r.window[id >>> shift - r.base]? = some (some x) ∧
      ∃ s : Ring α shift offset, s.window = r.window.set (id >>> shift - r.base) none ∧
        s.base = r.base ∧ s.opened = r.opened - 1 ∧ s.live = r.live ∧ s.head ≤ s.slots.length ∧
        ((id >>> shift = r.base ∧ Settles s (r.take id).2) ∨
          id >>> shift ≠ r.base ∧ (r.take id).2 = s) := by
  unfold take at h ⊢
  cases hi : r.index id with
  | none => rw [hi] at h; exact absurd h (by simp)
  | some i =>
    rw [hi] at h
    obtain ⟨hm, hb, rfl, hl⟩ := index_eq_some hi
    dsimp only at h ⊢
    split at h
    · rename_i y hy
      simp only [Option.some.injEq] at h
      subst h
      have hx : r.window[id >>> shift - r.base]? = some (some y) := by
        rw [window, List.getElem?_drop]
        exact hy
      have hlt := (List.getElem?_eq_some_iff.mp hy).1
      refine ⟨hm, hb, hx,
        { r with
          slots := r.slots.set (r.head + (id >>> shift - r.base)) none
          opened := r.opened - 1 }, ?_, rfl, rfl, by simp [live], by simp; omega, ?_⟩
      · show (r.slots.set (r.head + (id >>> shift - r.base)) none).drop r.head = _
        rw [List.drop_set, if_neg (by omega), Nat.add_sub_cancel_left]
        rfl
      · dsimp only
        by_cases he : id >>> shift = r.base
        · refine Or.inl ⟨he, ?_⟩
          have hz : r.head + (id >>> shift - r.base) = r.head := by omega
          rw [if_pos (by simpa using hz)]
          cases hw : r.window with
          | nil => rw [hw] at hx; exact absurd hx (by simp)
          | cons a w =>
            refine trim_settles (w := w) ?_
            show (r.slots.set (r.head + (id >>> shift - r.base)) none).drop r.head = none :: w
            rw [List.drop_set, if_neg (by omega), Nat.add_sub_cancel_left,
              show r.slots.drop r.head = a :: w from hw, he, Nat.sub_self]
            rfl
        · refine Or.inr ⟨he, ?_⟩
          rw [if_neg]
          simp only [beq_iff_eq]
          omega
    · exact absurd h (by simp)

theorem take_fst (r : Ring α shift offset) (id : Nat) : (r.take id).1 = r.get id := by
  unfold take get
  cases hi : r.index id with
  | none => rfl
  | some i =>
    dsimp only [Option.bind_some]
    cases hs : r.slots[i]? with
    | none => rfl
    | some c => cases c <;> rfl

theorem Ok.take (hr : r.Ok) (id : Nat) : (r.take id).2.Ok := by
  cases ht : (r.take id).1 with
  | none => rw [take_none ht]; exact hr
  | some x =>
    obtain ⟨_, hb, hx, s, hw, _, ho, hl, hle, hs⟩ := take_some ht
    have hopen : s.opened = s.iter.length := by
      have h1 := reduceOption_set hx
      have h2 : r.opened = r.window.reduceOption.length := hr.opened_eq
      show _ = s.window.reduceOption.length
      rw [hw, ho]
      omega
    rcases hs with ⟨_, hs⟩ | ⟨hne, hs⟩
    · exact hs.ok hopen
    · rw [hs]
      -- Not the front, so the front is what it was.
      obtain ⟨k, hk⟩ : ∃ k, id >>> shift - r.base = k + 1 :=
        Nat.exists_eq_succ_of_ne_zero (by omega)
      have hfront := hr.front
      rw [hk] at hw hx
      cases hrw : r.window with
      | nil => rw [hrw] at hx; exact absurd hx (by simp)
      | cons a w =>
        rw [hrw] at hw hfront
        refine ⟨hle, hopen, ?_, fun h => ?_⟩
        · rw [hw]
          cases a with
          | none => simp [holes] at hfront
          | some _ => rfl
        · rw [hw] at h
          exact absurd h (by simp)

theorem len_take_some {x : α} (hr : r.Ok) (h : (r.take id).1 = some x) :
    r.len = (r.take id).2.len + 1 := by
  obtain ⟨_, _, hx, s, _, _, ho, _, _, hs⟩ := take_some h
  have hpos : r.opened = (r.window.set (id >>> shift - r.base) none).reduceOption.length + 1 := by
    rw [hr.opened_eq]
    exact reduceOption_set hx
  have hopen : (r.take id).2.opened = s.opened := by
    rcases hs with ⟨_, hs⟩ | ⟨_, hs⟩
    · exact hs.opened
    · rw [hs]
  unfold len
  omega

theorem cell_take (r : Ring α shift offset) (id n : Nat) (h : id &&& mask shift = offset) :
    (r.take id).2.cell n = if n = id >>> shift then none else r.cell n := by
  cases ht : (r.take id).1 with
  | none =>
    rw [take_none ht]
    rw [take_fst, get_eq_cell, if_pos h] at ht
    split
    · rename_i hn; rw [hn, ht]
    · rfl
  | some x =>
    obtain ⟨_, hb, _, s, hw, hbase, _, _, _, hs⟩ := take_some ht
    have hcell : (r.take id).2.cell n = s.cell n := by
      rcases hs with ⟨_, hs⟩ | ⟨_, hs⟩
      · exact hs.cell n
      · rw [hs]
    rw [hcell, cell, hw, hbase, cellAt_set, show r.base + (id >>> shift - r.base) = id >>> shift by
      omega]
    rfl

/-- Two ids of ours with one stream number are one id. -/
theorem eq_of_shift_eq {i j : Nat} (hi : i &&& mask shift = offset) (hj : j &&& mask shift = offset)
    (hs : i >>> shift = j >>> shift) : i = j := by
  rw [mask, Nat.and_two_pow_sub_one_eq_mod] at hi hj
  rw [Nat.shiftRight_eq_div_pow, Nat.shiftRight_eq_div_pow] at hs
  rw [← Nat.div_add_mod i (2 ^ shift), ← Nat.div_add_mod j (2 ^ shift), hs, hi, hj]

/-- A take leaves every other request where it was. -/
theorem get_take_of_ne (r : Ring α shift offset) {id j : Nat} (h : j ≠ id) :
    (r.take id).2.get j = r.get j := by
  by_cases hm : id &&& mask shift = offset
  · by_cases hj : j &&& mask shift = offset
    · have hne : j >>> shift ≠ id >>> shift := fun hs => h (eq_of_shift_eq hj hm hs)
      rw [get_eq_cell, get_eq_cell, cell_take r id _ hm, if_pos hj, if_pos hj, if_neg hne]
    · rw [get_eq_cell, get_eq_cell, if_neg hj, if_neg hj]
  · have hnone : (r.take id).1 = none := by rw [take_fst, get_eq_cell, if_neg hm]
    rw [take_none hnone]

theorem get_take_self (r : Ring α shift offset) (id : Nat) : (r.take id).2.get id = none := by
  rw [get_eq_cell]
  split
  · rename_i hm
    rw [cell_take r id _ hm, if_pos rfl]
  · rfl

theorem isSome_of_get_take (r : Ring α shift offset) (id j : Nat)
    (h : ((r.take id).2.get j).isSome = true) : (r.get j).isSome = true := by
  by_cases hj : j = id
  · rw [hj, get_take_self] at h
    exact absurd h (by simp)
  · rwa [get_take_of_ne r hj] at h

theorem len_pos_of_get {x : α} (hr : r.Ok) (h : r.get id = some x) : 0 < r.len := by
  have ht : (r.take id).1 = some x := by rw [take_fst, h]
  have := len_take_some hr ht
  omega

theorem slot_of_empty (hr : r.Ok) (h : r.len = 0) (i : Nat) : r.slot i = none := by
  have hnil : r.iter = [] := List.length_eq_zero_iff.mp (hr.opened_eq.symm.trans h)
  by_contra hne
  obtain ⟨x, hx⟩ := Option.ne_none_iff_exists'.mp hne
  have hslot : r.window[i]? = some (some x) := by
    rw [window, List.getElem?_drop]
    exact Option.join_eq_some_iff.mp hx
  have hmem : x ∈ r.iter := List.reduceOption_mem_iff.mpr (List.mem_of_getElem? hslot)
  rw [hnil] at hmem
  exact List.not_mem_nil hmem

theorem Expects.take {n : Nat} (hr : r.Expects n) (id : Nat) : (r.take id).2.Expects n := by
  cases ht : (r.take id).1 with
  | none => rw [take_none ht]; exact hr
  | some x =>
    obtain ⟨_, _, hx, s, hw, hb, _, hl, _, hs⟩ := take_some ht
    have hn : r.base + r.live = n := by
      rcases hr with h | h
      · rw [window, h] at hx
        exact absurd hx (by simp)
      · exact h
    rcases hs with ⟨_, hs⟩ | ⟨_, hs⟩
    · exact hs.expects.imp_right fun h => by omega
    · rw [hs]
      exact Or.inr (by omega)

end Take

section Push

@[simp] theorem len_push (r : Ring α shift offset) (id : Nat) (x : α) :
    (r.push id x).len = r.len + 1 := rfl

theorem window_push {r : Ring α shift offset} (hr : r.Ok) (id : Nat) (x : α) :
    (r.push id x).window = r.window ++ [some x] := by
  show (r.slots ++ [some x]).drop r.head = _
  rw [List.drop_append_of_le_length hr.head_le]
  rfl

theorem Ok.push {r : Ring α shift offset} (hr : r.Ok) (id : Nat) (x : α) : (r.push id x).Ok where
  head_le := by
    have := hr.head_le
    simp only [Ring.push, List.length_append]
    omega
  opened_eq := by
    show r.opened + 1 = (r.push id x).window.reduceOption.length
    rw [window_push hr, List.reduceOption_append, List.length_append, hr.opened_eq]
    rfl
  front := by
    have := hr.front
    rw [window_push hr]
    cases hw : r.window with
    | nil => rfl
    | cons a w =>
      rw [hw] at this
      cases a with
      | none => simp [holes] at this
      | some y => rfl
  settled h := by
    rw [window_push hr] at h
    exact absurd h (by simp)

theorem cell_push {r : Ring α shift offset} (hr : r.Ok) {id : Nat} (hn : r.Expects (id >>> shift))
    (x : α) (n : Nat) : (r.push id x).cell n = if n = id >>> shift then some x else r.cell n := by
  unfold cell
  rw [window_push hr]
  rcases hn with hs | hs
  · have hw : r.window = [] := by simp [window, hs]
    rw [hw]
    have hb : (r.push id x).base = id >>> shift := by simp [push, hs]
    rw [hb, cellAt_append]
    simp [cellAt]
  · by_cases he : r.slots = []
    · have hw : r.window = [] := by simp [window, he]
      have hb : (r.push id x).base = id >>> shift := by simp [push, he]
      rw [hw, hb, cellAt_append]
      simp [cellAt]
    · have hb : (r.push id x).base = r.base := by simp [push, he]
      rw [hb, cellAt_append, ← live_eq, hs]

theorem Expects.push {r : Ring α shift offset} (hr : r.Ok) {id : Nat}
    (hn : r.Expects (id >>> shift)) (x : α) : (r.push id x).Expects (id >>> shift + 1) := by
  refine Or.inr ?_
  rw [live_eq, window_push hr, List.length_append, ← live_eq]
  by_cases he : r.slots = []
  · have hl : r.live = 0 := by simp [live, he]
    simp [Ring.push, he, hl]
  · have hb : (r.push id x).base = r.base := by simp [Ring.push, he]
    rcases hn with hs | hs
    · exact absurd hs he
    · rw [hb, ← hs]
      rfl

/-- Nothing is in flight at or beyond the number the next request will get. -/
theorem Expects.cell_none {r : Ring α shift offset} {m n : Nat} (hr : r.Expects m) (h : m ≤ n) :
    r.cell n = none := by
  unfold cell cellAt
  split
  · rfl
  · have hlen : r.window.length ≤ n - r.base := by
      rcases hr with hs | hs
      · simp [window, hs]
      · rw [live_eq] at hs
        omega
    rw [List.getElem?_eq_none hlen]
    rfl

end Push

section Modify

theorem cellAt_modify (b n i : Nat) (w : List (Option α)) (f : α → α) :
    cellAt b (w.modify i (Option.map f)) n =
      if n = b + i then (cellAt b w n).map f else cellAt b w n := by
  unfold cellAt
  by_cases hb : n < b
  · simp [hb]
  · rw [if_neg hb, if_neg hb, List.getElem?_modify]
    by_cases hi : i = n - b
    · rw [if_pos (show n = b + i by omega)]
      simp only [if_pos hi]
      cases w[n - b]? with
      | none => rfl
      | some c => cases c <;> rfl
    · rw [if_neg (show ¬ n = b + i by omega)]
      simp [hi]

theorem holes_modify (w : List (Option α)) (i : Nat) (f : α → α) :
    holes (w.modify i (Option.map f)) = holes w := by
  induction w generalizing i with
  | nil => simp
  | cons a w ih => cases i <;> cases a <;> simp [holes, ih]

theorem length_reduceOption_modify (w : List (Option α)) (i : Nat) (f : α → α) :
    (w.modify i (Option.map f)).reduceOption.length = w.reduceOption.length := by
  induction w generalizing i with
  | nil => simp
  | cons a w ih => cases i <;> cases a <;> simp [ih]

/-- A write through `get_mut` touches one cell of the window, or nothing. -/
theorem modify_cases (r : Ring α shift offset) (id : Nat) (f : α → α) :
    (r.get id = none ∧ r.modify id f = r) ∨
      (id &&& mask shift = offset ∧ r.base ≤ id >>> shift ∧
        (r.modify id f).window = r.window.modify (id >>> shift - r.base) (Option.map f) ∧
        (r.modify id f).slots.length = r.slots.length ∧ (r.modify id f).head = r.head ∧
        (r.modify id f).base = r.base ∧ (r.modify id f).opened = r.opened) := by
  unfold modify get
  cases hi : r.index id with
  | none => exact Or.inl ⟨rfl, rfl⟩
  | some i =>
    obtain ⟨hm, hb, rfl, _⟩ := index_eq_some hi
    refine Or.inr ⟨hm, hb, ?_, by simp, rfl, rfl, rfl⟩
    show (r.slots.modify (r.head + (id >>> shift - r.base)) (Option.map f)).drop r.head = _
    rw [List.drop_modify_of_ge _ _ _ _ (Nat.le_add_right _ _), Nat.add_sub_cancel_left]
    rfl

/-- A ring whose window differs from another's by a write to one request. -/
theorem Ok.written {r s : Ring α shift offset} {i : Nat} {f : α → α} (hr : r.Ok)
    (hw : s.window = r.window.modify i (Option.map f)) (hl : s.slots.length = r.slots.length)
    (hh : s.head = r.head) (ho : s.opened = r.opened) : s.Ok := by
  refine ⟨by rw [hh, hl]; exact hr.head_le, ?_, by rw [hw, holes_modify]; exact hr.front, ?_⟩
  · show _ = s.window.reduceOption.length
    rw [ho, hw, length_reduceOption_modify]
    exact hr.opened_eq
  · intro h
    rw [hw, List.modify_eq_nil_iff] at h
    have hs := congrArg List.length (hr.settled h)
    exact List.eq_nil_of_length_eq_zero (hl.trans hs)

theorem Expects.written {r s : Ring α shift offset} {n : Nat} (hr : r.Expects n)
    (hl : s.slots.length = r.slots.length) (hh : s.head = r.head) (hb : s.base = r.base) :
    s.Expects n := by
  rcases hr with hs | hs
  · rw [hs] at hl
    exact Or.inl (List.eq_nil_of_length_eq_zero hl)
  · exact Or.inr (by rw [live, hl, hh, hb]; exact hs)

theorem Ok.modify {r : Ring α shift offset} (hr : r.Ok) (id : Nat) (f : α → α) :
    (r.modify id f).Ok := by
  rcases modify_cases r id f with ⟨_, h⟩ | ⟨_, _, hw, hl, hh, _, ho⟩
  · rw [h]; exact hr
  · exact hr.written hw hl hh ho

@[simp] theorem len_modify (r : Ring α shift offset) (id : Nat) (f : α → α) :
    (r.modify id f).len = r.len := by
  rcases modify_cases r id f with ⟨_, h⟩ | ⟨_, _, _, _, _, _, ho⟩
  · rw [h]
  · exact ho

theorem cell_modify (r : Ring α shift offset) (id : Nat) (f : α → α) (n : Nat)
    (hm : id &&& mask shift = offset) :
    (r.modify id f).cell n = if n = id >>> shift then (r.cell n).map f else r.cell n := by
  rcases modify_cases r id f with ⟨hg, h⟩ | ⟨_, hb, hw, _, _, hbase, _⟩
  · rw [h]
    rw [get_eq_cell, if_pos hm] at hg
    split
    · rename_i hn; rw [hn, hg]; rfl
    · rfl
  · unfold cell
    rw [hw, hbase, cellAt_modify, Nat.add_sub_cancel' hb]

theorem get_modify (r : Ring α shift offset) (id j : Nat) (f : α → α) :
    (r.modify id f).get j = if j = id then (r.get j).map f else r.get j := by
  by_cases hm : id &&& mask shift = offset
  · by_cases hj : j &&& mask shift = offset
    · rw [get_eq_cell, get_eq_cell, cell_modify r id f _ hm, if_pos hj, if_pos hj]
      by_cases he : j = id
      · rw [if_pos he, if_pos (he ▸ rfl)]
      · rw [if_neg he, if_neg fun hs => he (eq_of_shift_eq hj hm hs)]
    · rw [get_eq_cell, get_eq_cell, if_neg hj, if_neg hj, Option.map_none, ite_self]
  · have hr : r.modify id f = r := by
      rcases modify_cases r id f with ⟨_, h⟩ | ⟨h, _⟩
      · exact h
      · exact absurd h hm
    have hg : r.get id = none := by rw [get_eq_cell, if_neg hm]
    rw [hr]
    split
    · rename_i he; rw [he, hg]; rfl
    · rfl

theorem isSome_get_modify (r : Ring α shift offset) (id j : Nat) (f : α → α) :
    ((r.modify id f).get j).isSome = (r.get j).isSome := by
  rw [get_modify]
  split
  · rw [Option.isSome_map]
  · rfl

theorem Expects.modify {r : Ring α shift offset} {n : Nat} (hr : r.Expects n) (id : Nat)
    (f : α → α) : (r.modify id f).Expects n := by
  rcases modify_cases r id f with ⟨_, h⟩ | ⟨_, _, _, hl, hh, hb, _⟩
  · rw [h]; exact hr
  · exact hr.written hl hh hb

theorem window_slotModify (r : Ring α shift offset) (i : Nat) (f : α → α) :
    (r.slotModify i f).window = r.window.modify i (Option.map f) := by
  show (r.slots.modify (r.head + i) (Option.map f)).drop r.head = _
  rw [List.drop_modify_of_ge _ _ _ _ (Nat.le_add_right _ _), Nat.add_sub_cancel_left]
  rfl

theorem Ok.slotModify {r : Ring α shift offset} (hr : r.Ok) (i : Nat) (f : α → α) :
    (r.slotModify i f).Ok :=
  hr.written (window_slotModify r i f) (by simp [Ring.slotModify]) rfl rfl

theorem Expects.slotModify {r : Ring α shift offset} {n : Nat} (hr : r.Expects n) (i : Nat)
    (f : α → α) : (r.slotModify i f).Expects n :=
  hr.written (by simp [Ring.slotModify]) rfl rfl

theorem cell_slotModify (r : Ring α shift offset) (i : Nat) (f : α → α) (n : Nat) :
    (r.slotModify i f).cell n = if n = r.base + i then (r.cell n).map f else r.cell n := by
  unfold cell
  rw [window_slotModify]
  exact cellAt_modify r.base n i r.window f

theorem isSome_get_slotModify (r : Ring α shift offset) (i j : Nat) (f : α → α) :
    ((r.slotModify i f).get j).isSome = (r.get j).isSome := by
  rw [get_eq_cell, get_eq_cell]
  split
  · rw [cell_slotModify]
    split
    · rw [Option.isSome_map]
    · rfl
  · rfl

end Modify

section Retire

theorem holes_append_of_pos {w : List (Option α)} (v : List (Option α)) (hw : w ≠ [])
    (hf : holes w = 0) : holes (w ++ v) = 0 := by
  cases w with
  | nil => exact absurd rfl hw
  | cons a w =>
    cases a with
    | none => simp [holes] at hf
    | some x => rfl

/-- Every request above the boundary is handed to the callback once, and counted out. -/
theorem retireAfter_spec {r : H2Ring α} (hr : r.Ok) (last : Nat) :
    (r.retireAfter last).2.Ok ∧
      r.len = (r.retireAfter last).2.len + (r.retireAfter last).1.length := by
  unfold retireAfter
  dsimp only
  split
  · exact ⟨⟨Nat.le_refl _, rfl, rfl, fun _ => rfl⟩, by
      show r.opened = 0 + r.iter.length
      rw [hr.opened_eq, Nat.zero_add]⟩
  · rename_i hn
    simp only [beq_iff_eq] at hn
    generalize hk : min ((last + 1) / 2 - r.base) r.live = k at hn
    have hkl : k ≤ r.live := by omega
    have hkw : k ≤ r.window.length := by rw [← live_eq]; exact hkl
    have hdrop : r.slots.drop (r.head + k) = r.window.drop k := by
      rw [window, List.drop_drop]
    have hsplit : r.iter.length =
        (r.window.take k).reduceOption.length + (r.window.drop k).reduceOption.length := by
      show r.window.reduceOption.length = _
      rw [← List.length_append, ← List.reduceOption_append, List.take_append_drop]
    have hmap : ∀ v : List (Option α), (v.map fun _ => (none : Option α)).reduceOption = [] := by
      intro v
      induction v with
      | nil => rfl
      | cons a v ih => simp
    have hhead : r.head + k ≤ r.slots.length := by
      unfold live at hkl
      omega
    have hwin : (r.slots.take (r.head + k) ++ (r.slots.drop (r.head + k)).map fun _ => none).drop
        r.head = r.window.take k ++ (r.window.drop k).map fun _ => none := by
      rw [List.drop_append_of_le_length (by rw [List.length_take]; omega), hdrop, window,
        List.drop_take, Nat.add_sub_cancel_left]
    have htake : r.window.take k ≠ [] := by
      intro h
      have := congrArg List.length h
      rw [List.length_take, List.length_nil] at this
      omega
    rw [hdrop] at hwin ⊢
    have hopen := hr.opened_eq
    refine ⟨⟨?_, ?_, ?_, fun h => ?_⟩, ?_⟩
    · simp only [List.length_append, List.length_take, List.length_map, List.length_drop]
      omega
    · show r.opened - _ = (List.drop r.head _).reduceOption.length
      rw [hwin, List.reduceOption_append, hmap, List.append_nil]
      omega
    · show holes (List.drop r.head _) = 0
      rw [hwin]
      refine holes_append_of_pos _ htake ?_
      have hf := hr.front
      cases hw : r.window with
      | nil => rw [hw] at htake; exact absurd (List.take_nil) htake
      | cons a w =>
        rw [hw] at hf
        cases a with
        | none => simp [holes] at hf
        | some x =>
          obtain ⟨j, rfl⟩ := Nat.exists_eq_succ_of_ne_zero hn
          rfl
    · exact absurd (List.append_eq_nil_iff.mp (hwin.symm.trans h)).1 htake
    · show r.opened = r.opened - (r.window.drop k).reduceOption.length +
        (r.window.drop k).reduceOption.length
      omega

end Retire

end Ring

end Shb
