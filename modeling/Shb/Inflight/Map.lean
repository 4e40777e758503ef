import Shb.Inflight
import Shb.Lib.Entries
import Shb.Lib.Run

/-!
# The ring is a finite map

What the worker wants of a ring is a map from stream ids to requests. `Ring.entries` reads
that map off the window, in ascending order of the ids, and each operation does to it what
the operation of the same name does to a map. The reference machine `Sheet` is such a map with
the one thing the source asks of a caller: while something is in flight, the next id is the
one after the last.
-/

namespace Shb

open Lib

variable {α : Type} {shift offset : Nat}

namespace Ring

/-! ## The entries of a window -/

/-- The entries of a window that starts at stream number `b`. -/
def entriesFrom (shift offset : Nat) : Nat → List (Option α) → Entries α
  | _, [] => []
  | b, none :: w => entriesFrom shift offset (b + 1) w
  | b, some x :: w => (b * 2 ^ shift + offset, x) :: entriesFrom shift offset (b + 1) w

/-- The requests in flight with their stream ids. -/
def entries (r : Ring α shift offset) : Entries α := entriesFrom shift offset r.base r.window

section Ids

theorem and_mask (id : Nat) : id &&& mask shift = id % 2 ^ shift :=
  Nat.and_two_pow_sub_one_eq_mod id shift

/-- An id is its stream number and what the protocol leaves below the shift. -/
theorem id_eq {id : Nat} (h : id &&& mask shift = offset) :
    (id >>> shift) * 2 ^ shift + offset = id := by
  rw [and_mask] at h
  rw [← h, Nat.shiftRight_eq_div_pow, Nat.mul_comm]
  exact Nat.div_add_mod id (2 ^ shift)

variable (ho : offset ≤ mask shift)

include ho

theorem id_and_mask (n : Nat) : (n * 2 ^ shift + offset) &&& mask shift = offset := by
  have hpos : 0 < 2 ^ shift := Nat.two_pow_pos shift
  rw [and_mask, Nat.add_comm, Nat.add_mul_mod_self_right]
  refine Nat.mod_eq_of_lt ?_
  unfold mask at ho
  omega

theorem id_shift (n : Nat) : (n * 2 ^ shift + offset) >>> shift = n := by
  have hpos : 0 < 2 ^ shift := Nat.two_pow_pos shift
  rw [Nat.shiftRight_eq_div_pow, Nat.add_comm, Nat.add_mul_div_right _ _ hpos,
    Nat.div_eq_of_lt (by unfold mask at ho; omega), Nat.zero_add]

end Ids

theorem cellAt_cons_some (b n : Nat) (x : α) (w : List (Option α)) :
    cellAt b (some x :: w) n = if n = b then some x else cellAt (b + 1) w n := by
  by_cases hn : n = b
  · subst hn
    simp [cellAt]
  · rw [if_neg hn, ← cellAt_cons_none]
    unfold cellAt
    split
    · rfl
    · rw [show n - b = (n - (b + 1)) + 1 by omega, List.getElem?_cons_succ,
        List.getElem?_cons_succ]

theorem cellAt_of_lt {b n : Nat} (h : n < b) (w : List (Option α)) : cellAt b w n = none :=
  if_pos h

theorem mem_entriesFrom {id : Nat} {x : α} :
    ∀ {b : Nat} {w : List (Option α)}, (id, x) ∈ entriesFrom shift offset b w ↔
      ∃ n, id = n * 2 ^ shift + offset ∧ cellAt b w n = some x
  | b, [] => by simp [entriesFrom, cellAt]
  | b, none :: w => by
    rw [entriesFrom, mem_entriesFrom]
    simp only [cellAt_cons_none]
  | b, some y :: w => by
    rw [entriesFrom, List.mem_cons, mem_entriesFrom, Prod.mk.injEq]
    simp only [cellAt_cons_some]
    constructor
    · rintro (⟨rfl, rfl⟩ | ⟨n, rfl, hn⟩)
      · exact ⟨b, rfl, if_pos rfl⟩
      · refine ⟨n, rfl, ?_⟩
        rw [if_neg, hn]
        rintro rfl
        rw [cellAt_of_lt (Nat.lt_succ_self _)] at hn
        exact absurd hn (by simp)
    · rintro ⟨n, rfl, hn⟩
      by_cases hb : n = b
      · rw [if_pos hb, Option.some.injEq] at hn
        exact Or.inl ⟨by rw [hb], hn.symm⟩
      · rw [if_neg hb] at hn
        exact Or.inr ⟨n, rfl, hn⟩

theorem values_entriesFrom : ∀ (b : Nat) (w : List (Option α)),
    (entriesFrom shift offset b w).values = w.reduceOption
  | _, [] => rfl
  | b, none :: w => values_entriesFrom (b + 1) w
  | b, some x :: w => congrArg (x :: ·) (values_entriesFrom (b + 1) w)

theorem entriesFrom_append : ∀ (b : Nat) (v w : List (Option α)),
    entriesFrom shift offset b (v ++ w) =
      entriesFrom shift offset b v ++ entriesFrom shift offset (b + v.length) w
  | _, [], _ => rfl
  | b, none :: v, w => by
    rw [List.cons_append, entriesFrom, entriesFrom, entriesFrom_append (b + 1) v w,
      List.length_cons, Nat.add_right_comm, Nat.add_assoc]
  | b, some x :: v, w => by
    rw [List.cons_append, entriesFrom, entriesFrom, entriesFrom_append (b + 1) v w,
      List.length_cons, Nat.add_right_comm, Nat.add_assoc, List.cons_append]

theorem entriesFrom_take_drop (b k : Nat) (w : List (Option α)) :
    entriesFrom shift offset b w = entriesFrom shift offset b (w.take k) ++
      entriesFrom shift offset (b + k) (w.drop k) := by
  rcases Nat.le_total k w.length with hk | hk
  · have hsplit : entriesFrom shift offset b (w.take k ++ w.drop k) = _ := entriesFrom_append b _ _
    rwa [List.take_append_drop, List.length_take_of_le hk] at hsplit
  · rw [List.drop_eq_nil_of_le hk, List.take_of_length_le hk]
    exact (List.append_nil _).symm

theorem entriesFrom_holes : ∀ (b : Nat) (w : List (Option α)),
    entriesFrom shift offset b (w.map fun _ => (none : Option α)) = []
  | _, [] => rfl
  | b, _ :: w => entriesFrom_holes (b + 1) w

theorem number_of_mem {e : Nat × α} : ∀ {b : Nat} {w : List (Option α)},
    e ∈ entriesFrom shift offset b w →
      ∃ n, e.1 = n * 2 ^ shift + offset ∧ b ≤ n ∧ n < b + w.length := by
  intro b w he
  obtain ⟨n, hid, hn⟩ := mem_entriesFrom.mp he
  refine ⟨n, hid, ?_, ?_⟩
  · by_contra hlt
    rw [cellAt_of_lt (Nat.not_le.mp hlt)] at hn
    exact absurd hn (by simp)
  · by_contra hle
    unfold cellAt at hn
    split at hn
    · exact absurd hn (by simp)
    · rw [List.getElem?_eq_none (by omega)] at hn
      exact absurd hn (by simp)

theorem number_lt {m n : Nat} (h : m < n) : m * 2 ^ shift + offset < n * 2 ^ shift + offset :=
  Nat.add_lt_add_right (Nat.mul_lt_mul_of_pos_right h (Nat.two_pow_pos shift)) offset

theorem ascending_entriesFrom : ∀ (b : Nat) (w : List (Option α)),
    (entriesFrom shift offset b w).Ascending
  | _, [] => List.Pairwise.nil
  | b, none :: w => ascending_entriesFrom (b + 1) w
  | b, some x :: w => by
    refine List.pairwise_cons.mpr ⟨fun e he => ?_, ascending_entriesFrom (b + 1) w⟩
    obtain ⟨n, hid, hb, _⟩ := number_of_mem he
    rw [hid]
    exact number_lt hb

variable (r : Ring α shift offset)

theorem ascending_entries : r.entries.Ascending :=
  ascending_entriesFrom _ _

/-- Iteration is in ascending order of the ids. -/
theorem iter_eq : r.iter = r.entries.values :=
  (values_entriesFrom r.base r.window).symm

theorem slots_eq : (List.range r.slotCount).filterMap r.slot = r.entries.values := by
  have hslot : ∀ i, r.slot i = (r.window[i]?).join := by
    intro i
    rw [slot, window, List.getElem?_drop]
  have hrange : (List.range r.window.length).filterMap (fun i => (r.window[i]?).join) =
      r.window.reduceOption := by
    generalize r.window = w
    induction w with
    | nil => rfl
    | cons a w ih =>
      rw [List.length_cons, List.range_succ_eq_map, List.filterMap_cons, List.filterMap_map]
      have hih : (List.range w.length).filterMap ((fun i => ((a :: w)[i]?).join) ∘ Nat.succ) =
          w.reduceOption := ih
      rw [hih]
      cases a <;> rfl
  rw [slotCount, live_eq, funext hslot, hrange]
  exact (values_entriesFrom r.base r.window).symm

section Map

variable (ho : offset ≤ mask shift)

include ho

variable (r : Ring α shift offset)

theorem mem_entries {id : Nat} {x : α} : (id, x) ∈ r.entries ↔ r.get id = some x := by
  refine mem_entriesFrom.trans ⟨?_, fun h => ?_⟩
  · rintro ⟨n, rfl, hn⟩
    rw [get_eq_cell, if_pos (id_and_mask ho n), id_shift ho n]
    exact hn
  · rw [get_eq_cell] at h
    split at h
    · rename_i hm
      exact ⟨id >>> shift, (id_eq hm).symm, h⟩
    · exact absurd h (by simp)

/-- A lookup finds what the map has under the id. -/
theorem get_eq_lookup (id : Nat) : r.get id = r.entries.lookup id := by
  refine Option.ext fun x => ?_
  rw [(ascending_entries r).lookup_eq_some, mem_entries ho]

theorem entries_take (id : Nat) : (r.take id).2.entries = r.entries.erase id := by
  refine (ascending_entries _).ext ((ascending_entries r).filter _) fun j x => ?_
  rw [Entries.mem_erase, mem_entries ho, mem_entries ho]
  by_cases hj : j = id
  · subst hj
    rw [get_take_self]
    simp
  · rw [get_take_of_ne r hj]
    simp [hj]

theorem entries_modify (id : Nat) (f : α → α) :
    (r.modify id f).entries = r.entries.adjust id f := by
  refine (ascending_entries _).ext ((ascending_entries r).adjust id f) fun j x => ?_
  rw [Entries.mem_adjust, mem_entries ho, get_modify]
  simp only [mem_entries ho]
  split
  · rw [Option.map_eq_some_iff]
    exact exists_congr fun y => and_congr_right fun _ => eq_comm
  · simp

end Map

/-- A ring that holds nothing has no slots. -/
theorem Ok.slots_eq_nil {r : Ring α shift offset} (hr : r.Ok) (h : r.len = 0) : r.slots = [] := by
  refine hr.settled ?_
  have hiter : r.window.reduceOption = [] := List.length_eq_zero_iff.mp (hr.opened_eq.symm.trans h)
  have hf := hr.front
  cases hw : r.window with
  | nil => rfl
  | cons a w =>
    rw [hw] at hiter hf
    cases a with
    | none => simp [holes] at hf
    | some x => simp at hiter

theorem get_of_slots_nil {r : Ring α shift offset} (h : r.slots = []) (id : Nat) :
    r.get id = none := by
  rw [get_eq_cell, cell, cellAt, window, h]
  simp

theorem Ok.entries_eq_nil {r : Ring α shift offset} (hr : r.Ok) (h : r.entries = []) :
    r.slots = [] := by
  refine hr.slots_eq_nil (hr.opened_eq.trans ?_)
  rw [iter_eq, h]
  rfl

/-- The number after the last is beyond everything in flight. -/
theorem entries_push {r : Ring α shift offset} (hr : r.Ok) {id : Nat}
    (hm : id &&& mask shift = offset) (hn : r.Expects (id >>> shift)) (x : α) :
    (r.push id x).entries = r.entries.insert id x := by
  have hid := id_eq hm
  have hnum : (r.push id x).base + r.window.length = id >>> shift := by
    by_cases he : r.slots = []
    · simp [push, window, he]
    · rcases hn with hs | hs
      · exact absurd hs he
      · rw [← live_eq, ← hs]
        simp [push, he]
  have hbase : entriesFrom shift offset (r.push id x).base r.window = r.entries := by
    by_cases he : r.slots = []
    · simp [entries, window, he, entriesFrom]
    · simp [entries, push, he]
  have happend : (r.push id x).entries = r.entries ++ [(id, x)] := by
    rw [entries, window_push hr, entriesFrom_append, hbase, hnum]
    simp only [entriesFrom, hid]
  rw [happend]
  refine (Entries.insert_of_lt (fun e he => ?_) x).symm
  rw [← hbase] at he
  obtain ⟨n, hen, _, hlt⟩ := number_of_mem he
  rw [hen, ← hid]
  exact number_lt (hnum ▸ hlt)

theorem get_push {r : Ring α shift offset} (hr : r.Ok) {id : Nat}
    (hm : id &&& mask shift = offset) (hn : r.Expects (id >>> shift)) (x : α) (j : Nat) :
    (r.push id x).get j = if j = id then some x else r.get j := by
  by_cases hj : j &&& mask shift = offset
  · rw [get_eq_cell, get_eq_cell, if_pos hj, if_pos hj, cell_push hr hn]
    by_cases he : j = id
    · rw [if_pos he, if_pos (he ▸ rfl)]
    · rw [if_neg he, if_neg fun hs => he (eq_of_shift_eq hj hm hs)]
  · have hne : j ≠ id := fun he => hj (he ▸ hm)
    rw [get_eq_cell, get_eq_cell, if_neg hj, if_neg hj, if_neg hne]

section Live

theorem window_mapLive {r : Ring α shift offset} (hr : r.Ok) (f : α → α) :
    (r.mapLive f).window = r.window.map (Option.map f) := by
  show (r.slots.take r.head ++ r.window.map (Option.map f)).drop r.head = _
  have hlen : (r.slots.take r.head).length = r.head := List.length_take_of_le hr.head_le
  rw [List.drop_append, hlen, Nat.sub_self, List.drop_zero,
    List.drop_eq_nil_of_le (Nat.le_of_eq hlen), List.nil_append]

theorem cellAt_map (b n : Nat) (w : List (Option α)) (f : α → α) :
    cellAt b (w.map (Option.map f)) n = (cellAt b w n).map f := by
  unfold cellAt
  split
  · rfl
  · rw [List.getElem?_map]
    cases w[n - b]? with
    | none => rfl
    | some c => cases c <;> rfl

theorem get_mapLive {r : Ring α shift offset} (hr : r.Ok) (f : α → α) (j : Nat) :
    (r.mapLive f).get j = (r.get j).map f := by
  rw [get_eq_cell, get_eq_cell]
  split
  · rw [cell, window_mapLive hr]
    exact cellAt_map _ _ _ _
  · rfl

theorem length_slots_mapLive (r : Ring α shift offset) (f : α → α) :
    (r.mapLive f).slots.length = r.slots.length := by
  show (_ ++ _ : List (Option α)).length = _
  rw [List.length_append, List.length_map, ← List.length_append, List.take_append_drop]

theorem Ok.mapLive {r : Ring α shift offset} (hr : r.Ok) (f : α → α) : (r.mapLive f).Ok := by
  have hwin := window_mapLive hr f
  have hlen := length_slots_mapLive r f
  refine ⟨?_, ?_, ?_, fun h => ?_⟩
  · rw [hlen]
    exact hr.head_le
  · show r.opened = (r.mapLive f).window.reduceOption.length
    rw [hwin, hr.opened_eq, List.reduceOption_map, List.length_map]
    rfl
  · rw [hwin]
    have hf := hr.front
    cases hw : r.window with
    | nil => rfl
    | cons a w =>
      rw [hw] at hf
      cases a with
      | none => simp [holes] at hf
      | some x => rfl
  · rw [hwin, List.map_eq_nil_iff] at h
    have hs := congrArg List.length (hr.settled h)
    exact List.eq_nil_of_length_eq_zero (hlen.trans hs)

theorem Expects.mapLive {r : Ring α shift offset} {n : Nat} (hr : r.Expects n) (f : α → α) :
    (r.mapLive f).Expects n :=
  hr.written (length_slots_mapLive r f) rfl rfl

/-- A write by position changes one request, or nothing. -/
theorem get_slotModify (r : Ring α shift offset) (i j : Nat) (f : α → α) :
    (r.slotModify i f).get j = if j >>> shift = r.base + i then (r.get j).map f else r.get j := by
  rw [get_eq_cell, get_eq_cell, cell_slotModify]
  by_cases hj : j &&& mask shift = offset
  · rw [if_pos hj, if_pos hj]
  · rw [if_neg hj, if_neg hj, Option.map_none, ite_self]

end Live

section Retire

variable {r : H2Ring α}

/-- The stream numbers below a GOAWAY's boundary are the ids up to it. -/
theorem survivors_le (r : H2Ring α) {last k : Nat} (hk : r.base + k ≤ (last + 1) / 2 ∨ k = 0) :
    ∀ e ∈ entriesFrom 1 1 r.base (r.window.take k), e.1 ≤ last := by
  intro e he
  obtain ⟨n, hid, hb, hlt⟩ := number_of_mem he
  rw [List.length_take] at hlt
  omega

theorem lt_retired (r : H2Ring α) {last k : Nat} (hk : (last + 1) / 2 ≤ r.base + k ∨ r.live ≤ k) :
    ∀ e ∈ entriesFrom 1 1 (r.base + k) (r.window.drop k), last < e.1 := by
  intro e he
  obtain ⟨n, hid, hb, hlt⟩ := number_of_mem he
  rw [List.length_drop] at hlt
  rw [live_eq] at hk
  omega

theorem retireAfter_entries (hr : r.Ok) (last : Nat) :
    (r.retireAfter last).1 = (r.entries.above last).values ∧
      (r.retireAfter last).2.entries = r.entries.upTo last := by
  generalize hk : min ((last + 1) / 2 - r.base) r.live = k
  have hlow := survivors_le r (show r.base + k ≤ (last + 1) / 2 ∨ k = 0 by omega)
  have hhigh := lt_retired r (show (last + 1) / 2 ≤ r.base + k ∨ r.live ≤ k by omega)
  rw [show r.entries = _ from entriesFrom_take_drop r.base k r.window,
    Entries.above_append hlow hhigh, Entries.upTo_append hlow hhigh]
  unfold retireAfter
  dsimp only
  rw [hk]
  split
  · rename_i h0
    rw [beq_iff_eq] at h0
    subst h0
    exact ⟨(values_entriesFrom _ _).symm, rfl⟩
  · refine ⟨?_, ?_⟩
    · rw [values_entriesFrom, window, List.drop_drop]
    · have hhead : r.head + k ≤ r.slots.length := by
        have := hr.head_le
        unfold live at hk
        omega
      have hwin : (r.slots.take (r.head + k) ++ (r.slots.drop (r.head + k)).map fun _ => none).drop
          r.head = r.window.take k ++ (r.window.drop k).map fun _ => none := by
        rw [List.drop_append_of_le_length (by rw [List.length_take]; omega), window,
          List.drop_take, Nat.add_sub_cancel_left, List.drop_drop]
      show entriesFrom 1 1 r.base (List.drop r.head _) = _
      rw [hwin, entriesFrom_append, entriesFrom_holes, List.append_nil]

/-- Everything up to the boundary is still found, and nothing beyond it is. -/
theorem get_retireAfter (hr : r.Ok) (last j : Nat) :
    (r.retireAfter last).2.get j = if j ≤ last then r.get j else none := by
  refine Option.ext fun x => ?_
  have hmask : 1 ≤ mask 1 := by decide
  rw [← mem_entries hmask, (retireAfter_entries hr last).2, Entries.upTo, List.mem_filter,
    mem_entries hmask, decide_eq_true_eq]
  by_cases hj : j ≤ last
  · rw [if_pos hj]
    exact ⟨fun h => h.1, fun h => ⟨h, hj⟩⟩
  · rw [if_neg hj]
    exact ⟨fun h => absurd h.2 hj, fun h => absurd h (by simp)⟩

/-- The suffix keeps its empty slots, so the next id still lands at its own position. -/
theorem Expects.retireAfter {n : Nat} (hr : r.Expects n) (last : Nat) :
    (r.retireAfter last).2.Expects n := by
  unfold Ring.retireAfter
  dsimp only
  split
  · exact Or.inl rfl
  · refine hr.imp (fun h => ?_) (fun h => ?_)
    · simp [h]
    · show r.base + (List.length (_ ++ _) - r.head) = n
      rw [List.length_append, List.length_map, ← List.length_append, List.take_append_drop]
      exact h

end Retire

end Ring

/-! ## The reference map -/

/-- What the ring is for: the requests in flight under their ids, and the id opened last. -/
structure Sheet (α : Type) where
  entries : Entries α
  last : Nat

inductive Ring.Op (α : Type) where
  | push (id : Nat) (item : α)
  /-- A lookup, with what the caller writes through it. -/
  | getMut (id : Nat) (f : α → α)
  | take (id : Nat)
  | clear

/-- The operations of the HTTP/2 ring. -/
inductive H2Ring.Op (α : Type) where
  | op (o : Ring.Op α)
  | retireAfter (last : Nat)

inductive Ring.Reply (α : Type) where
  | done
  | item (x : Option α)
  | items (xs : List α)

def Ring.step (r : Ring α shift offset) : Ring.Op α → Option (Ring.Reply α × Ring α shift offset)
  | .push id x => some (.done, r.push id x)
  | .getMut id f => some (.item (r.get id), r.modify id f)
  | .take id => some (.item (r.take id).1, (r.take id).2)
  | .clear => some (.done, r.clear)

def H2Ring.step (r : H2Ring α) : H2Ring.Op α → Option (Ring.Reply α × H2Ring α)
  | .op o => Ring.step r o
  | .retireAfter last => some (.items (r.retireAfter last).1, (r.retireAfter last).2)

namespace Sheet

def new : Sheet α := ⟨[], 0⟩

/-- Ids come in the ring's residue and, while something is in flight, one after another. -/
def Next (shift offset : Nat) (m : Sheet α) (id : Nat) : Prop :=
  id % 2 ^ shift = offset ∧ (m.entries ≠ [] → id = m.last + 2 ^ shift)

instance (shift offset : Nat) (m : Sheet α) (id : Nat) : Decidable (Next shift offset m id) :=
  decidable_of_iff (id % 2 ^ shift = offset ∧ (m.entries.isEmpty = false → id = m.last + 2 ^ shift))
    (by simp [Next])

/-- The operations as a map has them; a `push` out of turn is refused. -/
def step (shift offset : Nat) (m : Sheet α) : Ring.Op α → Option (Ring.Reply α × Sheet α)
  | .push id x =>
    if Next shift offset m id then some (.done, ⟨m.entries.insert id x, id⟩) else none
  | .getMut id f => some (.item (m.entries.lookup id), { m with entries := m.entries.adjust id f })
  | .take id => some (.item (m.entries.lookup id), { m with entries := m.entries.erase id })
  | .clear => some (.done, { m with entries := [] })

def h2Step (m : Sheet α) : H2Ring.Op α → Option (Ring.Reply α × Sheet α)
  | .op o => step 1 1 m o
  | .retireAfter last =>
    some (.items (m.entries.above last).values, { m with entries := m.entries.upTo last })

end Sheet

/-- A ring and the map it stands for. -/
structure Ring.Holds (r : Ring α shift offset) (m : Sheet α) : Prop where
  ok : r.Ok
  entries : r.entries = m.entries
  expects : m.entries ≠ [] → r.Expects (m.last >>> shift + 1)

/-- What a caller can see of a ring, in terms of the map. -/
structure Ring.Shows (r : Ring α shift offset) (m : Entries α) : Prop where
  ascending : m.Ascending
  lookup : ∀ id, r.get id = m.lookup id
  len : r.len = m.length
  iter : r.iter = m.values
  slots : (List.range r.slotCount).filterMap r.slot = m.values
  front : m ≠ [] → ∃ x, r.slots[r.head]? = some (some x)

namespace Ring

theorem holds_new : (new : Ring α shift offset).Holds Sheet.new where
  ok := new_ok
  entries := rfl
  expects h := absurd rfl h

theorem Holds.shows (ho : offset ≤ mask shift) {r : Ring α shift offset} {m : Sheet α}
    (h : r.Holds m) : r.Shows m.entries where
  ascending := h.entries ▸ ascending_entries r
  lookup id := h.entries ▸ get_eq_lookup ho r id
  len := by
    rw [len, h.ok.opened_eq, iter_eq, h.entries]
    exact List.length_map _
  iter := h.entries ▸ iter_eq r
  slots := h.entries ▸ slots_eq r
  front hne := by
    have hf := h.ok.front
    cases hw : r.window with
    | nil =>
      refine absurd ?_ hne
      rw [← h.entries, Ring.entries, hw]
      rfl
    | cons a w =>
      rw [hw] at hf
      cases a with
      | none => simp [holes] at hf
      | some x =>
        refine ⟨x, ?_⟩
        have hget : r.window[0]? = some (some x) := by rw [hw]; rfl
        rwa [window, List.getElem?_drop, Nat.add_zero] at hget

theorem Holds.push {r : Ring α shift offset} {m : Sheet α} (h : r.Holds m) {id : Nat}
    (hn : m.Next shift offset id) (x : α) : (r.push id x).Holds ⟨m.entries.insert id x, id⟩ := by
  have hm : id &&& mask shift = offset := (and_mask id).trans hn.1
  have hexp : r.Expects (id >>> shift) := by
    by_cases he : m.entries = []
    · exact Or.inl (h.ok.entries_eq_nil (h.entries.trans he))
    · have hshift : id >>> shift = m.last >>> shift + 1 := by
        rw [hn.2 he, Nat.shiftRight_eq_div_pow, Nat.shiftRight_eq_div_pow,
          Nat.add_div_right _ (Nat.two_pow_pos shift)]
      exact hshift ▸ h.expects he
  exact ⟨h.ok.push id x, h.entries ▸ entries_push h.ok hm hexp x, fun _ => hexp.push h.ok x⟩

/-- A step of the map is a step of the ring with the same answer. -/
theorem Holds.step (ho : offset ≤ mask shift) {r : Ring α shift offset} {m m' : Sheet α}
    {o : Op α} {reply : Reply α} (h : r.Holds m) (hs : m.step shift offset o = some (reply, m')) :
    ∃ r', r.step o = some (reply, r') ∧ r'.Holds m' := by
  cases o with
  | push id x =>
    simp only [Sheet.step] at hs
    split at hs
    · rename_i hn
      cases hs
      exact ⟨_, rfl, h.push hn x⟩
    · exact absurd hs (by simp)
  | getMut id f =>
    cases hs
    refine ⟨r.modify id f, ?_, h.ok.modify id f, ?_, fun hne => ?_⟩
    · rw [Ring.step, get_eq_lookup ho, h.entries]
    · rw [entries_modify ho, h.entries]
    · refine (h.expects fun hnil => hne ?_).modify id f
      rw [hnil]
      rfl
  | take id =>
    cases hs
    refine ⟨(r.take id).2, ?_, h.ok.take id, ?_, fun hne => ?_⟩
    · rw [Ring.step, take_fst, get_eq_lookup ho, h.entries]
    · rw [entries_take ho, h.entries]
    · refine (h.expects fun hnil => hne ?_).take id
      rw [hnil]
      rfl
  | clear =>
    cases hs
    exact ⟨r.clear, rfl, new_ok, rfl, fun hne => absurd rfl hne⟩

theorem Holds.h2Step {r : H2Ring α} {m m' : Sheet α} {o : H2Ring.Op α} {reply : Reply α}
    (h : r.Holds m) (hs : m.h2Step o = some (reply, m')) :
    ∃ r', H2Ring.step r o = some (reply, r') ∧ r'.Holds m' := by
  cases o with
  | op o => exact h.step (by decide) hs
  | retireAfter last =>
    cases hs
    obtain ⟨hout, hleft⟩ := retireAfter_entries h.ok last
    refine ⟨(r.retireAfter last).2, ?_, (retireAfter_spec h.ok last).1, ?_, fun hne => ?_⟩
    · rw [H2Ring.step, hout, h.entries]
    · rw [hleft, h.entries]
    · refine (h.expects fun hnil => hne ?_).retireAfter last
      rw [hnil]
      rfl

/-- **The in-flight ring is a finite map.** Whatever is pushed in turn, looked up, taken,
cleared and, over HTTP/2, retired by a GOAWAY: every answer is the map's, and so is everything
that can be seen of the ring afterwards. -/
theorem ring_is_a_map :
    (∀ (shift offset : Nat) (ops : List (Op α)) (replies : List (Reply α)) (m : Sheet α),
      offset ≤ mask shift →
      answers (Sheet.step shift offset) Sheet.new ops = some (replies, m) →
      ∃ r : Ring α shift offset, answers Ring.step new ops = some (replies, r) ∧
        r.Shows m.entries) ∧
    ∀ (ops : List (H2Ring.Op α)) (replies : List (Reply α)) (m : Sheet α),
      answers Sheet.h2Step Sheet.new ops = some (replies, m) →
      ∃ r : H2Ring α, answers H2Ring.step new ops = some (replies, r) ∧ r.Shows m.entries := by
  refine ⟨fun shift offset ops replies m ho hrun => ?_, fun ops replies m hrun => ?_⟩
  · obtain ⟨r, hr, hh⟩ := answers_simulation (fun h hs => h.step ho hs) holds_new hrun
    exact ⟨r, hr, hh.shows ho⟩
  · obtain ⟨r, hr, hh⟩ := answers_simulation (fun h hs => h.h2Step hs) holds_new hrun
    exact ⟨r, hr, hh.shows (by decide)⟩

/-- A GOAWAY for stream 4 between three requests, and the next id after it. -/
theorem ring_is_a_map_goaway :
    ∃ r : H2Ring Nat, answers H2Ring.step new
        [.op (.push 1 10), .op (.push 3 30), .op (.push 5 50), .retireAfter 4, .op (.push 7 70),
          .op (.take 1), .op (.take 5), .op (.getMut 7 (· + 1))] =
        some ([.done, .done, .done, .items [50], .done, .item (some 10), .item none,
          .item (some 70)], r) ∧ r.Shows [(3, 30), (7, 71)] :=
  ring_is_a_map.2 _ _ ⟨[(3, 30), (7, 71)], 7⟩ rfl

end Ring

end Shb
