import Mathlib.Logic.Relation
import Shb.Inflight.Map
import Shb.Http2.Worker
import Shb.Http3.Drive

/-!
# The oldest request decides the timeout

`timed_out` looks at slot zero of the in-flight ring and nowhere else. That is enough because
of two things the ring keeps through every operation: slot zero is never a hole while anything
is in flight, and the requests lie in it in the order they were started in. The clock only
goes forward, so the request in front has waited longest.

`Tick` lists what happens to a ring between two looks at it. What a request carries besides
its start may be written at any time.
-/

namespace Shb

open Lib

variable {α : Type} {shift offset : Nat}

/-- A ring of requests and the time of the last start. -/
abbrev Clocked (α : Type) (shift offset : Nat) := Ring α shift offset × Nat

/-- What happens to a ring: a start, not before the last one, a write to a request,
a request that is over, or all of them at once. -/
inductive Tick (start : α → Nat) : Clocked α shift offset → Clocked α shift offset → Prop
  | start {r : Ring α shift offset} {clock : Nat} (id : Nat) (x : α) (hclock : clock ≤ start x) :
      Tick start (r, clock) (r.push id x, start x)
  | update {r : Ring α shift offset} {clock : Nat} (id : Nat) {f : α → α}
      (hf : ∀ x, start (f x) = start x) : Tick start (r, clock) (r.modify id f, clock)
  | complete {r : Ring α shift offset} {clock : Nat} (id : Nat) :
      Tick start (r, clock) ((r.take id).2, clock)
  | clear {r : Ring α shift offset} {clock : Nat} : Tick start (r, clock) (r.clear, clock)

/-- Over HTTP/2 a GOAWAY takes everything beyond its last stream at once. -/
inductive H2Tick (start : α → Nat) : Clocked α 1 1 → Clocked α 1 1 → Prop
  | tick {t t' : Clocked α 1 1} (h : Tick start t t') : H2Tick start t t'
  | goaway {r : H2Ring α} {clock : Nat} (last : Nat) :
      H2Tick start (r, clock) ((r.retireAfter last).2, clock)

/-- The requests lie in the order of their starts, none of them after the clock. -/
structure InOrder (start : α → Nat) (t : Clocked α shift offset) : Prop where
  ok : t.1.Ok
  sorted : (t.1.iter.map start).Pairwise (· ≤ ·)
  started : ∀ x ∈ t.1.iter, start x ≤ t.2

namespace InOrder

variable {start : α → Nat}

theorem new (clock : Nat) : InOrder start ((Ring.new, clock) : Clocked α shift offset) where
  ok := Ring.new_ok
  sorted := List.Pairwise.nil
  started _ hx := absurd hx List.not_mem_nil

variable {clock : Nat} {r : Ring α shift offset}

section

variable (h : InOrder start (r, clock))
include h

/-- Requests that leave, leave the others in order. -/
theorem sublist {s : Ring α shift offset} (hok : s.Ok)
    (hsub : s.iter.Sublist r.iter) : InOrder start (s, clock) where
  ok := hok
  sorted := h.sorted.sublist (hsub.map start)
  started x hx := h.started x (hsub.subset hx)

theorem push {id : Nat} {x : α} (hclock : clock ≤ start x) :
    InOrder start (r.push id x, start x) := by
  have hiter : (r.push id x).iter = r.iter ++ [x] := by
    show (r.push id x).window.reduceOption = _
    rw [Ring.window_push h.ok, List.reduceOption_append]
    rfl
  have hbefore : ∀ y ∈ r.iter, start y ≤ start x := fun y hy => Nat.le_trans (h.started y hy) hclock
  refine ⟨h.ok.push id x, ?_, fun y hy => ?_⟩
  · rw [hiter, List.map_append, List.pairwise_append]
    refine ⟨h.sorted, List.pairwise_singleton _ _, fun a ha b hb => ?_⟩
    obtain ⟨y, hy, rfl⟩ := List.mem_map.mp ha
    rw [List.map_singleton, List.mem_singleton] at hb
    exact hb ▸ hbefore y hy
  · rw [hiter, List.mem_append, List.mem_singleton] at hy
    rcases hy with hy | rfl
    · exact hbefore y hy
    · exact Nat.le_refl _

/-- A write that leaves the starts alone leaves the order. -/
theorem modify (ho : offset ≤ Ring.mask shift) (id : Nat)
    {f : α → α} (hf : ∀ x, start (f x) = start x) : InOrder start (r.modify id f, clock) := by
  have hstarts : (r.modify id f).iter.map start = r.iter.map start := by
    rw [Ring.iter_eq, Ring.entries_modify ho, Ring.iter_eq, Entries.values, Entries.values,
      Entries.adjust, List.map_map, List.map_map, List.map_map]
    refine List.map_congr_left fun e _ => ?_
    simp only [Function.comp_apply]
    split
    · exact hf e.2
    · rfl
  refine ⟨h.ok.modify id f, hstarts ▸ h.sorted, fun x hx => ?_⟩
  have hmem : start x ∈ r.iter.map start := hstarts ▸ List.mem_map_of_mem hx
  obtain ⟨y, hy, heq⟩ := List.mem_map.mp hmem
  exact heq ▸ h.started y hy

theorem take (ho : offset ≤ Ring.mask shift) (id : Nat) : InOrder start ((r.take id).2, clock) := by
  refine h.sublist (h.ok.take id) ?_
  rw [Ring.iter_eq, Ring.iter_eq, Ring.entries_take ho]
  exact List.filter_sublist.map Prod.snd

end

theorem retireAfter {r : H2Ring α} (h : InOrder start (r, clock)) (last : Nat) :
    InOrder start ((r.retireAfter last).2, clock) := by
  refine h.sublist (Ring.retireAfter_spec h.ok last).1 ?_
  rw [Ring.iter_eq, Ring.iter_eq, (Ring.retireAfter_entries h.ok last).2]
  exact List.filter_sublist.map Prod.snd

theorem tick {t t' : Clocked α shift offset} (ho : offset ≤ Ring.mask shift)
    (h : InOrder start t) (ht : Tick start t t') : InOrder start t' := by
  cases ht with
  | start id x hclock => exact h.push hclock
  | update id hf => exact h.modify ho id hf
  | complete id => exact h.take ho id
  | clear => exact new _

theorem h2Tick {t t' : Clocked α 1 1} (h : InOrder start t) (ht : H2Tick start t t') :
    InOrder start t' := by
  cases ht with
  | tick ht => exact h.tick (by decide) ht
  | goaway last => exact h.retireAfter last

/-- What each step keeps, any number of them keep. -/
theorem steps {R : Clocked α shift offset → Clocked α shift offset → Prop}
    (hstep : ∀ {t t'}, InOrder start t → R t t' → InOrder start t') {t t' : Clocked α shift offset}
    (h : InOrder start t) (hrun : Relation.ReflTransGen R t t') : InOrder start t' := by
  induction hrun with
  | refl => exact h
  | tail _ hlast ih => exact hstep ih hlast

end InOrder

/-- Slot zero is the request in front. -/
theorem Ring.Ok.slot_zero {r : Ring α shift offset} (h : r.Ok) : r.slot 0 = r.iter.head? := by
  have hslot : r.slot 0 = (r.window[0]?).join := by
    rw [slot, window, List.getElem?_drop]
  have hfront := h.front
  rw [hslot]
  show _ = r.window.reduceOption.head?
  cases hw : r.window with
  | nil => rfl
  | cons a w =>
    rw [hw] at hfront
    cases a with
    | none => simp [holes] at hfront
    | some x => rfl

/-- The request in slot zero has waited as long as any: it is past the limit exactly when one
in flight is. -/
theorem InOrder.expired_iff {start : α → Nat} {t : Clocked α shift offset} (h : InOrder start t)
    (ho : offset ≤ Ring.mask shift) {now : Nat} (hnow : t.2 ≤ now) (limit : Nat) {oldest : α}
    (hslot : t.1.slot 0 = some oldest) :
    limit ≤ now - start oldest ↔ ∃ id x, t.1.get id = some x ∧ start x + limit ≤ now := by
  have hmem : ∀ x, x ∈ t.1.iter ↔ ∃ id, t.1.get id = some x := by
    intro x
    rw [Ring.iter_eq, Entries.values, List.mem_map]
    constructor
    · rintro ⟨⟨id, y⟩, hy, rfl⟩
      exact ⟨id, (Ring.mem_entries ho t.1).mp hy⟩
    · rintro ⟨id, hx⟩
      exact ⟨(id, x), (Ring.mem_entries ho t.1).mpr hx, rfl⟩
  have hsorted := h.sorted
  have hstarted := h.started
  rw [h.ok.slot_zero] at hslot
  cases hiter : t.1.iter with
  | nil => rw [hiter] at hslot; cases hslot
  | cons x rest =>
    rw [hiter] at hslot hsorted hstarted
    cases hslot
    have holdest : start oldest ≤ now := Nat.le_trans (hstarted oldest List.mem_cons_self) hnow
    have hfirst : ∀ y ∈ oldest :: rest, start oldest ≤ start y := by
      intro y hy
      rcases List.mem_cons.mp hy with rfl | hy
      · exact Nat.le_refl _
      · exact (List.pairwise_cons.mp hsorted).1 _ (List.mem_map_of_mem hy)
    constructor
    · intro hlimit
      obtain ⟨id, hid⟩ := (hmem oldest).mp (hiter ▸ List.mem_cons_self)
      exact ⟨id, oldest, hid, by omega⟩
    · rintro ⟨id, y, hid, hy⟩
      have hle := hfirst y (hiter ▸ (hmem y).mpr ⟨id, hid⟩)
      omega

/-- Something in flight is something in slot zero. -/
theorem Ring.Ok.slot_zero_of_get {r : Ring α shift offset} (h : r.Ok) (ho : offset ≤ mask shift)
    {id : Nat} {x : α} (hx : r.get id = some x) : ∃ oldest, r.slot 0 = some oldest := by
  have hmem : x ∈ r.iter := by
    rw [iter_eq]
    exact List.mem_map.mpr ⟨(id, x), (mem_entries ho r).mpr hx, rfl⟩
  rw [h.slot_zero]
  cases hiter : r.iter with
  | nil => rw [hiter] at hmem; exact absurd hmem List.not_mem_nil
  | cons y rest => exact ⟨y, rfl⟩

/-- **Looking at the oldest request decides the timeout.** Whatever was started, answered,
given back and retired, in any order: while a request is in flight, `timed_out` says that some
request in flight has waited for the limit, and it says so only then. -/
theorem oldest_slot_decides_timeout :
    (∀ (begun clock : Nat) (c : Http2.Conn),
      Relation.ReflTransGen (H2Tick Http2.InFlight.start) (Ring.new, begun) (c.streams, clock) →
      ∀ (now limit : Nat) (mayStart : Bool), clock ≤ now →
      (∃ id r, c.streams.get id = some r) →
      ((c.timedOut now limit mayStart).1 = true ↔
        ∃ id r, c.streams.get id = some r ∧ r.start + limit ≤ now)) ∧
    ∀ (begun clock : Nat) (c : Http3.Conn),
      Relation.ReflTransGen (Tick Http3.InFlight.start) (Ring.new, begun) (c.streams, clock) →
      ∀ now limit : Nat, clock ≤ now → (∃ id r, c.streams.get id = some r) →
      (c.timedOut now limit = true ↔
        ∃ id r, c.streams.get id = some r ∧ r.start + limit ≤ now) := by
  refine ⟨?_, ?_⟩
  · intro begun clock c hrun now limit mayStart hnow hsome
    have hnew : InOrder Http2.InFlight.start ((Ring.new, begun) : Clocked _ 1 1) :=
      InOrder.new begun
    have horder := hnew.steps (fun h ht => h.h2Tick ht) hrun
    obtain ⟨id, r, hr⟩ := hsome
    obtain ⟨oldest, hslot⟩ := horder.ok.slot_zero_of_get (by decide) hr
    rw [Http2.Conn.timedOut, hslot]
    exact decide_eq_true_iff.trans (horder.expired_iff (by decide) hnow limit hslot)
  · intro begun clock c hrun now limit hnow hsome
    have hnew : InOrder Http3.InFlight.start ((Ring.new, begun) : Clocked _ 2 0) :=
      InOrder.new begun
    have horder := hnew.steps (fun h ht => h.tick (by decide) ht) hrun
    obtain ⟨id, r, hr⟩ := hsome
    obtain ⟨oldest, hslot⟩ := horder.ok.slot_zero_of_get (by decide) hr
    rw [Http3.Conn.timedOut, hslot]
    exact decide_eq_true_iff.trans (horder.expired_iff (by decide) hnow limit hslot)

/-- Requests started at 5 and 9, and the first of them answered: at 20 a limit of 11 is met by
the second, and over HTTP/3 one of 12 is not. -/
theorem oldest_slot_decides_timeout_second :
    (∃ c : Http2.Conn, (c.timedOut 20 11 true).1 = true ∧
      ∃ id r, c.streams.get id = some r ∧ r.start + 11 ≤ 20) ∧
    ∃ c : Http3.Conn, c.timedOut 20 12 = false ∧
      ¬ ∃ id r, c.streams.get id = some r ∧ r.start + 12 ≤ 20 := by
  refine ⟨?_, ?_⟩
  · let r₁ : H2Ring Http2.InFlight := Ring.new.push 1 ⟨5, 0⟩
    let r₂ := r₁.push 3 ⟨9, 0⟩
    let c : Http2.Conn := { Http2.Conn.new 0 with streams := (r₂.take 1).2 }
    have hrun : Relation.ReflTransGen (H2Tick Http2.InFlight.start) (Ring.new, 0) (c.streams, 9) :=
      ((Relation.ReflTransGen.single (.tick (.start 1 ⟨5, 0⟩ (by decide)))).tail
        (.tick (.start (r := r₁) 3 ⟨9, 0⟩ (by decide)))).tail
        (.tick (.complete (r := r₂) 1))
    have hout : (c.timedOut 20 11 true).1 = true := by decide
    exact ⟨c, hout, (oldest_slot_decides_timeout.1 0 9 c hrun 20 11 true (by decide)
      ⟨3, ⟨9, 0⟩, by decide⟩).mp hout⟩
  · let r₁ : H3Ring Http3.InFlight := Ring.new.push 0 ⟨0, 5, {}, []⟩
    let r₂ := r₁.push 4 ⟨4, 9, {}, []⟩
    let c : Http3.Conn := { Http3.Conn.new with streams := (r₂.take 0).2 }
    have hrun : Relation.ReflTransGen (Tick Http3.InFlight.start) (Ring.new, 0) (c.streams, 9) :=
      ((Relation.ReflTransGen.single (.start 0 ⟨0, 5, {}, []⟩ (by decide))).tail
        (.start (r := r₁) 4 ⟨4, 9, {}, []⟩ (by decide))).tail
        (.complete (r := r₂) 0)
    have hout : c.timedOut 20 12 = false := by decide
    refine ⟨c, hout, fun hex => ?_⟩
    have htrue := (oldest_slot_decides_timeout.2 0 9 c hrun 20 12 (by decide)
      ⟨4, ⟨4, 9, {}, []⟩, by decide⟩).mpr hex
    exact absurd (hout.symm.trans htrue) (by simp)

end Shb
