import Shb.Lib.Sums
import Shb.Quic.Reassembly

/-!
# What a receive stream keeps in memory

Flow control counts the highest offset; memory is taken frame by frame. In order, a frame adds
only what is new. Early, it is kept as it came, whatever is kept already: a frame that comes again
before the gap is filled costs the peer no credit and is stored again. So the memory a stream
takes is bounded by the window in use only as long as no early frame repeats a byte of another,
which `Unrepeated` says of a frame and the stream it finds.

The bytes are any bytes: two frames may disagree about an offset.
-/

namespace Shb.Quic

open Shb.Lib

namespace RecvStream

/-- The bytes in `ready` and `pending`. -/
def stored (s : RecvStream) : Nat := s.ready.length + sumOf (fun p => p.2.length) s.pending

/-- Two early frames that share no offset. -/
def Disjoint (p q : Nat × Bytes) : Prop := p.1 + p.2.length ≤ q.1 ∨ q.1 + q.2.length ≤ p.1

instance (p q : Nat × Bytes) : Decidable (Disjoint p q) := inferInstanceAs (Decidable (_ ∨ _))

/-- A frame that would be kept early shares no offset with those that are. -/
def Unrepeated (s : RecvStream) (offset : Nat) (data : Bytes) : Prop :=
  s.head < offset → data ≠ [] → ∀ p ∈ s.pending, Disjoint p (offset, data)

/-- Nothing is kept twice, and all of it is below `received`. -/
structure Packed (s : RecvStream) : Prop where
  head_le : s.head ≤ s.received
  ends : ∀ p ∈ s.pending, p.1 + p.2.length ≤ s.received
  beyond : ∀ p ∈ s.pending, s.head < p.1
  nonempty : ∀ p ∈ s.pending, p.2 ≠ []
  disjoint : s.pending.Pairwise Disjoint
  sorted : s.pending.Pairwise fun a b => a.1 ≤ b.1

/-- In order of offset, each early frame ends before the next begins. -/
theorem Packed.apart {s : RecvStream} (h : s.Packed) :
    s.pending.Pairwise fun a b => a.1 + a.2.length ≤ b.1 := by
  refine (h.disjoint.and h.sorted).imp_of_mem fun {a b} _ hb hab => ?_
  obtain ⟨hdisj, hle⟩ := hab
  rcases hdisj with hlt | hgt
  · exact hlt
  · have hpos := List.length_pos_of_ne_nil (h.nonempty b hb)
    omega

theorem Packed.stored_le {s : RecvStream} (h : s.Packed) :
    s.stored ≤ s.received - s.readOffset := by
  have hhead : s.readOffset + s.ready.length ≤ s.received := h.head_le
  have hsum := sumOf_le_of_apart (fun p : Nat × Bytes => p.1) (fun p => p.2.length) hhead
    (fun p hp => ⟨Nat.le_of_lt (h.beyond p hp), h.ends p hp⟩) h.apart
  unfold stored
  omega

theorem Packed.new (window : Nat) : (RecvStream.new window).Packed where
  head_le := Nat.le_refl 0
  ends _ h := absurd h List.not_mem_nil
  beyond _ h := absurd h List.not_mem_nil
  nonempty _ h := absurd h List.not_mem_nil
  disjoint := List.Pairwise.nil
  sorted := List.Pairwise.nil

/-! ## Taking a frame -/

/-- What an in-order piece makes of the end of the buffer. -/
theorem length_extend {readOffset offset : Nat} {ready : Bytes} (data : Bytes)
    (hle : offset ≤ readOffset + ready.length) :
    readOffset + (if readOffset + ready.length - offset < data.length
      then ready ++ data.drop (readOffset + ready.length - offset) else ready).length =
      max (readOffset + ready.length) (offset + data.length) := by
  split
  · rw [List.length_append, List.length_drop]
    omega
  · omega

/-- Draining keeps a part of what was early, all of it beyond the new head. -/
theorem drain_keeps {readOffset hi : Nat} : ∀ {ps : List (Nat × Bytes)} (ready : Bytes),
    readOffset + ready.length ≤ hi → (∀ p ∈ ps, p.1 + p.2.length ≤ hi) →
    ps.Pairwise (fun a b => a.1 ≤ b.1) →
    readOffset + (drain readOffset ready ps).1.length ≤ hi ∧
      (drain readOffset ready ps).2.Sublist ps ∧
      ∀ p ∈ (drain readOffset ready ps).2, readOffset + (drain readOffset ready ps).1.length < p.1
  | [], _, hready, _, _ => ⟨hready, List.Sublist.refl _, nofun⟩
  | (offset, data) :: rest, ready, hready, hends, hsorted => by
    obtain ⟨hfirst, hrest⟩ := List.pairwise_cons.mp hsorted
    by_cases hlt : readOffset + ready.length < offset
    · simp only [drain, if_pos hlt]
      refine ⟨hready, List.Sublist.refl _, fun p hp => ?_⟩
      rcases List.mem_cons.mp hp with rfl | hp
      · exact hlt
      · exact Nat.lt_of_lt_of_le hlt (hfirst p hp)
    · simp only [drain, if_neg hlt]
      have hend : offset + data.length ≤ hi := hends (offset, data) List.mem_cons_self
      obtain ⟨hle, hsub, hbeyond⟩ := drain_keeps (if readOffset + ready.length - offset <
          data.length then ready ++ data.drop (readOffset + ready.length - offset) else ready)
        (length_extend data (Nat.not_lt.mp hlt) ▸ Nat.max_le.mpr ⟨hready, hend⟩)
        (fun p hp => hends p (List.mem_cons_of_mem _ hp)) hrest
      exact ⟨hle, hsub.cons _, hbeyond⟩

/-- An accepted frame that repeats nothing kept early. -/
theorem Packed.place {s : RecvStream} (h : s.Packed) {offset : Nat} {data : Bytes}
    (hend : offset + data.length ≤ s.received) (hnew : s.Unrepeated offset data) :
    (s.place offset data).Packed := by
  unfold RecvStream.place
  split
  · rename_i hle
    obtain ⟨hle', hsub, hbeyond⟩ := drain_keeps (if s.readOffset + s.ready.length - offset <
        data.length then s.ready ++ data.drop (s.readOffset + s.ready.length - offset) else s.ready)
      (length_extend data hle ▸ Nat.max_le.mpr ⟨h.head_le, hend⟩) h.ends h.sorted
    exact ⟨hle', fun p hp => h.ends p (hsub.subset hp), hbeyond,
      fun p hp => h.nonempty p (hsub.subset hp), h.disjoint.sublist hsub, h.sorted.sublist hsub⟩
  · rename_i hgt
    have hgt : s.head < offset := Nat.not_le.mp hgt
    split
    · rename_i hdata
      have hperm := sortPending_perm (s.pending ++ [(offset, data)])
      have hmem : ∀ p ∈ sortPending (s.pending ++ [(offset, data)]),
          p ∈ s.pending ∨ p = (offset, data) := by
        intro p hp
        rcases List.mem_append.mp (hperm.subset hp) with hp | hp
        · exact Or.inl hp
        · exact Or.inr (List.mem_singleton.mp hp)
      have hsymm : ∀ {p q : Nat × Bytes}, Disjoint p q → Disjoint q p := Or.symm
      refine ⟨h.head_le, fun p hp => ?_, fun p hp => ?_, fun p hp => ?_, ?_, sortPending_sorted _⟩
      · rcases hmem p hp with hp | rfl
        · exact h.ends p hp
        · exact hend
      · rcases hmem p hp with hp | rfl
        · exact h.beyond p hp
        · exact hgt
      · rcases hmem p hp with hp | rfl
        · exact h.nonempty p hp
        · exact hdata
      · refine (hperm.pairwise_iff hsymm).mpr (List.pairwise_append.mpr
          ⟨h.disjoint, List.pairwise_singleton _ _, fun p hp q hq => ?_⟩)
        rw [List.mem_singleton.mp hq]
        exact hnew hgt hdata p hp
    · exact h

end RecvStream

/-! ## Runs -/

open RecvStream

/-- A call on a receive stream. -/
inductive RecvCall where
  | push (offset : Nat) (data : Bytes) (fin : Bool) (credit : Nat)
  | consume (f : Bytes → Except Unit Unit)
  | grant (window : Nat)

namespace RecvCall

/-- A frame that is refused is no call of the run. -/
def step (s : RecvStream) : RecvCall → Option RecvStream
  | push offset data fin credit =>
    match s.pushWithCredit offset data fin credit with
    | (.ok _, s) => some s
    | (.error _, _) => none
  | consume f => some (s.consume f).2
  | grant window => some (s.grant window).2

/-- The frame of a push repeats nothing that is kept early. -/
def Unrepeated (s : RecvStream) : RecvCall → Prop
  | push offset data _ _ => s.Unrepeated offset data
  | _ => True

instance (s : RecvStream) : ∀ call : RecvCall, Decidable (call.Unrepeated s)
  | push offset data _ _ => inferInstanceAs
    (Decidable (s.head < offset → data ≠ [] → ∀ p ∈ s.pending,
      RecvStream.Disjoint p (offset, data)))
  | consume .. | grant .. => isTrue trivial

end RecvCall

theorem RecvStream.Packed.step {s s' : RecvStream} {call : RecvCall} (h : s.Packed)
    (hnew : call.Unrepeated s) (hstep : call.step s = some s') : s'.Packed := by
  cases call with
  | push offset data fin credit =>
    rcases s.pushWithCredit_cases offset data fin credit with ⟨e, he⟩ | ⟨new, -, hok⟩
    · simp only [RecvCall.step, he] at hstep
      cases hstep
    · simp only [RecvCall.step, hok, Option.some.injEq] at hstep
      rw [← hstep]
      have hmore : s.received ≤ max s.received (offset + data.length) := Nat.le_max_left _ _
      have hraised : Packed { s with
          finalSize := if fin then some (offset + data.length) else s.finalSize,
          received := max s.received (offset + data.length) } :=
        ⟨h.head_le.trans hmore, fun p hp => (h.ends p hp).trans hmore, h.beyond, h.nonempty,
          h.disjoint, h.sorted⟩
      exact hraised.place (Nat.le_max_right _ _) hnew
  | consume f =>
    cases hstep
    unfold RecvStream.consume
    split
    · exact h
    · split
      · exact h
      · -- what is taken moves the read offset, and not the head
        have hhead : s.readOffset + s.ready.length + ([] : Bytes).length = s.head := rfl
        refine ⟨?_, h.ends, fun p hp => ?_, h.nonempty, h.disjoint, h.sorted⟩
        · exact hhead.le.trans h.head_le
        · exact hhead.le.trans_lt (h.beyond p hp)
  | grant window =>
    cases hstep
    exact ⟨h.head_le, h.ends, h.beyond, h.nonempty, h.disjoint, h.sorted⟩

/-- **A receive stream holds no more than the window in use**, as long as no early frame repeats
what is already kept early. -/
theorem stored_within_window {window : Nat} {calls : List RecvCall} {s : RecvStream}
    (hrun : run RecvCall.step (.new window) calls = some s)
    (hnew : Meets RecvCall.step (fun s call => call.Unrepeated s) (.new window) calls) :
    s.stored ≤ s.received - s.readOffset := by
  have h : s.Packed := hnew.invariant (P := RecvStream.Packed) (fun hp hc hs => hp.step hc hs)
    (.new window) hrun
  exact h.stored_le

/-- Two early frames side by side, and the stream that keeps them. -/
def sideBySide : RecvStream :=
  { RecvStream.new 100 with pending := [(2, [2, 3]), (4, [4, 5])], received := 6 }

theorem stored_within_window_side_by_side :
    run RecvCall.step (.new 100) [.push 4 [4, 5] false 9, .push 2 [2, 3] false 9] =
        some sideBySide ∧
      sideBySide.stored ≤ sideBySide.received - sideBySide.readOffset := by
  have hrun : run RecvCall.step (.new 100) [.push 4 [4, 5] false 9, .push 2 [2, 3] false 9] =
      some sideBySide := by decide +kernel
  exact ⟨hrun, stored_within_window hrun (by decide +kernel)⟩

/-- The same five bytes beyond the gap twice: six bytes of the window are in use, ten are held. -/
theorem early_frame_stored_twice :
    ((run RecvCall.step (.new 100)
      [.push 1 [1, 2, 3, 4, 5] false 9, .push 1 [1, 2, 3, 4, 5] false 9]).map
        fun s => (s.stored, s.received - s.readOffset)) = some (10, 6) := by
  decide +kernel

end Shb.Quic
