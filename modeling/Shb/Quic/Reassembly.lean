import Shb.Lib.Ranges
import Shb.Lib.Run
import Shb.Lib.Slice
import Shb.Quic.RecvStream

/-!
# Reassembly: what the application reads is the stream

The peer has one byte string `S` in mind. Its frames are slices of it that may come in any
order, overlap, and come again. `RecvSys` records, beside the `RecvStream`, which frames
were accepted and what the application has taken.

The invariant: everything below the head is `S`; every frame in `pending` is a slice of `S`
that starts *strictly beyond* the head; and between them they hold exactly what the accepted
frames cover. So the head itself is covered by nothing, which is what makes the prefix the
longest one.
-/

namespace Shb.Quic

open Shb.Lib

namespace RecvStream

variable (s : RecvStream)

/-- The end of what is contiguous. -/
def head : Nat := s.readOffset + s.ready.length

/-- The range of offsets an early frame holds. -/
def span (p : Nat × Bytes) : Nat × Nat := (p.1, p.1 + p.2.length)

/-- A frame's bytes are those of `S` at its offset. -/
def IsSlice (S : Bytes) (p : Nat × Bytes) : Prop :=
  p.1 + p.2.length ≤ S.length ∧ p.2 = slice S p.1 p.2.length

/-- The buffer and the early frames are pieces of `S`, in order, with a gap at the head. -/
structure Holds (S : Bytes) (s : RecvStream) : Prop where
  ready : IsSlice S (s.readOffset, s.ready)
  pending : ∀ p ∈ s.pending, IsSlice S p
  sorted : s.pending.Pairwise fun a b => a.1 ≤ b.1
  gap : ∀ p ∈ s.pending, s.head < p.1

/-- The offsets the stream holds or has handed out. -/
def Has (x : Nat) : Prop := x < s.head ∨ Covers (s.pending.map span) x

/-! ## Extending the buffer -/

variable {S : Bytes}

/-- The bytes a slice adds past the end of the buffer. -/
theorem IsSlice.extend {readOffset : Nat} {ready : Bytes} {p : Nat × Bytes}
    (hr : IsSlice S (readOffset, ready)) (hp : IsSlice S p)
    (hle : p.1 ≤ readOffset + ready.length) : let skip := readOffset + ready.length - p.1
    let ready' := if skip < p.2.length then ready ++ p.2.drop skip else ready
    IsSlice S (readOffset, ready') ∧
      readOffset + ready'.length = max (readOffset + ready.length) (p.1 + p.2.length) := by
  intro skip ready'
  obtain ⟨hrle, hreq⟩ := hr
  obtain ⟨hple, hpeq⟩ := hp
  by_cases hskip : skip < p.2.length
  · have hready' : ready' = ready ++ p.2.drop skip := if_pos hskip
    have hlen : ready'.length = ready.length + (p.2.length - skip) := by
      rw [hready', List.length_append, List.length_drop]
    refine ⟨⟨?_, ?_⟩, ?_⟩
    · simp only
      omega
    · have hdrop : p.2.drop skip = slice S (readOffset + ready.length) (p.2.length - skip) := by
        rw [hpeq, drop_slice, ← hpeq]
        congr 1
        omega
      rw [hlen, ← slice_append, ← hreq, ← hdrop, hready']
    · omega
  · have hready' : ready' = ready := if_neg hskip
    rw [hready']
    exact ⟨⟨hrle, hreq⟩, by omega⟩

/-- The whole of `drain`: the buffer grows over every early frame it reaches. -/
theorem drain_spec {readOffset : Nat} :
    ∀ {ps : List (Nat × Bytes)} {ready : Bytes},
    IsSlice S (readOffset, ready) → (∀ p ∈ ps, IsSlice S p) →
    ps.Pairwise (fun a b => a.1 ≤ b.1) →
    let out := drain readOffset ready ps
    IsSlice S (readOffset, out.1) ∧ out.2.Sublist ps ∧
    (∀ p ∈ out.2, readOffset + out.1.length < p.1) ∧
    ∀ x, (x < readOffset + out.1.length ∨ Covers (out.2.map span) x) ↔
      (x < readOffset + ready.length ∨ Covers (ps.map span) x)
  | [], ready, hr, _, _ => by
    simp only [drain]
    exact ⟨hr, List.Sublist.refl _, by simp, fun _ => trivial⟩
  | (offset, data) :: rest, ready, hr, hps, hsorted => by
    rw [List.pairwise_cons] at hsorted
    by_cases hlt : readOffset + ready.length < offset
    · -- the first frame is beyond the head, and so is every frame behind it
      simp only [drain, if_pos hlt]
      refine ⟨hr, List.Sublist.refl _, ?_, fun _ => trivial⟩
      intro p hp
      rcases List.mem_cons.mp hp with rfl | hp
      · exact hlt
      · exact Nat.lt_of_lt_of_le hlt (hsorted.1 p hp)
    · simp only [drain, if_neg hlt]
      obtain ⟨hr', hlen⟩ := hr.extend (hps (offset, data) (by simp)) (Nat.not_lt.mp hlt)
      obtain ⟨h1, h2, h3, h4⟩ :=
        drain_spec hr' (fun p hp => hps p (by simp [hp])) hsorted.2
      refine ⟨h1, h2.cons _, h3, fun x => ?_⟩
      rw [h4 x, hlen, List.map_cons, covers_cons]
      simp only [span]
      constructor
      · rintro (hx | hx)
        · by_cases hx' : x < readOffset + ready.length
          · exact Or.inl hx'
          · exact Or.inr (Or.inl (by omega))
        · exact Or.inr (Or.inr hx)
      · rintro (hx | hx | hx)
        · exact Or.inl (by omega)
        · exact Or.inl (by omega)
        · exact Or.inr hx

theorem sortPending_perm (ps : List (Nat × Bytes)) : (sortPending ps).Perm ps :=
  List.perm_insertionSort _ ps

theorem sortPending_sorted (ps : List (Nat × Bytes)) :
    (sortPending ps).Pairwise fun a b => a.1 ≤ b.1 := by
  exact List.pairwise_insertionSort _ ps

/-- An accepted slice: the stream still holds pieces of `S`, and exactly the slice's offsets
besides those it held. -/
theorem Holds.place {s : RecvStream} (h : Holds S s) {offset : Nat} {data : Bytes}
    (hp : IsSlice S (offset, data)) :
    Holds S (s.place offset data) ∧
      ∀ x, (s.place offset data).Has x ↔ s.Has x ∨ (offset ≤ x ∧ x < offset + data.length) := by
  unfold RecvStream.place
  split
  · rename_i hle
    obtain ⟨hr, hlen⟩ := h.ready.extend hp hle
    obtain ⟨h1, h2, h3, h4⟩ := drain_spec hr h.pending h.sorted
    refine ⟨⟨h1, fun p hp => h.pending p (h2.subset hp), h.sorted.sublist h2, h3⟩, fun x => ?_⟩
    refine (h4 x).trans ?_
    rw [hlen]
    simp only [Has, head]
    constructor
    · rintro (hx | hx)
      · by_cases hx' : x < s.readOffset + s.ready.length
        · exact Or.inl (Or.inl hx')
        · exact Or.inr (by omega)
      · exact Or.inl (Or.inr hx)
    · rintro ((hx | hx) | hx)
      · exact Or.inl (by omega)
      · exact Or.inr hx
      · exact Or.inl (by omega)
  · rename_i hgt
    split
    · have hmem : ∀ p ∈ sortPending (s.pending ++ [(offset, data)]),
          p ∈ s.pending ∨ p = (offset, data) := fun p hp' => by
        simpa using (sortPending_perm _).subset hp'
      refine ⟨⟨h.ready, fun p hp' => ?_, sortPending_sorted _, fun p hp' => ?_⟩, fun x => ?_⟩
      · rcases hmem p hp' with hp' | rfl
        · exact h.pending p hp'
        · exact hp
      · rcases hmem p hp' with hp' | rfl
        · exact h.gap p hp'
        · exact Nat.not_le.mp hgt
      · show x < s.head ∨ Covers ((sortPending _).map span) x ↔ _
        rw [covers_perm ((sortPending_perm _).map span), List.map_append, covers_append]
        simp only [List.map_cons, List.map_nil, covers_cons, covers_nil, or_false, span, Has]
        exact or_assoc.symm
    · rename_i hempty
      have hnil : data = [] := by simpa using hempty
      refine ⟨h, fun x => ⟨Or.inl, fun hx => hx.elim id fun hx => ?_⟩⟩
      rw [hnil, List.length_nil] at hx
      omega

/-! ## The checks in front -/

/-- Nothing is written before both checks have passed. -/
theorem pushWithCredit_cases (offset : Nat) (data : Bytes) (fin : Bool) (credit : Nat) :
    (∃ e, s.pushWithCredit offset data fin credit = (.error e, s)) ∨
    (∃ new, s.checkEnd (offset + data.length) fin credit = .ok new ∧
      s.pushWithCredit offset data fin credit =
        (.ok new, { s with
          finalSize := if fin then some (offset + data.length) else s.finalSize
          received := max s.received (offset + data.length) }.place offset data)) := by
  unfold pushWithCredit
  simp only
  split
  · exact Or.inl ⟨_, rfl⟩
  · cases hcheck : s.checkEnd (offset + data.length) fin credit with
    | error e => exact Or.inl ⟨e, rfl⟩
    | ok new =>
      refine Or.inr ⟨new, rfl, ?_⟩
      cases fin <;> rfl

theorem checkEnd_ok {s : RecvStream} {stop credit new : Nat} {fin : Bool}
    (h : s.checkEnd stop fin credit = .ok new) :
    new = stop - s.received ∧ (∀ size, s.finalSize = some size →
      stop ≤ size ∧ (fin = true → stop = size)) ∧ (fin = true → s.received ≤ stop) ∧
    stop ≤ s.maxData ∧ new ≤ credit := by
  unfold checkEnd at h
  split at h
  · exact absurd h (by simp)
  · rename_i hfinal
    simp only at h
    split at h
    · exact absurd h (by simp)
    · rename_i hflow
      simp only [Except.ok.injEq] at h
      simp only [Bool.or_eq_true, Option.any_eq_true, decide_eq_true_eq, Bool.and_eq_true,
        not_or, not_exists, not_and, Nat.not_lt, ne_eq, decide_not, Bool.not_eq_true',
        decide_eq_false_iff_not, Decidable.not_not] at hfinal hflow
      refine ⟨h.symm, fun size hsize => ?_, hfinal.2, hflow.1, h ▸ hflow.2⟩
      exact hfinal.1 size hsize

/-- Where a frame's bytes go has no bearing on the stream's limits. -/
theorem place_limits (offset : Nat) (data : Bytes) :
    (s.place offset data).finalSize = s.finalSize ∧
    (s.place offset data).received = s.received ∧
    (s.place offset data).maxData = s.maxData ∧
    (s.place offset data).readOffset = s.readOffset := by
  unfold RecvStream.place
  split
  · exact ⟨rfl, rfl, rfl, rfl⟩
  · split <;> exact ⟨rfl, rfl, rfl, rfl⟩

end RecvStream

/-! ## The peer's frames and the application's reads -/

open RecvStream

/-- A stream, what the application took from it, the ranges of the frames it accepted,
whether one of them carried the FIN, and the sum of the counts it returned. -/
structure RecvSys where
  stream : RecvStream
  taken : Bytes
  accepted : List (Nat × Nat)
  fin : Bool
  counted : Nat
  deriving DecidableEq

inductive RecvOp where
  /-- A frame: `len` bytes of the peer's stream from `offset`. -/
  | push (offset len : Nat) (fin : Bool) (credit : Nat)
  | consume
  | grant (window : Nat)
  deriving DecidableEq

namespace RecvSys

def init (window : Nat) : RecvSys :=
  { stream := .new window, taken := [], accepted := [], fin := false, counted := 0 }

/-- One operation of a peer that sends `S`: a frame is a slice of `S`, with the FIN only at
its end. -/
def step (S : Bytes) (sys : RecvSys) : RecvOp → Option RecvSys
  | .push offset len fin credit =>
    if offset + len ≤ S.length ∧ (fin = true → offset + len = S.length) then
      match sys.stream.pushWithCredit offset (slice S offset len) fin credit with
      | (.ok new, stream) =>
        some { sys with
          stream := stream
          accepted := (offset, offset + len) :: sys.accepted
          fin := sys.fin || fin
          counted := sys.counted + new }
      | (.error _, stream) => some { sys with stream := stream }
    else none
  | .consume =>
    let (_, stream) := sys.stream.consume fun _ => (.ok () : Except RecvError Unit)
    some { sys with stream := stream, taken := sys.taken ++ sys.stream.ready }
  | .grant window => some { sys with stream := (sys.stream.grant window).2 }

/-- The highest end of the accepted frames. -/
def highest (rs : List (Nat × Nat)) : Nat := rs.foldr (fun r m => max r.2 m) 0

structure Inv (S : Bytes) (sys : RecvSys) : Prop where
  holds : Holds S sys.stream
  taken_eq : sys.taken = S.take sys.stream.readOffset
  has_iff : ∀ x, sys.stream.Has x ↔ Covers sys.accepted x
  counted_eq : sys.counted = sys.stream.received
  received_eq : sys.stream.received = highest sys.accepted
  final_eq : sys.stream.finalSize = if sys.fin then some S.length else none

theorem inv_init (S : Bytes) (window : Nat) : Inv S (init window) where
  holds := ⟨⟨Nat.zero_le _, rfl⟩, by simp [init, new], by simp [init, new], by simp [init, new]⟩
  taken_eq := rfl
  has_iff := fun x => by simp [init, new, Has, head]
  counted_eq := rfl
  received_eq := rfl
  final_eq := rfl

/-! ## One step -/

variable {S : Bytes} {sys : RecvSys}

section

variable (h : Inv S sys)
include h

theorem Inv.push {offset len new credit : Nat} {fin : Bool}
    (hle : offset + len ≤ S.length) (hfin : fin = true → offset + len = S.length)
    (hcheck : sys.stream.checkEnd (offset + len) fin credit = .ok new) :
    Inv S { sys with
      stream := { sys.stream with
        finalSize := if fin then some (offset + len) else sys.stream.finalSize
        received := max sys.stream.received (offset + len) }.place offset (slice S offset len)
      accepted := (offset, offset + len) :: sys.accepted
      fin := sys.fin || fin
      counted := sys.counted + new } := by
  have hlen := length_slice hle
  have hslice : IsSlice S (offset, slice S offset len) := by
    refine ⟨by simp only [hlen]; exact hle, ?_⟩
    simp only [hlen]
  obtain ⟨hnew, -, -, -, -⟩ := checkEnd_ok hcheck
  set s := { sys.stream with
    finalSize := if fin then some (offset + len) else sys.stream.finalSize
    received := max sys.stream.received (offset + len) } with hs
  have hholds : Holds S s := ⟨h.holds.ready, h.holds.pending, h.holds.sorted, h.holds.gap⟩
  obtain ⟨hplace, hhas⟩ := hholds.place hslice
  obtain ⟨hfinal, hreceived, -, hread⟩ := s.place_limits offset (slice S offset len)
  refine ⟨hplace, ?_, fun x => ?_, ?_, ?_, ?_⟩
  · rw [hread]
    exact h.taken_eq
  · rw [hhas x, hlen, covers_cons, ← h.has_iff x]
    exact or_comm
  · rw [hreceived]
    have := h.counted_eq
    simp only [hs]
    omega
  · rw [hreceived]
    show max sys.stream.received (offset + len) = max (offset + len) (highest sys.accepted)
    rw [h.received_eq, Nat.max_comm]
  · rw [hfinal]
    show (if fin then some (offset + len) else sys.stream.finalSize) = _
    cases fin with
    | false => simpa using h.final_eq
    | true => simp [hfin rfl]

theorem Inv.consume :
    Inv S { sys with
      stream := (sys.stream.consume fun _ => (.ok () : Except RecvError Unit)).2
      taken := sys.taken ++ sys.stream.ready } := by
  unfold RecvStream.consume
  split
  · rename_i hempty
    rw [List.isEmpty_iff] at hempty
    rw [hempty, List.append_nil]
    exact h
  · obtain ⟨hle, heq⟩ := h.holds.ready
    have hslice : IsSlice S (sys.stream.readOffset + sys.stream.ready.length, []) :=
      ⟨hle, (slice_zero S _).symm⟩
    refine ⟨⟨hslice, h.holds.pending, h.holds.sorted, h.holds.gap⟩, ?_, h.has_iff,
      h.counted_eq, h.received_eq, h.final_eq⟩
    show sys.taken ++ sys.stream.ready = S.take (sys.stream.readOffset + sys.stream.ready.length)
    rw [h.taken_eq, ← take_append_slice]
    congr 1

theorem Inv.step {sys' : RecvSys} {op : RecvOp}
    (hstep : sys.step S op = some sys') : Inv S sys' := by
  cases op with
  | push offset len fin credit =>
    simp only [RecvSys.step] at hstep
    split at hstep
    · rename_i hpeer
      have hlen := length_slice hpeer.1
      rcases sys.stream.pushWithCredit_cases offset (slice S offset len) fin credit with
        ⟨e, he⟩ | ⟨new, hcheck, hok⟩
      · simp only [he, Option.some.injEq] at hstep
        exact hstep ▸ h
      · simp only [hok, Option.some.injEq] at hstep
        rw [hlen] at hcheck hstep
        exact hstep ▸ h.push hpeer.1 hpeer.2 hcheck
    · exact absurd hstep (by simp)
  | consume =>
    simp only [RecvSys.step, Option.some.injEq] at hstep
    exact hstep ▸ h.consume
  | grant window =>
    simp only [RecvSys.step, Option.some.injEq] at hstep
    subst hstep
    exact ⟨⟨h.holds.ready, h.holds.pending, h.holds.sorted, h.holds.gap⟩, h.taken_eq, h.has_iff,
      h.counted_eq, h.received_eq, h.final_eq⟩

/-! ## Every run -/

/-- No accepted frame covers the head: what is below it is all there is, contiguously. -/
theorem Inv.head_uncovered : ¬ Covers sys.accepted sys.stream.head := by
  rw [← h.has_iff]
  rintro (hx | ⟨r, hr, hx, -⟩)
  · exact Nat.lt_irrefl _ hx
  · obtain ⟨p, hp, rfl⟩ := List.mem_map.mp hr
    exact Nat.lt_irrefl _ (Nat.lt_of_lt_of_le (h.holds.gap p hp) hx)

theorem Inv.taken_ready :
    sys.taken ++ sys.stream.ready = S.take sys.stream.head := by
  have heq := h.holds.ready.2
  rw [h.taken_eq, head, ← take_append_slice, ← heq]

theorem Inv.covered_all :
    (∀ x, x < S.length → Covers sys.accepted x) ↔ S.length ≤ sys.stream.head := by
  constructor
  · intro hall
    by_contra hlt
    exact h.head_uncovered (hall _ (Nat.not_le.mp hlt))
  · intro hle x hx
    exact (h.has_iff x).mp (Or.inl (Nat.lt_of_lt_of_le hx hle))

theorem Inv.isFinished_iff :
    sys.stream.isFinished = true ↔
      sys.fin = true ∧ ∀ x, x < S.length → Covers sys.accepted x := by
  rw [h.covered_all]
  unfold isFinished
  rw [h.final_eq]
  cases sys.fin with
  | false => simp
  | true => simp [head]

end

/-- `n` is how much of the stream the ranges cover without a gap. -/
def ContiguousTo (rs : List (Nat × Nat)) (n : Nat) : Prop :=
  (∀ x, x < n → Covers rs x) ∧ ¬ Covers rs n

/-- Slices of `S` in any order, repeated and overlapping, and any reads in between: the
application has been handed, or can now read, exactly the prefix that the accepted frames
cover; the stream is finished exactly when that is all of `S` and the FIN has come; the
counts add up to the highest end; and a refused frame leaves the stream as it was. -/
theorem reassembly_correct {S : Bytes} {window : Nat} {ops : List RecvOp} {sys : RecvSys}
    (h : run (RecvSys.step S) (RecvSys.init window) ops = some sys) :
    (∃ n, n ≤ S.length ∧ ContiguousTo sys.accepted n ∧
      sys.taken ++ sys.stream.ready = S.take n) ∧
    (sys.stream.isFinished = true ↔
      sys.fin = true ∧ ∀ x, x < S.length → Covers sys.accepted x) ∧
    sys.counted = highest sys.accepted ∧
    ∀ offset data fin credit e s',
      sys.stream.pushWithCredit offset data fin credit = (.error e, s') → s' = sys.stream := by
  have hinv : Inv S sys := run_invariant (fun h => h.step) (inv_init S window) h
  refine ⟨⟨sys.stream.head, hinv.holds.ready.1, ⟨fun x hx => (hinv.has_iff x).mp (Or.inl hx),
    hinv.head_uncovered⟩, hinv.taken_ready⟩, hinv.isFinished_iff,
    hinv.counted_eq.trans hinv.received_eq, ?_⟩
  intro offset data fin credit e s' hrej
  rcases sys.stream.pushWithCredit_cases offset data fin credit with ⟨e', he⟩ | ⟨new, -, hok⟩
  · rw [he, Prod.mk.injEq] at hrej
    exact hrej.2.symm
  · rw [hok, Prod.mk.injEq] at hrej
    exact absurd hrej.1 (by simp)

/-- The end first, then a frame across the gap, then the rest: read in the middle of it. -/
theorem reassembly_correct_reordered :
    ∃ sys, run (RecvSys.step [1, 2, 3, 4, 5]) (RecvSys.init 5)
        [.push 3 2 true 9, .push 0 2 false 9, .consume, .push 1 3 false 9] = some sys ∧
      sys.taken ++ sys.stream.ready = [1, 2, 3, 4, 5] ∧ sys.stream.isFinished = true ∧
      sys.counted = 5 := by
  have h : run (RecvSys.step [1, 2, 3, 4, 5]) (RecvSys.init 5)
      [.push 3 2 true 9, .push 0 2 false 9, .consume, .push 1 3 false 9] = some
        { stream :=
            { ready := [3, 4, 5], readOffset := 2, pending := [], finalSize := some 5,
              received := 5, maxData := 5 }
          taken := [1, 2], accepted := [(1, 4), (0, 2), (3, 5)], fin := true, counted := 5 } := by
    decide
  refine ⟨_, h, rfl, (reassembly_correct h).2.1.mpr ⟨rfl, ?_⟩, (reassembly_correct h).2.2.1⟩
  intro x hx
  simp only [List.length_cons, List.length_nil] at hx
  simp only [covers_cons, covers_nil, or_false]
  omega

end RecvSys
end Shb.Quic
