import Mathlib.Data.List.TakeWhile
import Mathlib.Data.Set.Basic
import Mathlib.Order.Interval.Set.Defs
import Shb.Lib.Ranges
import Shb.Quic.SendStream

/-!
# The send stream as a byte set

What `SendStream` keeps in three different coordinate systems — a moving base, relative lost
ranges, absolute acknowledged runs — is two sets of stream offsets and one mark:

* `ackedSet`: below `baseOffset`, or in an `acked` run;
* `lostSet`: in a `lost` range, read from `baseOffset`;
* `mark`: everything below it has been in a packet.

Each operation below is shown to do to those sets what its name says, and to keep the
stream well formed (`Ok`). Nothing past this file unfolds `onAcked` or `onLost` again.
-/

namespace Shb.Quic
namespace SendStream

open Shb.Lib

variable (s : SendStream)

/-- The bytes the peer has acknowledged. -/
def ackedSet : Set Nat := {x | x < s.baseOffset ∨ Covers s.acked x}

/-- The bytes queued to be sent again. -/
def lostSet : Set Nat :=
  {x | ∃ r ∈ s.lost, s.baseOffset + r.1 ≤ x ∧ x < s.baseOffset + r.2}

/-- The end of what has been put in a packet at least once. -/
def mark : Nat := s.baseOffset + s.sent

/-- The end of what has been written. -/
def total : Nat := s.baseOffset + (s.buf.length - s.bufStart)

/-- A stream that has not been reset: the buffer holds everything from the base on, the
lost ranges are nonempty and were sent, the acknowledged runs were sent and are in normal
form above the base, and nothing is both. -/
structure Ok (s : SendStream) : Prop where
  start_le : s.bufStart ≤ s.buf.length
  sent_le : s.sent ≤ s.buf.length - s.bufStart
  total_le : s.total ≤ s.limit
  lost_lt : ∀ r ∈ s.lost, r.1 < r.2 ∧ r.2 ≤ s.sent
  runs : Runs s.baseOffset s.acked
  acked_le : ∀ r ∈ s.acked, r.2 ≤ s.mark
  disjoint : ∀ x ∈ s.lostSet, x ∉ s.ackedSet

theorem ok_new (limit : Nat) : (new limit).Ok where
  start_le := Nat.le_refl _
  sent_le := Nat.le_refl _
  total_le := Nat.zero_le _
  lost_lt := by simp [new]
  runs := trivial
  acked_le := by simp [new]
  disjoint := by simp [new, lostSet]

/-! ## `sort_unstable` keeps the ranges -/

variable {rs : List (Nat × Nat)} {x offset stop base : Nat} {s s' : SendStream}

@[simp] theorem mem_sortRanges {r : Nat × Nat} : r ∈ sortRanges rs ↔ r ∈ rs :=
  (List.perm_insertionSort _ rs).mem_iff

theorem covers_sortRanges : Covers (sortRanges rs) x ↔ Covers rs x :=
  covers_perm (List.perm_insertionSort _ rs) x

/-! ## The loops over the acknowledged runs -/

theorem absorb_spec {floor : Nat} : ∀ {rs : List (Nat × Nat)} (stop : Nat), Runs floor rs →
    stop ≤ (absorb stop rs).1 ∧ Runs (absorb stop rs).1 (absorb stop rs).2 ∧
    (∀ r ∈ (absorb stop rs).2, r ∈ rs) ∧
    (∀ b, stop ≤ b → (∀ r ∈ rs, r.2 ≤ b) → (absorb stop rs).1 ≤ b) ∧
    ∀ x, (x < (absorb stop rs).1 ∨ Covers (absorb stop rs).2 x) ↔ (x < stop ∨ Covers rs x)
  | [], stop, _ => by simp [absorb, Runs]
  | (lo, hi) :: rest, stop, h => by
    by_cases hlt : stop < lo
    · simp only [absorb, if_pos hlt]
      refine ⟨Nat.le_refl _, ⟨hlt, h.2.1, h.2.2⟩, fun r hr => hr, fun b hb _ => hb,
        fun _ => trivial⟩
    · simp only [absorb, if_neg hlt]
      obtain ⟨h1, h2, h3, h4, h5⟩ := absorb_spec (max stop hi) h.2.2
      refine ⟨by omega, h2, fun r hr => List.mem_cons_of_mem _ (h3 r hr), ?_, fun x => ?_⟩
      · intro b hb hr
        have := hr (lo, hi) (by simp)
        exact h4 b (by simp only at this; omega) fun r hr' => hr r (by simp [hr'])
      · rw [h5 x, covers_cons]
        -- the run reaches down to the prefix, so the two together are one prefix
        constructor
        · rintro (hx | hx)
          · by_cases hs : x < stop
            · exact Or.inl hs
            · exact Or.inr (Or.inl ⟨by simp only; omega, by simp only; omega⟩)
          · exact Or.inr (Or.inr hx)
        · rintro (hx | hx | hx)
          · exact Or.inl (by omega)
          · exact Or.inl (by simp only at hx; omega)
          · exact Or.inr hx

theorem joinRuns_spec {floor : Nat} : ∀ {rs : List (Nat × Nat)} {start stop : Nat},
    floor < start → start < stop → Runs floor rs → (∀ r ∈ rs, start ≤ r.2) →
    floor < (joinRuns start stop rs).1.1 ∧
    (joinRuns start stop rs).1.1 ≤ start ∧ stop ≤ (joinRuns start stop rs).1.2 ∧
    Runs (joinRuns start stop rs).1.2 (joinRuns start stop rs).2 ∧
    (∀ b, stop ≤ b → (∀ r ∈ rs, r.2 ≤ b) → (joinRuns start stop rs).1.2 ≤ b ∧
      ∀ r ∈ (joinRuns start stop rs).2, r.2 ≤ b) ∧
    ∀ x, (((joinRuns start stop rs).1.1 ≤ x ∧ x < (joinRuns start stop rs).1.2) ∨
        Covers (joinRuns start stop rs).2 x) ↔ ((start ≤ x ∧ x < stop) ∨ Covers rs x)
  | [], start, stop, hf, hs, _, _ => by
    simp only [joinRuns, covers_nil, or_false, Runs]
    exact ⟨hf, Nat.le_refl _, Nat.le_refl _, trivial, fun b hb _ => ⟨hb, by simp⟩, fun _ => trivial⟩
  | (lo, hi) :: rest, start, stop, hf, hs, hr, htouch => by
    by_cases hlt : stop < lo
    · simp only [joinRuns, if_pos hlt]
      refine ⟨hf, Nat.le_refl _, Nat.le_refl _, ⟨hlt, hr.2.1, hr.2.2⟩, fun b hb h => ⟨hb, h⟩,
        fun _ => trivial⟩
    · simp only [joinRuns, if_neg hlt]
      have h1 := htouch (lo, hi) (by simp)
      have hlo := hr.1
      have hrest : ∀ r ∈ rest, min start lo ≤ r.2 := fun r hr' => by
        have := hr.2.2.mem_lt r hr'
        omega
      have hmin : floor < min start lo := by omega
      have hmax : min start lo < max stop hi := by omega
      have hfloor : floor ≤ hi := by omega
      obtain ⟨g1, g2, g3, g4, g5, g6⟩ := joinRuns_spec hmin hmax (hr.2.2.mono hfloor) hrest
      refine ⟨g1, by omega, by omega, g4, ?_, fun x => ?_⟩
      · intro b hb h
        have := h (lo, hi) (by simp)
        exact g5 b (by simp only at this; omega) fun r hr' => h r (by simp [hr'])
      · rw [g6 x, covers_cons]
        -- the two ranges touch, so their union is the range from the lower start to the
        -- higher end
        constructor
        · rintro (hx | hx)
          · by_cases hx' : start ≤ x ∧ x < stop
            · exact Or.inl hx'
            · exact Or.inr (Or.inl (by simp only at h1 ⊢; omega))
          · exact Or.inr (Or.inr hx)
        · rintro (hx | hx | hx)
          · exact Or.inl (by omega)
          · exact Or.inl (by simp only at hx; omega)
          · exact Or.inr hx

/-! ## Writing, finishing, raising the limit -/

variable (s)

theorem total_live : s.total = s.baseOffset + s.live.length := by
  simp [total, live]

theorem compact_live : s.compact.live = s.live := by
  simp [compact, live]

/-- `write` appends the bytes it takes to the same stream, compacted or not. -/
theorem write_cases (data : Bytes) :
    ∃ w, (w = s.compact ∨ w = s) ∧ s.write data = (min s.writable data.length,
      { w with buf := w.buf ++ data.take (min s.writable data.length) }) := by
  refine ⟨if min s.writable data.length ≠ 0 ∧ s.bufStart ≠ 0 ∧
    s.buf.length - s.bufStart ≤ s.bufStart then s.compact else s, ?_, rfl⟩
  split
  · exact Or.inl rfl
  · exact Or.inr rfl

/-- Whatever does not look at the buffer is what it was. -/
theorem write_frame {α : Type} (f : SendStream → α) (hf : ∀ s b n,
    f { s with buf := b, bufStart := n } = f s) (s : SendStream) (data : Bytes) :
    f (s.write data).2 = f s := by
  obtain ⟨w, rfl | rfl, hw⟩ := s.write_cases data
  · rw [hw]
    exact (hf s.compact _ 0).trans (hf s _ 0)
  · rw [hw]
    exact hf w _ w.bufStart

theorem write_le (data : Bytes) : (s.write data).1 ≤ s.writable :=
  Nat.min_le_left _ _

theorem writable_le : s.writable ≤ s.limit - s.total := by
  unfold writable total
  split <;> omega

variable {s}

theorem write_live (h : s.Ok) (data : Bytes) :
    (s.write data).2.live = s.live ++ data.take (s.write data).1 := by
  obtain ⟨w, hwor, hw⟩ := s.write_cases data
  have hstart : w.bufStart ≤ w.buf.length := by
    rcases hwor with rfl | rfl
    · exact Nat.zero_le _
    · exact h.start_le
  have hlive : w.live = s.live := by
    rcases hwor with rfl | rfl
    · exact s.compact_live
    · rfl
  rw [hw, ← hlive]
  exact List.drop_append_of_le_length hstart

theorem write_total (h : s.Ok) (data : Bytes) :
    (s.write data).2.total = s.total + (s.write data).1 := by
  have hbase := write_frame baseOffset (fun _ _ _ => rfl) s data
  have hlen : (data.take (s.write data).1).length = (s.write data).1 := by
    have : (s.write data).1 ≤ data.length := Nat.min_le_right _ _
    rw [List.length_take]
    omega
  rw [total_live, total_live, hbase, write_live h, List.length_append, hlen]
  omega

theorem Ok.write (h : s.Ok) (data : Bytes) : (s.write data).2.Ok := by
  have hbase := write_frame baseOffset (fun _ _ _ => rfl) s data
  have hsent := write_frame sent (fun _ _ _ => rfl) s data
  have hlost := write_frame lost (fun _ _ _ => rfl) s data
  have hacked := write_frame acked (fun _ _ _ => rfl) s data
  have hlimit := write_frame limit (fun _ _ _ => rfl) s data
  have htotal := write_total h data
  have hle := Nat.le_trans (s.write_le data) s.writable_le
  refine ⟨?_, ?_, ?_, ?_, ?_, ?_, ?_⟩
  · obtain ⟨w, rfl | rfl, hw⟩ := s.write_cases data <;> rw [hw]
    · exact Nat.zero_le _
    · have := h.start_le
      simp only [List.length_append]
      omega
  · have := h.sent_le
    simp only [total] at htotal
    omega
  · -- what is taken is what the limit leaves room for
    have := h.total_le
    omega
  · rw [hlost, hsent]
    exact h.lost_lt
  · rw [hbase, hacked]
    exact h.runs
  · rw [hacked, write_frame mark (fun _ _ _ => rfl)]
    exact h.acked_le
  · rw [write_frame lostSet (fun _ _ _ => rfl), write_frame ackedSet (fun _ _ _ => rfl)]
    exact h.disjoint

theorem Ok.finish (h : s.Ok) : s.finish.Ok :=
  ⟨h.start_le, h.sent_le, h.total_le, h.lost_lt, h.runs, h.acked_le, h.disjoint⟩

theorem Ok.setLimit (h : s.Ok) (limit : Nat) : (s.setLimit limit).Ok :=
  ⟨h.start_le, h.sent_le, Nat.le_trans h.total_le (Nat.le_max_left _ _), h.lost_lt, h.runs,
    h.acked_le, h.disjoint⟩

/-! ## Sending -/

theorem mem_lostSet : x ∈ s.lostSet ↔ s.baseOffset ≤ x ∧ Covers s.lost (x - s.baseOffset) := by
  constructor
  · rintro ⟨r, hr, h1, h2⟩
    exact ⟨by omega, r, hr, by omega, by omega⟩
  · rintro ⟨hb, r, hr, h1, h2⟩
    exact ⟨r, hr, by omega, by omega⟩

theorem mem_ackedSet : x ∈ s.ackedSet ↔ x < s.baseOffset ∨ Covers s.acked x := Iff.rfl

theorem Ok.acked_lt (h : s.Ok) (hx : x ∈ s.ackedSet) : x < s.mark := by
  rcases mem_ackedSet.mp hx with hx | ⟨r, hr, -, hx⟩
  · exact Nat.lt_of_lt_of_le hx (Nat.le_add_right _ _)
  · exact Nat.lt_of_lt_of_le hx (h.acked_le r hr)

theorem Ok.mark_le (h : s.Ok) : s.mark ≤ s.total :=
  Nat.add_le_add_left h.sent_le _

/-- What a frame from `nextSend` is: a piece of the first lost range, or bytes never sent
before, or a FIN on its own. -/
theorem nextSend_cases {max credit : Nat} {data : Bytes} {fin : Bool}
    (h : s.nextSend max credit = some (offset, data, fin)) :
    s.wasReset = false ∧
    ((∃ start stop rest, s.lost = (start, stop) :: rest ∧ max ≠ 0 ∧
        offset = s.baseOffset + start ∧ data = (s.live.drop start).take (min (stop - start) max) ∧
        fin = false) ∨
     (s.lost = [] ∧ offset = s.baseOffset + s.sent ∧
        ∃ n, 0 < n ∧ n ≤ s.live.length - s.sent ∧ n ≤ credit ∧ n ≤ max ∧
          data = (s.live.drop s.sent).take n ∧
          fin = (s.fin && decide (s.sent + n = s.live.length))) ∨
     (s.lost = [] ∧ offset = s.baseOffset + s.live.length ∧ data = [] ∧ fin = true ∧
        s.fin = true ∧ s.finSent = false ∧ s.live.length ≤ s.sent)) := by
  unfold nextSend at h
  cases hreset : s.wasReset with
  | true => simp [hreset] at h
  | false =>
    refine ⟨rfl, ?_⟩
    rw [if_neg (by simp [hreset])] at h
    cases hlost : s.lost with
    | cons r rest =>
      obtain ⟨start, stop⟩ := r
      simp only [hlost] at h
      split at h
      · exact absurd h (by simp)
      · rename_i hmax
        simp only [Option.some.injEq, Prod.mk.injEq, Nat.add_sub_cancel_left] at h
        obtain ⟨rfl, rfl, rfl⟩ := h
        exact Or.inl ⟨start, stop, rest, rfl, hmax, rfl, rfl, rfl⟩
    | nil =>
      simp only [hlost] at h
      split at h
      · rename_i hlt
        simp only [Option.some.injEq, Prod.mk.injEq, Nat.add_sub_cancel_left] at h
        obtain ⟨rfl, rfl, rfl⟩ := h
        exact Or.inr (Or.inl ⟨rfl, rfl, _, by omega, by omega, by omega, by omega, rfl, rfl⟩)
      · split at h
        · rename_i hfin
          obtain ⟨rfl, rfl, rfl⟩ := h
          exact Or.inr (Or.inr ⟨rfl, rfl, rfl, rfl, hfin.1, by simpa using hfin.2.1, hfin.2.2⟩)
        · exact absurd h (by simp)

/-- What putting the frame `(offset, data, fin)` in a packet does: `s'` is the stream after
`onSent`, and `new` the count `onSent` returns. -/
structure Sent (s : SendStream) (credit offset : Nat) (data : Bytes) (fin : Bool)
    (new : Nat) (s' : SendStream) : Prop where
  ok : s'.Ok
  base_le : s.baseOffset ≤ offset
  data_eq : data = (s.live.drop (offset - s.baseOffset)).take data.length
  end_le : offset + data.length ≤ s'.mark
  mark_eq : s'.mark = s.mark + new
  new_le : new ≤ credit
  fresh : ∀ x, s.mark ≤ x → x < s'.mark → offset ≤ x ∧ x < offset + data.length
  lost_sub : s'.lostSet ⊆ s.lostSet
  lost_sup : ∀ x ∈ s.lostSet, x ∈ s'.lostSet ∨ (offset ≤ x ∧ x < offset + data.length)
  unacked : ∀ x, offset ≤ x → x < offset + data.length → x ∉ s.ackedSet
  fin_end : fin = true → s.fin = true ∧ offset + data.length = s.total ∧ s'.mark = s.total
  acked_eq : s'.ackedSet = s.ackedSet
  flags : s'.finSent = (s.finSent || fin)
  same : s'.live = s.live ∧ s'.baseOffset = s.baseOffset ∧ s'.limit = s.limit ∧
    s'.fin = s.fin ∧ s'.finAcked = s.finAcked ∧ s'.wasReset = s.wasReset

theorem onSent_eq (s : SendStream) (offset len : Nat) (fin : Bool) :
    s.onSent offset len fin =
      ((s.onSent offset len false).1,
        { (s.onSent offset len false).2 with
          finSent := (s.onSent offset len false).2.finSent || fin }) := by
  cases fin <;> simp [onSent]

theorem onSent_lost {start : Nat} {rest : List (Nat × Nat)}
    (hlost : s.lost = (start, stop) :: rest) (hlt : start < stop) (len : Nat) :
    s.onSent (s.baseOffset + start) len false =
      (0, { s with lost := if stop ≤ start + len then rest else (start + len, stop) :: rest }) := by
  simp [onSent, hlost, hlt, resend]

theorem onSent_fresh (hlost : s.lost = []) {len : Nat} (hlen : 0 < len) :
    s.onSent (s.baseOffset + s.sent) len false = (len, { s with sent := s.sent + len }) := by
  simp [onSent, hlost, hlen]

theorem onSent_empty (hlost : s.lost = []) (offset : Nat) : s.onSent offset 0 false = (0, s) := by
  simp [onSent, hlost]

/-- A FIN's flag is not part of what makes a stream well formed, nor of its sets. -/
theorem Ok.setFinSent (h : s.Ok) (b : Bool) : { s with finSent := b }.Ok :=
  ⟨h.start_le, h.sent_le, h.total_le, h.lost_lt, h.runs, h.acked_le, h.disjoint⟩

/-- A frame of retransmitted bytes shortens the first lost range and nothing else. -/
theorem Ok.resend (h : s.Ok) {start : Nat} {rest : List (Nat × Nat)}
    (hlost : s.lost = (start, stop) :: rest) (len : Nat)
    (hs' : s' = { s with lost := if stop ≤ start + len then rest else (start + len, stop) :: rest })
    :
    s'.Ok ∧ s'.lostSet ⊆ s.lostSet ∧ ∀ x ∈ s.lostSet, x ∈ s'.lostSet ∨
      (s.baseOffset + start ≤ x ∧ x < s.baseOffset + start + len) := by
  have hsub : ∀ r ∈ s'.lost, r.1 < r.2 ∧ ∃ r' ∈ s.lost, r'.1 ≤ r.1 ∧ r.2 = r'.2 := by
    intro r hr
    rw [hlost]
    rw [hs'] at hr
    split at hr
    · exact ⟨(h.lost_lt r (by simp [hlost, hr])).1, r, by simp [hr], Nat.le_refl _, rfl⟩
    · rcases List.mem_cons.mp hr with rfl | hr
      · exact ⟨by simp only; omega, (start, stop), by simp, by simp only; omega, rfl⟩
      · exact ⟨(h.lost_lt r (by simp [hlost, hr])).1, r, by simp [hr], Nat.le_refl _, rfl⟩
  have hset : s'.lostSet ⊆ s.lostSet := by
    rintro x ⟨r, hr, h1, h2⟩
    obtain ⟨-, r', hr', h3, h4⟩ := hsub r hr
    have hb : s'.baseOffset = s.baseOffset := by rw [hs']
    exact ⟨r', hr', by omega, by omega⟩
  refine ⟨⟨?_, ?_, ?_, ?_, ?_, ?_, ?_⟩, hset, ?_⟩
  · rw [hs']; exact h.start_le
  · rw [hs']; exact h.sent_le
  · rw [hs']; exact h.total_le
  · intro r hr
    obtain ⟨h1, r', hr', -, h2⟩ := hsub r hr
    have hsent : s'.sent = s.sent := by rw [hs']
    exact ⟨h1, by rw [h2, hsent]; exact (h.lost_lt r' hr').2⟩
  · rw [hs']; exact h.runs
  · rw [hs']; exact h.acked_le
  · intro x hx
    have : s'.ackedSet = s.ackedSet := by rw [hs']; rfl
    rw [this]
    exact h.disjoint x (hset hx)
  · rintro x ⟨r, hr, h1, h2⟩
    rw [hlost] at hr
    have hb : s'.baseOffset = s.baseOffset := by rw [hs']
    rcases List.mem_cons.mp hr with rfl | hr
    · -- the head range: its front went into the packet, its tail stays
      by_cases hx : x < s.baseOffset + start + len
      · exact Or.inr ⟨h1, hx⟩
      · simp only at h1 h2
        refine Or.inl ⟨(start + len, stop), ?_, by simp only; omega, by simp only; omega⟩
        rw [hs', if_neg (by omega)]
        simp
    · refine Or.inl ⟨r, ?_, by omega, by omega⟩
      rw [hs']
      split
      · exact hr
      · simp [hr]

/-- `nextSend`, then `onSent` of its result. -/
theorem Ok.sent (h : s.Ok) {max credit : Nat} {data : Bytes} {fin : Bool}
    (hnext : s.nextSend max credit = some (offset, data, fin)) :
    Sent s credit offset data fin (s.onSent offset data.length fin).1
      (s.onSent offset data.length fin).2 := by
  have hlive : s.live.length = s.buf.length - s.bufStart := by simp [live]
  have hsent := h.sent_le
  obtain ⟨-, hcases⟩ := nextSend_cases hnext
  rw [onSent_eq]
  rcases hcases with ⟨start, stop, rest, hlost, hmax, rfl, hdata, rfl⟩ |
    ⟨hlost, rfl, n, hn, hnlive, hcredit, -, hdata, hfin⟩ |
    ⟨hlost, hoff, rfl, rfl, hfin, hnot, hall⟩
  · -- a piece of the first lost range
    have hr := h.lost_lt (start, stop) (by simp [hlost])
    have hlen : data.length = min (stop - start) max := by
      rw [hdata, List.length_take, List.length_drop]
      omega
    rw [onSent_lost hlost hr.1]
    obtain ⟨hok, hsub, hsup⟩ := h.resend hlost data.length rfl
    exact
      { ok := hok.setFinSent _
        base_le := Nat.le_add_right _ _
        data_eq := by rw [Nat.add_sub_cancel_left, hlen]; exact hdata
        end_le := by simp only [mark]; omega
        mark_eq := rfl
        new_le := Nat.zero_le _
        fresh := fun x h1 h2 => absurd h2 (Nat.not_lt.mpr h1)
        lost_sub := hsub
        lost_sup := hsup
        unacked := fun x h1 h2 =>
          h.disjoint x ⟨(start, stop), by simp [hlost], h1, by simp only; omega⟩
        fin_end := by simp
        acked_eq := rfl
        flags := rfl
        same := ⟨rfl, rfl, rfl, rfl, rfl, rfl⟩ }
  · -- bytes never sent before
    have hlen : data.length = n := by
      rw [hdata, List.length_take, List.length_drop]
      omega
    have hok : { s with sent := s.sent + data.length }.Ok :=
      ⟨h.start_le, by simp only; omega, h.total_le,
        fun r hr => absurd hr (by simp [hlost]), h.runs,
        fun r hr => Nat.le_trans (h.acked_le r hr) (by simp only [mark]; omega), h.disjoint⟩
    rw [onSent_fresh hlost (by omega)]
    exact
      { ok := hok.setFinSent _
        base_le := Nat.le_add_right _ _
        data_eq := by rw [Nat.add_sub_cancel_left, hlen]; exact hdata
        end_le := by simp only [mark]; omega
        mark_eq := by simp only [mark]; omega
        new_le := by simp only; omega
        fresh := fun x h1 h2 => by simp only [mark] at h1 h2; omega
        lost_sub := fun x hx => hx
        lost_sup := fun x hx => Or.inl hx
        unacked := fun x h1 h2 hx => by
          have := h.acked_lt hx
          simp only [mark] at this
          omega
        fin_end := by
          intro hf
          rw [hfin] at hf
          simp only [Bool.and_eq_true, decide_eq_true_eq] at hf
          refine ⟨hf.1, ?_, ?_⟩ <;> simp only [mark, total_live] <;> omega
        acked_eq := rfl
        flags := rfl
        same := ⟨rfl, rfl, rfl, rfl, rfl, rfl⟩ }
  · -- the FIN on its own
    rw [hoff, List.length_nil, onSent_empty hlost]
    exact
      { ok := h.setFinSent _
        base_le := Nat.le_add_right _ _
        data_eq := by simp
        end_le := by simp only [mark, List.length_nil]; omega
        mark_eq := rfl
        new_le := Nat.zero_le _
        fresh := fun x h1 h2 => absurd h2 (Nat.not_lt.mpr h1)
        lost_sub := fun x hx => hx
        lost_sup := fun x hx => Or.inl hx
        unacked := fun x h1 h2 => absurd h2 (by simp only [List.length_nil]; omega)
        fin_end := fun _ => by
          refine ⟨hfin, ?_, ?_⟩ <;> simp only [mark, total_live, List.length_nil] <;> omega
        acked_eq := rfl
        flags := rfl
        same := ⟨rfl, rfl, rfl, rfl, rfl, rfl⟩ }

/-- With the stream not reset, everything sent and queued, nothing more comes out exactly
when nothing is pending. -/
theorem hasPending_false (hr : s.wasReset = false) (h : s.hasPending = false) :
    s.lost = [] ∧ s.live.length ≤ s.sent ∧ (s.fin = true → s.finSent = true) := by
  simp only [hasPending, hr, Bool.not_false, Bool.true_and, Bool.or_eq_false_iff,
    Bool.not_eq_false', List.isEmpty_iff, decide_eq_false_iff_not, Nat.not_lt] at h
  obtain ⟨⟨hlost, hsent⟩, hfin⟩ := h
  refine ⟨hlost, by simpa [live] using hsent, fun hf => ?_⟩
  simpa [hf] using hfin

/-! ## Acknowledgement -/

/-- What is left of a range once another is cut out of it. -/
theorem covers_clip {start : Nat} (hlt : start < stop) (r : Nat × Nat) (x : Nat) :
    Covers (clip start stop r) x ↔ (r.1 ≤ x ∧ x < r.2) ∧ ¬ (start ≤ x ∧ x < stop) := by
  unfold clip
  split
  · simp only [covers_cons, covers_nil, or_false]; omega
  · split
    · split <;> simp only [covers_cons, covers_nil, or_false] <;> omega
    · split
      · simp only [covers_cons, covers_nil, or_false]; omega
      · simp only [covers_nil, false_iff]; omega

theorem clip_lt {start b : Nat} {r : Nat × Nat} (h : r.1 < r.2 ∧ r.2 ≤ b) :
    ∀ p ∈ clip start stop r, p.1 < p.2 ∧ p.2 ≤ b := by
  intro p hp
  unfold clip at hp
  split at hp
  · simp only [List.mem_singleton] at hp; subst hp; exact h
  · split at hp
    · split at hp <;> simp only [List.mem_cons, List.not_mem_nil, or_false] at hp
      · rcases hp with rfl | rfl <;> simp only <;> omega
      · subst hp; simp only; omega
    · split at hp
      · simp only [List.mem_singleton] at hp; subst hp; simp only; omega
      · exact absurd hp (by simp)

/-- What the acknowledgement of `[offset, offset + len)` does. -/
structure Acked (s : SendStream) (offset len : Nat) (fin : Bool) (s' : SendStream) : Prop where
  ok : s'.Ok
  acked_iff : ∀ x, x ∈ s'.ackedSet ↔ x ∈ s.ackedSet ∨ (offset ≤ x ∧ x < offset + len)
  lost_iff : ∀ x, x ∈ s'.lostSet ↔ x ∈ s.lostSet ∧ ¬ (offset ≤ x ∧ x < offset + len)
  mark_eq : s'.mark = s.mark
  total_eq : s'.total = s.total
  base_le : s.baseOffset ≤ s'.baseOffset
  live_eq : s'.live = s.live.drop (s'.baseOffset - s.baseOffset)
  flags : s'.finAcked = (s.finAcked || fin) ∧ s'.finSent = (s.finSent || fin)
  same : s'.limit = s.limit ∧ s'.fin = s.fin ∧ s'.wasReset = s.wasReset

theorem release_live (s : SendStream) (drop : Nat) : (s.release drop).live = s.live.drop drop := by
  by_cases he : s.bufStart + drop = s.buf.length
  · simp [release, live, he, List.drop_drop]
  · simp [release, live, he, List.drop_drop]

theorem release_total {drop : Nat} (h : s.Ok) (hdrop : drop ≤ s.sent) :
    (s.release drop).total = s.total := by
  have := h.sent_le
  rw [total_live, total_live, release_live, List.length_drop]
  have hlive : s.live.length = s.buf.length - s.bufStart := by simp [live]
  show s.baseOffset + drop + _ = _
  omega

theorem release_lost (s : SendStream) (drop x : Nat) :
    x ∈ (s.release drop).lostSet ↔ x ∈ s.lostSet ∧ s.baseOffset + drop ≤ x := by
  constructor
  · rintro ⟨r, hr, h1, h2⟩
    simp only [release, List.mem_filter, List.mem_map, decide_eq_true_eq] at hr h1 h2
    obtain ⟨⟨r', hr', rfl⟩, hlt⟩ := hr
    exact ⟨⟨r', hr', by omega, by omega⟩, by omega⟩
  · rintro ⟨⟨r, hr, h1, h2⟩, hx⟩
    refine ⟨(r.1 - drop, r.2 - drop), ?_, ?_, ?_⟩
    · simp only [release, List.mem_filter, List.mem_map, decide_eq_true_eq]
      exact ⟨⟨r, hr, rfl⟩, by omega⟩
    · simp only [release]; omega
    · simp only [release]; omega

/-- Releasing sent bytes keeps the stream well formed, provided the acknowledged runs have
already been moved above what is released. -/
theorem Ok.release (h : s.Ok) {drop : Nat} (hdrop : drop ≤ s.sent)
    (hruns : Runs (s.baseOffset + drop) s.acked) : (s.release drop).Ok := by
  have hsent := h.sent_le
  have hstart := h.start_le
  refine ⟨?_, ?_, ?_, ?_, hruns, ?_, ?_⟩
  · simp only [SendStream.release]
    split
    · exact Nat.zero_le _
    · omega
  · have hlive := congrArg List.length (release_live s drop)
    simp only [live, List.length_drop] at hlive
    rw [hlive]
    simp only [SendStream.release]
    omega
  · rw [release_total h hdrop]
    exact h.total_le
  · intro r hr
    simp only [SendStream.release, List.mem_filter, List.mem_map, decide_eq_true_eq] at hr ⊢
    obtain ⟨⟨r', hr', rfl⟩, hlt⟩ := hr
    have := h.lost_lt r' hr'
    exact ⟨hlt, by simp only; omega⟩
  · intro r hr
    have := h.acked_le r hr
    simp only [mark, SendStream.release] at this ⊢
    omega
  · intro x hx
    obtain ⟨hx, hge⟩ := (release_lost s drop x).mp hx
    rintro (hlt | hcov)
    · exact absurd hlt (Nat.not_lt.mpr hge)
    · exact h.disjoint x hx (Or.inr hcov)

/-- An acknowledgement that reaches the base: the prefix grows over the runs it meets. -/
theorem Ok.ackPrefix (h : s.Ok) {len : Nat} (hoff : offset ≤ s.baseOffset)
    (hbase : s.baseOffset < offset + len) (hle : offset + len ≤ s.mark) :
    Acked s offset len false ({ s with acked := (absorb (offset + len) s.acked).2 }.release
      (min ((absorb (offset + len) s.acked).1 - s.baseOffset) (s.buf.length - s.bufStart))) := by
  obtain ⟨h1, h2, h3, h4, h5⟩ := absorb_spec (offset + len) h.runs
  have hmark := h4 s.mark hle h.acked_le
  set stop := (absorb (offset + len) s.acked).1
  set acked := (absorb (offset + len) s.acked).2
  have hsent := h.sent_le
  have hdrop : min (stop - s.baseOffset) (s.buf.length - s.bufStart) = stop - s.baseOffset := by
    simp only [mark] at hmark
    omega
  rw [hdrop]
  have hruns : Runs s.baseOffset acked := h2.mono (by omega)
  -- the same stream with the swallowed runs taken out of `acked`
  have hok : { s with acked := acked }.Ok :=
    ⟨h.start_le, h.sent_le, h.total_le, h.lost_lt, hruns,
      fun r hr => h.acked_le r (h3 r hr), fun x hx hacked => h.disjoint x hx <| by
        rcases mem_ackedSet.mp hacked with hx' | hx'
        · exact Or.inl hx'
        · rcases (h5 x).mp (Or.inr hx') with hx'' | hx''
          · exact absurd (h2.lt_of_covers hx') (by omega)
          · exact Or.inr hx''⟩
  have hsent' : stop - s.baseOffset ≤ s.sent := by
    simp only [mark] at hmark
    omega
  have hbase' : s.baseOffset + (stop - s.baseOffset) = stop := by omega
  exact
    { ok := hok.release hsent' (by rw [hbase']; exact h2)
      acked_iff := fun x => by
        show x < s.baseOffset + (stop - s.baseOffset) ∨ Covers acked x ↔ _
        rw [hbase', h5 x, mem_ackedSet]
        constructor
        · rintro (hx | hx)
          · by_cases hb : x < s.baseOffset
            · exact Or.inl (Or.inl hb)
            · exact Or.inr ⟨by omega, hx⟩
          · exact Or.inl (Or.inr hx)
        · rintro ((hx | hx) | hx)
          · exact Or.inl (by omega)
          · exact Or.inr hx
          · exact Or.inl hx.2
      lost_iff := fun x => by
        rw [release_lost]
        show x ∈ s.lostSet ∧ s.baseOffset + (stop - s.baseOffset) ≤ x ↔ _
        refine and_congr_right fun hx => ?_
        -- below the new base and lost before: inside the range just acknowledged, because
        -- a run that was swallowed holds no lost byte
        have hge := (mem_lostSet.mp hx).1
        constructor
        · intro hs hin
          omega
        · intro hnot
          by_contra hlt
          rcases (h5 x).mp (Or.inl (by omega)) with hx' | hx'
          · exact hnot ⟨by omega, hx'⟩
          · exact h.disjoint x hx (Or.inr hx')
      mark_eq := by simp only [mark, SendStream.release]; omega
      total_eq := release_total hok hsent'
      base_le := Nat.le_add_right _ _
      live_eq := by
        show _ = s.live.drop (s.baseOffset + (stop - s.baseOffset) - s.baseOffset)
        rw [Nat.add_sub_cancel_left]
        exact release_live _ _
      flags := ⟨by simp [SendStream.release], by simp [SendStream.release]⟩
      same := ⟨rfl, rfl, rfl⟩ }

/-- A run put among the ones it may touch: the list stays in normal form and covers the
range besides what it covered. -/
theorem insertRun_spec {first : List (Nat × Nat)} {joined : (Nat × Nat) × List (Nat × Nat)}
    (hr : Runs base rs) (hoff : base < offset) (hlt : offset < stop)
    (hfirst : first = rs.takeWhile fun r => r.2 < offset)
    (hjoined : joined = joinRuns offset stop (rs.dropWhile fun r => r.2 < offset)) :
    Runs base (first ++ joined.1 :: joined.2) ∧
    base < joined.1.1 ∧ joined.1.1 ≤ offset ∧ stop ≤ joined.1.2 ∧
    (∀ b, stop ≤ b → (∀ r ∈ rs, r.2 ≤ b) → ∀ r ∈ first ++ joined.1 :: joined.2, r.2 ≤ b) ∧
    ∀ x, Covers (first ++ joined.1 :: joined.2) x ↔ Covers rs x ∨ (offset ≤ x ∧ x < stop) := by
  set after := rs.dropWhile fun r => r.2 < offset with hafter
  have hsplit : first ++ after = rs := by
    rw [hfirst]
    exact List.takeWhile_append_dropWhile
  have hbelow : ∀ r ∈ first, r.2 < offset := fun r hr => by
    rw [hfirst] at hr
    simpa using List.mem_takeWhile_imp hr
  obtain ⟨hrf, hra⟩ := runs_append.mp (hsplit ▸ hr)
  have hfloor : lastHi base first < offset := lastHi_lt hoff hbelow
  -- from the first run that reaches `offset` on, they all do
  have htouch : ∀ r ∈ after, offset ≤ r.2 := by
    intro r hr
    cases hd : after with
    | nil => simp [hd] at hr
    | cons r0 rest =>
      have h0 : offset ≤ r0.2 := by
        have := List.head?_dropWhile_not (fun r : Nat × Nat => decide (r.2 < offset)) rs
        rw [← hafter, hd] at this
        simpa using this
      rw [hd] at hr hra
      rcases List.mem_cons.mp hr with rfl | hr
      · exact h0
      · have := hra.2.2.mem_lt r hr
        omega
  obtain ⟨g1, g2, g3, g4, g5, g6⟩ := joinRuns_spec hfloor hlt hra htouch
  rw [← hjoined] at g1 g2 g3 g4 g5 g6
  refine ⟨?_, Nat.lt_of_le_of_lt (le_lastHi hrf) g1, g2, g3, ?_, ?_⟩
  · exact runs_append.mpr ⟨hrf, g1, Nat.lt_of_lt_of_le (Nat.lt_of_le_of_lt g2 hlt) g3, g4⟩
  · intro b hb hle r hr
    have hrest := g5 b hb fun r hr => hle r (hsplit ▸ List.mem_append_right _ hr)
    rcases List.mem_append.mp hr with hr | hr
    · exact hle r (hsplit ▸ List.mem_append_left _ hr)
    · rcases List.mem_cons.mp hr with rfl | hr
      · exact hrest.1
      · exact hrest.2 r hr
  · intro x
    rw [← hsplit, covers_append, covers_append, covers_cons, g6 x]
    tauto

theorem acknowledgeLost_lost {start : Nat} (hlt : start < stop) (x : Nat) :
    x ∈ (s.acknowledgeLost start stop).lostSet ↔
      x ∈ s.lostSet ∧ ¬ (s.baseOffset + start ≤ x ∧ x < s.baseOffset + stop) := by
  have hcov : ∀ y, Covers (s.acknowledgeLost start stop).lost y ↔
      Covers s.lost y ∧ ¬ (start ≤ y ∧ y < stop) := by
    intro y
    rw [show (s.acknowledgeLost start stop).lost = sortRanges (s.lost.flatMap (clip start stop))
      from rfl, covers_sortRanges, covers_flatMap]
    simp only [covers_clip hlt]
    constructor
    · rintro ⟨r, hr, hy, hnot⟩
      exact ⟨⟨r, hr, hy⟩, hnot⟩
    · rintro ⟨⟨r, hr, hy⟩, hnot⟩
      exact ⟨r, hr, hy, hnot⟩
  rw [mem_lostSet, mem_lostSet, hcov, and_assoc]
  refine and_congr_right fun hb => and_congr_right fun _ => ?_
  have hb' : s.baseOffset ≤ x := hb
  show ¬ (start ≤ x - s.baseOffset ∧ x - s.baseOffset < stop) ↔ _
  omega

/-- An acknowledgement beyond the base: the run joins the ones it touches and is cut out of
the lost ranges. -/
theorem Ok.ackRun (h : s.Ok) {len : Nat} (hoff : s.baseOffset < offset) (hlen : 0 < len)
    (hle : offset + len ≤ s.mark) {first : List (Nat × Nat)}
    {joined : (Nat × Nat) × List (Nat × Nat)}
    (hfirst : first = s.acked.takeWhile fun r => r.2 < offset)
    (hjoined : joined = joinRuns offset (offset + len) (s.acked.dropWhile fun r => r.2 < offset)) :
    Acked s offset len false ({ s with acked := first ++ joined.1 :: joined.2 }.acknowledgeLost
      (joined.1.1 - s.baseOffset) (joined.1.2 - s.baseOffset)) := by
  obtain ⟨hruns, hbase, hj1, hj2, hmark, hcov⟩ :=
    insertRun_spec h.runs hoff (by omega) hfirst hjoined
  have hacked : ∀ x, (x < s.baseOffset ∨ Covers (first ++ joined.1 :: joined.2) x) ↔
      x ∈ s.ackedSet ∨ (offset ≤ x ∧ x < offset + len) := by
    intro x
    rw [hcov x, mem_ackedSet, or_assoc]
  have hlost : ∀ x, x ∈ ({ s with acked := first ++ joined.1 :: joined.2 }.acknowledgeLost
      (joined.1.1 - s.baseOffset) (joined.1.2 - s.baseOffset)).lostSet ↔
      x ∈ s.lostSet ∧ ¬ (offset ≤ x ∧ x < offset + len) := by
    intro x
    rw [acknowledgeLost_lost (by omega)]
    show x ∈ s.lostSet ∧ ¬ (s.baseOffset + (joined.1.1 - s.baseOffset) ≤ x ∧
      x < s.baseOffset + (joined.1.2 - s.baseOffset)) ↔ _
    refine and_congr_right fun hx => not_congr ?_
    constructor
    · intro hin
      -- inside the joined run but not just acknowledged: acknowledged before, so not lost
      have hc : Covers (first ++ joined.1 :: joined.2) x := by
        rw [covers_append, covers_cons]
        exact Or.inr (Or.inl ⟨by omega, by omega⟩)
      rcases (hcov x).mp hc with hc | hc
      · exact absurd (Or.inr hc) (h.disjoint x hx)
      · exact hc
    · intro hin
      omega
  refine
    { ok := ⟨h.start_le, h.sent_le, h.total_le, ?_, hruns, hmark s.mark hle h.acked_le, ?_⟩
      acked_iff := hacked
      lost_iff := hlost
      mark_eq := rfl
      total_eq := rfl
      base_le := Nat.le_refl _
      live_eq := ?_
      flags := ⟨(Bool.or_false _).symm, (Bool.or_false _).symm⟩
      same := ⟨rfl, rfl, rfl⟩ }
  · intro r hr
    obtain ⟨r', hr', hclip⟩ := List.mem_flatMap.mp (mem_sortRanges.mp hr)
    exact clip_lt (h.lost_lt r' hr') r hclip
  · intro x hx hx'
    obtain ⟨hx, hnot⟩ := (hlost x).mp hx
    rcases (hacked x).mp hx' with hx' | hx'
    · exact h.disjoint x hx hx'
    · exact hnot hx'
  · show s.live = s.live.drop (s.baseOffset - s.baseOffset)
    simp

/-- The FIN part of an acknowledgement: two flags, before anything else is looked at. -/
theorem onAcked_fin (hr : s.wasReset = false) (offset len : Nat) (fin : Bool) :
    s.onAcked offset len fin =
      { s.onAcked offset len false with
        finAcked := s.finAcked || fin, finSent := s.finSent || fin } := by
  have hr' : ¬ s.wasReset = true := by simp [hr]
  cases fin <;>
  · simp only [onAcked, if_neg hr', Bool.false_eq_true, if_false, if_true, Bool.or_true,
      Bool.or_false]
    split
    · rfl
    · split <;> rfl

theorem Acked.setFlags {len : Nat} (h : Acked s offset len false s') (fin : Bool) :
    Acked s offset len fin
      { s' with finAcked := s.finAcked || fin, finSent := s.finSent || fin } where
  ok := ⟨h.ok.start_le, h.ok.sent_le, h.ok.total_le, h.ok.lost_lt, h.ok.runs, h.ok.acked_le,
    h.ok.disjoint⟩
  acked_iff := h.acked_iff
  lost_iff := h.lost_iff
  mark_eq := h.mark_eq
  total_eq := h.total_eq
  base_le := h.base_le
  live_eq := h.live_eq
  flags := ⟨rfl, rfl⟩
  same := h.same

theorem Ok.onAcked (h : s.Ok) (hr : s.wasReset = false) {len : Nat} (hle : offset + len ≤ s.mark)
    (fin : Bool) : Acked s offset len fin (s.onAcked offset len fin) := by
  rw [onAcked_fin hr]
  refine Acked.setFlags ?_ fin
  have hr' : ¬ s.wasReset = true := by simp [hr]
  simp only [SendStream.onAcked, if_neg hr', Bool.false_eq_true, if_false]
  split
  · -- nothing in the range that is not below the base
    rename_i hnone
    have hin : ∀ x, offset ≤ x ∧ x < offset + len → x < s.baseOffset := fun x hx => by omega
    exact
      { ok := h
        acked_iff := fun x => ⟨Or.inl, fun hx => hx.elim id fun hx => Or.inl (hin x hx)⟩
        lost_iff := fun x => ⟨fun hx => ⟨hx, fun hx' => by
          have := (mem_lostSet.mp hx).1
          omega⟩, And.left⟩
        mark_eq := rfl
        total_eq := rfl
        base_le := Nat.le_refl _
        live_eq := by simp
        flags := ⟨(Bool.or_false _).symm, (Bool.or_false _).symm⟩
        same := ⟨rfl, rfl, rfl⟩ }
  · rename_i hsome
    split
    · rename_i hoff
      exact h.ackPrefix hoff (by omega) hle
    · rename_i hoff
      exact h.ackRun (by omega) (by omega) hle rfl rfl

/-! ## Loss -/

/-- What the loss of `[offset, offset + len)` does. -/
structure Lost (s : SendStream) (offset len : Nat) (fin : Bool) (s' : SendStream) : Prop where
  ok : s'.Ok
  acked_eq : s'.ackedSet = s.ackedSet
  lost_iff : ∀ x, x ∈ s'.lostSet ↔
    x ∈ s.lostSet ∨ ((offset ≤ x ∧ x < offset + len) ∧ x ∉ s.ackedSet)
  flags : s'.finSent = (s.finSent && !(fin && !s.finAcked))
  same : s'.live = s.live ∧ s'.baseOffset = s.baseOffset ∧ s'.sent = s.sent ∧
    s'.limit = s.limit ∧ s'.fin = s.fin ∧ s'.finAcked = s.finAcked ∧ s'.wasReset = s.wasReset

/-- A piece up to `hi`, read from `base`, if there is anything in it. -/
theorem covers_piece {start hi : Nat} (hb : base ≤ start) (hx : base ≤ x) :
    Covers (if start < hi then [(start - base, hi - base)] else []) (x - base) ↔
      start ≤ x ∧ x < hi := by
  split
  · simp only [covers_cons, covers_nil, or_false]
    omega
  · simp only [covers_nil, false_iff]
    omega

theorem piece_lt {start hi : Nat} {r : Nat × Nat} (hb : base ≤ start) (hle : hi ≤ stop)
    (hr : r ∈ if start < hi then [(start - base, hi - base)] else []) :
    r.1 < r.2 ∧ r.2 ≤ stop - base := by
  split at hr
  · cases List.mem_singleton.mp hr
    omega
  · exact absurd hr List.not_mem_nil

/-- The pieces between the acknowledged runs, read from `base`. -/
theorem covers_lostPieces : ∀ {rs : List (Nat × Nat)} {start floor : Nat},
    base ≤ start → Runs floor rs → ∀ x, base ≤ x →
    (Covers (lostPieces base stop start rs) (x - base) ↔
      (start ≤ x ∧ x < stop) ∧ ¬ Covers rs x)
  | [], start, floor, hb, _, x, hx => by
    rw [lostPieces, covers_piece hb hx, and_iff_left (covers_nil x)]
  | (lo, hi) :: rest, start, floor, hb, hr, x, hx => by
    have hlt := hr.2.1
    have hrest : Covers rest x → hi < x := fun hc => hr.2.2.lt_of_covers hc
    simp only [lostPieces]
    split
    · -- this run and all after it are past the range
      rw [covers_piece hb hx]
      refine (and_iff_left_of_imp fun hin hc => ?_).symm
      rcases covers_cons.mp hc with hc | hc
      · simp only at hc; omega
      · have := hrest hc; omega
    · split
      · rw [covers_lostPieces hb hr.2.2 x hx, covers_cons]
        constructor
        · rintro ⟨hin, hc⟩
          exact ⟨hin, fun hor => hor.elim (fun h => by simp only at h; omega) hc⟩
        · rintro ⟨hin, hc⟩
          exact ⟨hin, fun h => hc (Or.inr h)⟩
      · rw [covers_append, covers_lostPieces (by omega) hr.2.2 x hx, covers_cons,
          covers_piece hb hx]
        by_cases hc : Covers rest x
        · have := hrest hc
          simp only [hc, or_true, not_true_eq_false, and_false, or_false, iff_false]
          omega
        · simp only [hc, or_false, not_false_eq_true, and_true]
          omega

theorem lostPieces_lt : ∀ {rs : List (Nat × Nat)} {start : Nat},
    base ≤ start → ∀ r ∈ lostPieces base stop start rs, r.1 < r.2 ∧ r.2 ≤ stop - base
  | [], start, hb, r, hr => piece_lt hb (Nat.le_refl _) hr
  | (lo, hi) :: rest, start, hb, r, hr => by
    simp only [lostPieces] at hr
    split at hr
    · exact piece_lt hb (Nat.le_refl _) hr
    · split at hr
      · exact lostPieces_lt hb r hr
      · rcases List.mem_append.mp hr with hr | hr
        · exact piece_lt hb (by omega) hr
        · exact lostPieces_lt (by omega) r hr

theorem onLost_fin (hr : s.wasReset = false) (offset len : Nat) (fin : Bool) :
    s.onLost offset len fin =
      { s.onLost offset len false with finSent := s.finSent && !(fin && !s.finAcked) } := by
  have hr' : ¬ s.wasReset = true := by simp [hr]
  have hflag : (s.finSent && !(fin && !s.finAcked)) =
      if fin = true ∧ ¬ s.finAcked = true then false else s.finSent := by
    cases fin <;> cases s.finAcked <;> simp
  rw [hflag]
  by_cases hf : fin = true ∧ ¬ s.finAcked = true
  · simp only [onLost, if_neg hr', if_pos hf, Bool.false_eq_true, false_and, if_false]
    split <;> rfl
  · simp only [onLost, if_neg hr', if_neg hf, Bool.false_eq_true, false_and, if_false]
    split <;> rfl

theorem Lost.setFinSent {len : Nat} (h : Lost s offset len false s') (fin : Bool) :
    Lost s offset len fin { s' with finSent := s.finSent && !(fin && !s.finAcked) } where
  ok := h.ok.setFinSent _
  acked_eq := h.acked_eq
  lost_iff := h.lost_iff
  flags := rfl
  same := h.same

theorem Ok.onLost (h : s.Ok) (hr : s.wasReset = false) {len : Nat} (hle : offset + len ≤ s.mark)
    (fin : Bool) : Lost s offset len fin (s.onLost offset len fin) := by
  rw [onLost_fin hr]
  refine Lost.setFinSent ?_ fin
  have hr' : ¬ s.wasReset = true := by simp [hr]
  simp only [SendStream.onLost, if_neg hr', Bool.false_eq_true, false_and, if_false]
  split
  · -- acknowledged in the meantime
    rename_i hnone
    exact
      { ok := h
        acked_eq := rfl
        lost_iff := fun x => ⟨Or.inl, fun hx => hx.elim id fun hx =>
          absurd (Or.inl (by omega)) hx.2⟩
        flags := by simp
        same := ⟨rfl, rfl, rfl, rfl, rfl, rfl, rfl⟩ }
  · have hstop : min (offset + len) (s.baseOffset + min s.sent (s.buf.length - s.bufStart)) =
        offset + len := by
      have := h.sent_le
      simp only [mark] at hle
      omega
    rw [hstop]
    have hb : s.baseOffset ≤ max offset s.baseOffset := Nat.le_max_right _ _
    set pieces := lostPieces s.baseOffset (offset + len) (max offset s.baseOffset) s.acked
    have hset : ∀ x, x ∈ { s with lost := sortRanges (s.lost ++ pieces) }.lostSet ↔
        x ∈ s.lostSet ∨ ((offset ≤ x ∧ x < offset + len) ∧ x ∉ s.ackedSet) := by
      intro x
      rw [mem_lostSet, mem_lostSet, mem_ackedSet]
      rw [covers_sortRanges, covers_append]
      by_cases hx : s.baseOffset ≤ x
      · rw [covers_lostPieces hb h.runs x hx]
        simp only [hx, true_and, not_or, Nat.not_lt]
        refine or_congr_right (and_congr_left fun _ => ?_)
        omega
      · simp only [hx, false_and, false_or, not_or, false_iff]
        rintro ⟨-, hnot, -⟩
        omega
    refine
      { ok := ⟨h.start_le, h.sent_le, h.total_le, ?_, h.runs, h.acked_le, ?_⟩
        acked_eq := rfl
        lost_iff := hset
        flags := by simp
        same := ⟨rfl, rfl, rfl, rfl, rfl, rfl, rfl⟩ }
    · intro r hmem
      rcases List.mem_append.mp (mem_sortRanges.mp hmem) with hmem | hmem
      · exact h.lost_lt r hmem
      · have := lostPieces_lt hb r hmem
        exact ⟨this.1, by simp only; omega⟩
    · intro x hx hacked
      rcases (hset x).mp hx with hx | hx
      · exact h.disjoint x hx hacked
      · exact hx.2 hacked

end SendStream
end Shb.Quic
