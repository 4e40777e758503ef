import Mathlib.Data.Multiset.AddSub
import Shb.Lib.Run
import Shb.Quic.SendSets

/-!
# No byte of a send stream is stranded

A `SendStream` on its own does not know what is in flight; the connection does, as the
STREAM entries of the packets it has sent. `SendSys` puts the two side by side, with the
bytes `write` has accepted since the stream was opened, and lets the connection do with
them whatever it can: in any order, frames acknowledged out of order, late, after an
earlier copy was already declared lost and sent again.

The invariant is one of coverage: **every offset below the mark is acknowledged, queued to
be sent again, or in a frame in flight.** The FIN is an extra symbol with the same fate —
acknowledged, or carried by a frame in flight, or still to be sent.
-/

namespace Shb.Quic

open Shb.Lib SendStream

/-- A STREAM frame a packet carried, as the connection remembers it for this stream. -/
structure StreamFrame where
  offset : Nat
  len : Nat
  fin : Bool
  deriving DecidableEq, Repr

namespace StreamFrame

def Has (f : StreamFrame) (x : Nat) : Prop := f.offset ≤ x ∧ x < f.offset + f.len

end StreamFrame

/-- A stream, its frames in flight, and every byte `write` has accepted. -/
structure SendSys where
  stream : SendStream
  flight : Multiset StreamFrame
  written : Bytes
  deriving DecidableEq

/-- What can happen to a stream that is not reset. -/
inductive SendOp where
  | write (data : Bytes)
  | finish
  | setLimit (limit : Nat)
  /-- `nextSend`, then `onSent` of its result. -/
  | send (max credit : Nat)
  | ack (f : StreamFrame)
  | loss (f : StreamFrame)
  deriving DecidableEq

namespace SendSys

def init (limit : Nat) : SendSys := { stream := .new limit, flight := 0, written := [] }

/-- One operation. A `write` after `finish` is refused, and so is the acknowledgement or the
loss of a frame that is not in flight. -/
def step (sys : SendSys) : SendOp → Option SendSys
  | .write data =>
    if sys.stream.fin then none
    else
      let (taken, stream) := sys.stream.write data
      some { sys with stream := stream, written := sys.written ++ data.take taken }
  | .finish => some { sys with stream := sys.stream.finish }
  | .setLimit limit => some { sys with stream := sys.stream.setLimit limit }
  | .send max credit =>
    match sys.stream.nextSend max credit with
    | none => some sys
    | some (offset, data, fin) =>
      some { sys with
        stream := (sys.stream.onSent offset data.length fin).2
        flight := ⟨offset, data.length, fin⟩ ::ₘ sys.flight }
  | .ack f =>
    if f ∈ sys.flight then
      some { sys with
        stream := sys.stream.onAcked f.offset f.len f.fin, flight := sys.flight.erase f }
    else none
  | .loss f =>
    if f ∈ sys.flight then
      some { sys with
        stream := sys.stream.onLost f.offset f.len f.fin, flight := sys.flight.erase f }
    else none

/-- The stream and its frames account for every byte written. -/
structure Inv (sys : SendSys) : Prop where
  ok : sys.stream.Ok
  alive : sys.stream.wasReset = false
  base_le : sys.stream.baseOffset ≤ sys.written.length
  live_eq : sys.stream.live = sys.written.drop sys.stream.baseOffset
  flight_le : ∀ f ∈ sys.flight, f.offset + f.len ≤ sys.stream.mark
  covered : ∀ x, x < sys.stream.mark →
    x ∈ sys.stream.ackedSet ∨ x ∈ sys.stream.lostSet ∨ ∃ f ∈ sys.flight, f.Has x
  fin_flight : ∀ f ∈ sys.flight, f.fin = true →
    sys.stream.fin = true ∧ sys.stream.mark = sys.stream.total
  fin_sent : sys.stream.finSent = true →
    sys.stream.fin = true ∧ sys.stream.mark = sys.stream.total
  fin_acked : sys.stream.finAcked = true → sys.stream.finSent = true
  fin_traced : sys.stream.finSent = true →
    sys.stream.finAcked = true ∨ ∃ f ∈ sys.flight, f.fin = true

variable {sys : SendSys}

theorem Inv.total_eq (h : sys.Inv) : sys.stream.total = sys.written.length := by
  have := h.base_le
  rw [total_live, h.live_eq, List.length_drop]
  omega

theorem inv_init (limit : Nat) : (init limit).Inv where
  ok := ok_new limit
  alive := rfl
  base_le := Nat.le_refl _
  live_eq := rfl
  flight_le := by simp [init]
  covered := fun x hx => absurd hx (Nat.not_lt_zero x)
  fin_flight := by simp [init]
  fin_sent := by simp [init, new]
  fin_acked := by simp [init, new]
  fin_traced := by simp [init, new]

/-! ## One step -/

section

variable (h : sys.Inv)
include h

theorem Inv.write (hfin : sys.stream.fin = false) (data : Bytes) :
    Inv { sys with
      stream := (sys.stream.write data).2
      written := sys.written ++ data.take (sys.stream.write data).1 } := by
  have hsent := write_frame finSent (fun _ _ _ => rfl) sys.stream data
  have hmark := write_frame mark (fun _ _ _ => rfl) sys.stream data
  have hbase := write_frame baseOffset (fun _ _ _ => rfl) sys.stream data
  -- nothing about the FIN can have happened yet
  have hno : sys.stream.finSent ≠ true := fun hs => by
    have := (h.fin_sent hs).1
    simp [hfin] at this
  refine ⟨h.ok.write data, ?_, ?_, ?_, ?_, ?_, ?_, ?_, ?_, ?_⟩
  · exact (write_frame wasReset (fun _ _ _ => rfl) sys.stream data).trans h.alive
  · have := h.base_le
    simp only [hbase, List.length_append]
    omega
  · simp only [hbase, write_live h.ok]
    rw [h.live_eq, List.drop_append_of_le_length h.base_le]
  · simpa only [hmark] using h.flight_le
  · simp only [hmark, write_frame ackedSet (fun _ _ _ => rfl),
      write_frame lostSet (fun _ _ _ => rfl)]
    exact h.covered
  · intro f hf hffin
    have := (h.fin_flight f hf hffin).1
    simp [hfin] at this
  · exact fun hs => absurd (hsent ▸ hs) hno
  · simp only [hsent, write_frame finAcked (fun _ _ _ => rfl)]
    exact h.fin_acked
  · exact fun hs => absurd (hsent ▸ hs) hno

theorem Inv.finish : Inv { sys with stream := sys.stream.finish } where
  ok := h.ok.finish
  alive := h.alive
  base_le := h.base_le
  live_eq := h.live_eq
  flight_le := h.flight_le
  covered := h.covered
  fin_flight := fun f hf hfin => ⟨rfl, (h.fin_flight f hf hfin).2⟩
  fin_sent := fun hs => ⟨rfl, (h.fin_sent hs).2⟩
  fin_acked := h.fin_acked
  fin_traced := h.fin_traced

theorem Inv.setLimit (limit : Nat) : Inv { sys with stream := sys.stream.setLimit limit } :=
  ⟨h.ok.setLimit limit, h.alive, h.base_le, h.live_eq, h.flight_le, h.covered, h.fin_flight,
    h.fin_sent, h.fin_acked, h.fin_traced⟩

theorem Inv.send {max credit offset : Nat} {data : Bytes} {fin : Bool}
    (hnext : sys.stream.nextSend max credit = some (offset, data, fin)) :
    Inv { sys with
      stream := (sys.stream.onSent offset data.length fin).2
      flight := ⟨offset, data.length, fin⟩ ::ₘ sys.flight } := by
  have hs := h.ok.sent hnext
  obtain ⟨hlive, hbase, -, hfin, hfacked, hreset⟩ := hs.same
  set stream := (sys.stream.onSent offset data.length fin).2
  have htotal : stream.total = sys.stream.total := by
    rw [total_live, total_live, hlive, hbase]
  -- the mark is never past the end, so a stream once all sent stays so
  have hall : sys.stream.mark = sys.stream.total → stream.mark = stream.total := by
    intro hm
    have h1 := hs.ok.mark_le
    have h2 := hs.mark_eq
    omega
  have hfinish : fin = true → stream.fin = true ∧ stream.mark = stream.total := fun hf => by
    obtain ⟨h1, -, h3⟩ := hs.fin_end hf
    exact ⟨hfin ▸ h1, by rw [h3, htotal]⟩
  refine ⟨hs.ok, hreset.trans h.alive, ?_, ?_, ?_, ?_, ?_, ?_, ?_, ?_⟩
  · rw [hbase]
    exact h.base_le
  · rw [hlive, hbase]
    exact h.live_eq
  · intro f hf
    rcases Multiset.mem_cons.mp hf with rfl | hf
    · exact hs.end_le
    · have h1 := h.flight_le f hf
      have h2 := hs.mark_eq
      simp only
      omega
  · intro x hx
    rw [hs.acked_eq]
    have hnew : StreamFrame.Has ⟨offset, data.length, fin⟩ x →
        ∃ f ∈ (⟨offset, data.length, fin⟩ : StreamFrame) ::ₘ sys.flight, f.Has x :=
      fun hx' => ⟨_, Multiset.mem_cons_self _ _, hx'⟩
    by_cases hm : x < sys.stream.mark
    · rcases h.covered x hm with hx' | hx' | ⟨f, hf, hx'⟩
      · exact Or.inl hx'
      · exact Or.inr ((hs.lost_sup x hx').imp id hnew)
      · exact Or.inr (Or.inr ⟨f, Multiset.mem_cons_of_mem hf, hx'⟩)
    · exact Or.inr (Or.inr (hnew (hs.fresh x (by omega) hx)))
  · intro f hf hffin
    rcases Multiset.mem_cons.mp hf with rfl | hf
    · exact hfinish hffin
    · obtain ⟨h1, h2⟩ := h.fin_flight f hf hffin
      exact ⟨hfin ▸ h1, hall h2⟩
  · intro hsent
    rw [hs.flags, Bool.or_eq_true] at hsent
    rcases hsent with hsent | hf
    · obtain ⟨h1, h2⟩ := h.fin_sent hsent
      exact ⟨hfin ▸ h1, hall h2⟩
    · exact hfinish hf
  · intro hacked
    rw [hfacked] at hacked
    rw [hs.flags, h.fin_acked hacked, Bool.true_or]
  · intro hsent
    rw [hs.flags, Bool.or_eq_true] at hsent
    rw [hfacked]
    rcases hsent with hsent | hf
    · rcases h.fin_traced hsent with ha | ⟨f, hf, hffin⟩
      · exact Or.inl ha
      · exact Or.inr ⟨f, Multiset.mem_cons_of_mem hf, hffin⟩
    · exact Or.inr ⟨_, Multiset.mem_cons_self _ _, hf⟩

theorem Inv.ack {f : StreamFrame} (hf : f ∈ sys.flight) :
    Inv { sys with
      stream := sys.stream.onAcked f.offset f.len f.fin, flight := sys.flight.erase f } := by
  have ha := h.ok.onAcked h.alive (h.flight_le f hf) f.fin
  set stream := sys.stream.onAcked f.offset f.len f.fin
  obtain ⟨-, hfin, hreset⟩ := ha.same
  have hwritten : stream.total = sys.written.length := ha.total_eq.trans h.total_eq
  refine ⟨ha.ok, hreset.trans h.alive, ?_, ?_, ?_, ?_, ?_, ?_, ?_, ?_⟩
  · rw [← hwritten]
    exact Nat.le_add_right _ _
  · have hb := ha.base_le
    rw [ha.live_eq, h.live_eq, List.drop_drop, Nat.add_sub_cancel' hb]
  · intro g hg
    rw [ha.mark_eq]
    exact h.flight_le g (Multiset.mem_of_mem_erase hg)
  · intro x hx
    rw [ha.mark_eq] at hx
    rw [ha.acked_iff, ha.lost_iff]
    by_cases hfx : f.Has x
    · exact Or.inl (Or.inr hfx)
    · rcases h.covered x hx with hx' | hx' | ⟨g, hg, hx'⟩
      · exact Or.inl (Or.inl hx')
      · exact Or.inr (Or.inl ⟨hx', hfx⟩)
      · have hne : g ≠ f := fun he => hfx (he ▸ hx')
        exact Or.inr (Or.inr ⟨g, (Multiset.mem_erase_of_ne hne).mpr hg, hx'⟩)
  · intro g hg hgfin
    rw [ha.mark_eq, ha.total_eq, hfin]
    exact h.fin_flight g (Multiset.mem_of_mem_erase hg) hgfin
  · intro hsent
    rw [ha.flags.2, Bool.or_eq_true] at hsent
    rw [ha.mark_eq, ha.total_eq, hfin]
    exact hsent.elim h.fin_sent (h.fin_flight f hf)
  · intro hacked
    rw [ha.flags.1, Bool.or_eq_true] at hacked
    rw [ha.flags.2, Bool.or_eq_true]
    exact hacked.imp h.fin_acked id
  · intro hsent
    rw [ha.flags.2, Bool.or_eq_true] at hsent
    rw [ha.flags.1, Bool.or_eq_true]
    by_cases hffin : f.fin = true
    · exact Or.inl (Or.inr hffin)
    · rcases h.fin_traced (hsent.resolve_right hffin) with ha' | ⟨g, hg, hgfin⟩
      · exact Or.inl (Or.inl ha')
      · have hne : g ≠ f := fun he => hffin (he ▸ hgfin)
        exact Or.inr ⟨g, (Multiset.mem_erase_of_ne hne).mpr hg, hgfin⟩

theorem Inv.loss {f : StreamFrame} (hf : f ∈ sys.flight) :
    Inv { sys with
      stream := sys.stream.onLost f.offset f.len f.fin, flight := sys.flight.erase f } := by
  have hl := h.ok.onLost h.alive (h.flight_le f hf) f.fin
  set stream := sys.stream.onLost f.offset f.len f.fin
  obtain ⟨hlive, hbase, hsent, -, hfin, hfacked, hreset⟩ := hl.same
  have hmark : stream.mark = sys.stream.mark := by rw [mark, mark, hbase, hsent]
  have htotal : stream.total = sys.stream.total := by rw [total_live, total_live, hlive, hbase]
  have hfsent : stream.finSent = true → sys.stream.finSent = true ∧
      (f.fin = true → sys.stream.finAcked = true) := by
    rw [hl.flags]
    cases sys.stream.finSent <;> cases f.fin <;> cases sys.stream.finAcked <;> simp
  refine ⟨hl.ok, hreset.trans h.alive, ?_, ?_, ?_, ?_, ?_, ?_, ?_, ?_⟩
  · rw [hbase]
    exact h.base_le
  · rw [hlive, hbase]
    exact h.live_eq
  · intro g hg
    rw [hmark]
    exact h.flight_le g (Multiset.mem_of_mem_erase hg)
  · intro x hx
    rw [hmark] at hx
    rw [hl.acked_eq, hl.lost_iff]
    by_cases hxa : x ∈ sys.stream.ackedSet
    · exact Or.inl hxa
    · by_cases hfx : f.Has x
      · exact Or.inr (Or.inl (Or.inr ⟨hfx, hxa⟩))
      · rcases h.covered x hx with hx' | hx' | ⟨g, hg, hx'⟩
        · exact Or.inl hx'
        · exact Or.inr (Or.inl (Or.inl hx'))
        · have hne : g ≠ f := fun he => hfx (he ▸ hx')
          exact Or.inr (Or.inr ⟨g, (Multiset.mem_erase_of_ne hne).mpr hg, hx'⟩)
  · intro g hg hgfin
    rw [hmark, htotal, hfin]
    exact h.fin_flight g (Multiset.mem_of_mem_erase hg) hgfin
  · intro hs
    rw [hmark, htotal, hfin]
    exact h.fin_sent (hfsent hs).1
  · intro ha
    rw [hfacked] at ha
    rw [hl.flags, ha, h.fin_acked ha]
    simp
  · intro hs
    obtain ⟨h1, h2⟩ := hfsent hs
    rw [hfacked]
    by_cases hffin : f.fin = true
    · exact Or.inl (h2 hffin)
    · rcases h.fin_traced h1 with ha | ⟨g, hg, hgfin⟩
      · exact Or.inl ha
      · have hne : g ≠ f := fun he => hffin (he ▸ hgfin)
        exact Or.inr ⟨g, (Multiset.mem_erase_of_ne hne).mpr hg, hgfin⟩

theorem Inv.step {sys' : SendSys} {op : SendOp} (hstep : sys.step op = some sys') : sys'.Inv := by
  cases op with
  | write data =>
    simp only [SendSys.step] at hstep
    split at hstep
    · exact absurd hstep (by simp)
    · rename_i hfin
      simp only [Option.some.injEq] at hstep
      exact hstep ▸ h.write (by simpa using hfin) data
  | finish =>
    simp only [SendSys.step, Option.some.injEq] at hstep
    exact hstep ▸ h.finish
  | setLimit limit =>
    simp only [SendSys.step, Option.some.injEq] at hstep
    exact hstep ▸ h.setLimit limit
  | send max credit =>
    simp only [SendSys.step] at hstep
    cases hnext : sys.stream.nextSend max credit with
    | none =>
      rw [hnext, Option.some.injEq] at hstep
      exact hstep ▸ h
    | some r =>
      simp only [hnext, Option.some.injEq] at hstep
      exact hstep ▸ h.send hnext
  | ack f =>
    simp only [SendSys.step] at hstep
    split at hstep
    · rename_i hf
      simp only [Option.some.injEq] at hstep
      exact hstep ▸ h.ack hf
    · exact absurd hstep (by simp)
  | loss f =>
    simp only [SendSys.step] at hstep
    split at hstep
    · rename_i hf
      simp only [Option.some.injEq] at hstep
      exact hstep ▸ h.loss hf
    · exact absurd hstep (by simp)

/-! ## Every run -/

end

/-- Acknowledged, not sent yet, queued again, or in flight. -/
def Accounted (sys : SendSys) (x : Nat) : Prop :=
  x ∈ sys.stream.ackedSet ∨ sys.stream.mark ≤ x ∨ x ∈ sys.stream.lostSet ∨
    ∃ f ∈ sys.flight, f.Has x

/-- A frame is the written bytes at the offset it names, none of them acknowledged, and
carries a FIN only at the end of everything written. -/
structure Faithful (sys : SendSys) (offset : Nat) (data : Bytes) (fin : Bool) : Prop where
  inside : offset + data.length ≤ sys.written.length
  bytes : data = (sys.written.drop offset).take data.length
  unacked : ∀ x, offset ≤ x → x < offset + data.length → x ∉ sys.stream.ackedSet
  fin_end : fin = true → sys.stream.fin = true ∧ offset + data.length = sys.written.length

theorem Inv.accounted (h : sys.Inv) (x : Nat) : sys.Accounted x := by
  by_cases hx : x < sys.stream.mark
  · rcases h.covered x hx with hx' | hx' | hx'
    · exact Or.inl hx'
    · exact Or.inr (Or.inr (Or.inl hx'))
    · exact Or.inr (Or.inr (Or.inr hx'))
  · exact Or.inr (Or.inl (by omega))

theorem Inv.faithful (h : sys.Inv) {max credit offset : Nat} {data : Bytes} {fin : Bool}
    (hnext : sys.stream.nextSend max credit = some (offset, data, fin)) :
    sys.Faithful offset data fin := by
  have hs := h.ok.sent hnext
  have hb := hs.base_le
  refine ⟨?_, ?_, hs.unacked, ?_⟩
  · have htotal : (sys.stream.onSent offset data.length fin).2.total = sys.stream.total := by
      rw [total_live, total_live, hs.same.1, hs.same.2.1]
    have h1 := hs.end_le
    have h2 := hs.ok.mark_le
    rw [htotal, h.total_eq] at h2
    omega
  · have hdata := hs.data_eq
    rw [h.live_eq, List.drop_drop, Nat.add_sub_cancel' hb] at hdata
    exact hdata
  · intro hf
    obtain ⟨h1, h2, -⟩ := hs.fin_end hf
    exact ⟨h1, h2.trans h.total_eq⟩

/-- With nothing in flight and nothing pending, the acknowledged prefix is the whole stream:
the runs beyond it never touch it, so they would leave its end uncovered. -/
theorem Inv.settled (h : sys.Inv) (hfin : sys.stream.fin = true) (hflight : sys.flight = 0)
    (hpending : sys.stream.hasPending = false) : sys.stream.isSettled = true := by
  obtain ⟨hlost, hsent, hfs⟩ := hasPending_false h.alive hpending
  have hacked : sys.stream.finAcked = true := by
    rcases h.fin_traced (hfs hfin) with ha | ⟨f, hf, -⟩
    · exact ha
    · simp [hflight] at hf
  have hempty : sys.stream.sent = 0 := by
    by_contra hne
    have hlt : sys.stream.baseOffset < sys.stream.mark := by
      simp only [mark]
      omega
    rcases h.covered _ hlt with hx | hx | ⟨f, hf, -⟩
    · rcases mem_ackedSet.mp hx with hx | hx
      · exact Nat.lt_irrefl _ hx
      · exact Nat.lt_irrefl _ (h.ok.runs.lt_of_covers hx)
    · simp [lostSet, hlost] at hx
    · simp [hflight] at hf
  have hstart := h.ok.start_le
  have hlive : sys.stream.live.length = sys.stream.buf.length - sys.stream.bufStart := by
    simp [live]
  simp only [isSettled, h.alive, hfin, hacked, Bool.false_eq_true, if_false, Bool.true_and,
    decide_eq_true_eq]
  omega

/-- Any sequence of operations on a stream and its frames in flight: every byte accepted is
accounted for, every frame offered is faithful, and a finished stream with nothing left to
do has been acknowledged in full. -/
theorem send_never_strands {limit : Nat} {ops : List SendOp} {sys : SendSys}
    (h : run SendSys.step (SendSys.init limit) ops = some sys) :
    (∀ x, x < sys.written.length → sys.Accounted x) ∧
    (∀ max credit offset data fin, sys.stream.nextSend max credit = some (offset, data, fin) →
      sys.Faithful offset data fin) ∧
    (sys.stream.fin = true → sys.flight = 0 → sys.stream.hasPending = false →
      sys.stream.isSettled = true) := by
  have hinv : sys.Inv := run_invariant (fun h => h.step) (inv_init limit) h
  exact ⟨fun x _ => hinv.accounted x, fun _ _ _ _ _ => hinv.faithful, hinv.settled⟩

/-- Two frames, the first lost and sent again, the acknowledgements the wrong way round. -/
theorem send_never_strands_reordered : let sys : SendSys :=
      { stream := { SendStream.new 8 with
          baseOffset := 5, fin := true, finSent := true, finAcked := true }
        flight := 0, written := [1, 2, 3, 4, 5] }
    run SendSys.step (SendSys.init 8)
        [.write [1, 2, 3, 4, 5], .finish, .send 2 9, .send 9 9, .loss ⟨0, 2, false⟩,
          .ack ⟨2, 3, true⟩, .send 9 0, .ack ⟨0, 2, false⟩] = some sys ∧
      (∀ x, x < 5 → sys.Accounted x) ∧ sys.stream.isSettled = true := by
  intro sys
  have h : run SendSys.step (SendSys.init 8)
      [.write [1, 2, 3, 4, 5], .finish, .send 2 9, .send 9 9, .loss ⟨0, 2, false⟩,
        .ack ⟨2, 3, true⟩, .send 9 0, .ack ⟨0, 2, false⟩] = some sys := by decide
  exact ⟨h, (send_never_strands h).1, (send_never_strands h).2.2 rfl rfl rfl⟩

end SendSys
end Shb.Quic
