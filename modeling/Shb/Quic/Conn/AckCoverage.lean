import Shb.Quic.AckRanges
import Shb.Quic.Conn.AckInvariant

/-!
# What the peer knows was received

An acknowledgement of a packet of ours that carried an ACK lets the connection forget what
that ACK named. The connection remembers of it only its largest number, and forgets every
range up to there. That is right as long as everything at or below the largest was already in
the ACK: `Covered`. A packet that comes late, below the largest of an ACK still in flight, is
not in it, and is forgotten with the rest.

`Op.stepSent` runs a connection with the packets it has sent next to it.
-/

namespace Shb.Quic

open Lib Accounts Accounts.Act

/-- The packet carries an ACK frame that names `n`. -/
def OutPacket.Acknowledges (o : OutPacket) (n : Nat) : Prop :=
  ∃ f, .ok f ∈ frames o.payload ∧ inRanges f.acks n = true

namespace AckState

variable {n : Nat}

theorem mem_of_inRanges {ranges : List (Nat × Nat)} :
    inRanges ranges n = true ↔ n ∈ members ranges := by
  simp [inRanges, mem_members]

theorem members_of_sublist {l m : List (Nat × Nat)} (h : l.Sublist m) (hn : n ∈ members l) :
    n ∈ members m := by
  obtain ⟨r, hr, hin⟩ := mem_members.mp hn
  exact mem_members.mpr ⟨r, h.subset hr, hin⟩

theorem Bounded.of_sublist {s t : AckState} (h : s.Bounded) (hst : t.ranges.Sublist s.ranges) :
    t.Bounded :=
  ⟨h.spaced.sublist hst, Nat.le_trans hst.length_le h.short⟩

/-- A recorded packet adds its number and no other. -/
theorem mem_record {s : AckState} (h : s.Bounded) {pn : Nat} {eliciting : Bool} {now : Nat}
    (hn : n ∈ members (s.record pn eliciting now).ranges) : n = pn ∨ n ∈ members s.ranges := by
  rw [ranges_record h] at hn
  have hadd := members_of_sublist (List.take_sublist _ _) hn
  rw [members_add h.spaced] at hadd
  exact Finset.mem_insert.mp hadd

end AckState

namespace Accounts

/-- Every ACK in flight names everything received up to its largest number. -/
structure Covered (outs : List OutPacket) (a : Accounts) : Prop where
  wf : a.Wf
  bounded : ∀ sp, (a.acks sp).Bounded
  small : ∀ sp, ∀ n ∈ members (a.acks sp).ranges, n < 2 ^ 62
  covered : ∀ sp, ∀ p ∈ a.flight sp, ∀ largest, p.ackLargest = some largest →
    ∃ o ∈ outs, o.space = sp ∧ o.number = p.number ∧
      ∀ n ∈ members (a.acks sp).ranges, n ≤ largest → o.Acknowledges n

variable {a a' : Accounts} {outs : List OutPacket} {sp : Space}

/-- Nothing but a recorded packet adds to what was received. -/
theorem Step.ranges_sublist {e : Act} (h : Step a e a') (he : ∀ sp, e ≠ .record sp) (sp : Space) :
    (a'.acks sp).ranges.Sublist (a.acks sp).ranges := by
  have hupdate : ∀ (sp' : Space) (s : AckState), s.ranges.Sublist (a.acks sp').ranges →
      (Function.update a.acks sp' s sp).ranges.Sublist (a.acks sp).ranges := by
    intro sp' s hs
    rw [Function.update_apply]
    split
    · rename_i heq
      exact heq ▸ hs
    · exact List.Sublist.refl _
  have hacks := h.acks
  cases e with
  | record sp' => exact absurd rfl (he sp')
  | trim sp' n => exact hacks ▸ hupdate sp' _ List.filter_sublist
  | taken sp' => exact hacks ▸ hupdate sp' _ (List.Sublist.refl _)
  | discard sp' => exact hacks ▸ hupdate sp' _ (List.nil_sublist _)
  | _ =>
    rw [hacks]

/-- Fewer ranges, fewer packets in flight. -/
theorem Covered.shrink (h : a.Covered outs) (hw : a'.Wf)
    (hranges : ∀ sp, (a'.acks sp).ranges.Sublist (a.acks sp).ranges)
    (hflight : ∀ sp, a'.flight sp ⊆ a.flight sp) : a'.Covered outs where
  wf := hw
  bounded := fun sp => (h.bounded sp).of_sublist (hranges sp)
  small := fun sp n hn => h.small sp n (AckState.members_of_sublist (hranges sp) hn)
  covered := fun sp p hp largest hl => by
    obtain ⟨o, ho, hsp, hnum, hcov⟩ := h.covered sp p (hflight sp hp) largest hl
    exact ⟨o, ho, hsp, hnum, fun n hn => hcov n (AckState.members_of_sublist (hranges sp) hn)⟩

/-- Everything but recording and sending keeps the coverage. -/
def Neither : Act → Prop
  | .record _ => False
  | .emitted _ => False
  | _ => True

theorem Covered.kept (outs : List OutPacket) : Kept Neither (Covered outs) where
  wf := Covered.wf
  step := fun h ha hs => by
    refine h.shrink (h.wf.step hs) (hs.ranges_sublist ?_) (hs.flight_subset ?_)
    · intro sp heq
      rw [heq] at ha
      exact ha
    · intro sp heq
      rw [heq] at ha
      exact ha

/-- Every ACK of a space in flight ends below `pn`. -/
def Above (sp : Space) (pn : Nat) (a : Accounts) : Prop :=
  ∀ p ∈ a.flight sp, ∀ largest, p.ackLargest = some largest → largest < pn

theorem Above.step {pn : Nat} {e : Act} (h : Above sp pn a) (hs : Step a e a') (he : Neither e) :
    Above sp pn a' := by
  have hsub := hs.flight_subset (fun sp' heq => by rw [heq] at he; exact he) sp
  exact fun p hp => h p (hsub hp)

/-- A packet above every ACK in flight is recorded. -/
theorem Covered.record (h : a.Covered outs) {pn : Nat} (habove : Above sp pn a)
    (hsmall : pn < 2 ^ 62) (eliciting : Bool) (now : Nat) :
    Covered outs { a with
      acks := Function.update a.acks sp ((a.acks sp).record pn eliciting now) } := by
  have hrecord : ∀ sp', ∀ n ∈ members (Function.update a.acks sp
      ((a.acks sp).record pn eliciting now) sp').ranges,
      (sp' = sp ∧ n = pn) ∨ n ∈ members (a.acks sp').ranges := by
    intro sp' n hn
    rw [Function.update_apply] at hn
    split at hn
    · rename_i heq
      rcases AckState.mem_record (h.bounded sp) hn with hn | hn
      · exact Or.inl ⟨heq, hn⟩
      · exact Or.inr (heq ▸ hn)
    · exact Or.inr hn
  refine ⟨h.wf.step (Step.record sp pn eliciting now), ?_, ?_, ?_⟩
  · exact (Function.forall_update_iff a.acks (p := fun _ s => s.Bounded)).mpr
      ⟨(h.bounded sp).record pn eliciting now, fun sp' _ => h.bounded sp'⟩
  · intro sp' n hn
    rcases hrecord sp' n hn with ⟨-, rfl⟩ | hn
    · exact hsmall
    · exact h.small sp' n hn
  · intro sp' p hp largest hl
    obtain ⟨o, ho, hsp, hnum, hcov⟩ := h.covered sp' p hp largest hl
    refine ⟨o, ho, hsp, hnum, fun n hn hle => ?_⟩
    rcases hrecord sp' n hn with ⟨rfl, rfl⟩ | hn
    · have := habove p hp largest hl
      omega
    · exact hcov n hn hle

/-- A packet goes out. If it carries an ACK, that names everything received. -/
theorem Covered.emit (h : a.Covered outs) {p : SentPacket} {o : OutPacket}
    (hp : ∀ f ∈ p.frames, .wrote f ∈ a.log) (hsp : o.space = sp) (hnum : o.number = p.number)
    (hcov : ∀ largest, p.ackLargest = some largest →
      ∀ n ∈ members (a.acks sp).ranges, o.Acknowledges n) :
    Covered (outs ++ [o]) { a with
      flight := Function.update a.flight sp (a.flight sp ++ [p]) } where
  wf := h.wf.step (Step.emit sp p hp)
  bounded := h.bounded
  small := h.small
  covered := by
    have hold : ∀ sp', ∀ q ∈ a.flight sp', ∀ largest, q.ackLargest = some largest →
        ∃ o' ∈ outs ++ [o], o'.space = sp' ∧ o'.number = q.number ∧
          ∀ n ∈ members (a.acks sp').ranges, n ≤ largest → o'.Acknowledges n := by
      intro sp' q hq largest hl
      obtain ⟨o', ho', hrest⟩ := h.covered sp' q hq largest hl
      exact ⟨o', List.mem_append_left _ ho', hrest⟩
    intro sp' q hq largest hl
    simp only [Function.update_apply] at hq
    split at hq
    · rename_i heq
      subst heq
      rcases List.mem_append.mp hq with hq | hq
      · exact hold sp' q hq largest hl
      · rw [List.mem_singleton.mp hq] at hl ⊢
        exact ⟨o, List.mem_append_right _ (List.mem_singleton_self o), hsp, hnum,
          fun n hn _ => hcov largest hl n hn⟩
    · exact hold sp' q hq largest hl

end Accounts

/-! ## Receiving -/

namespace Connection

/-- A new packet is above every number that our ACKs in flight in its space end at. -/
def Delivery.InOrder (x : Delivery) : Prop :=
  x.fresh = true → ∀ p ∈ (x.conn.space x.packet.space).sent.packets, ∀ largest,
    p.ackLargest = some largest → largest < x.packet.number

/-- A packet in order, whose number is one that QUIC has. -/
def Delivery.Orderly (x : Delivery) : Prop :=
  x.InOrder ∧ x.packet.number < 2 ^ 62

instance (x : Delivery) : Decidable x.Orderly :=
  inferInstanceAs (Decidable ((_ = true → ∀ p ∈ (x.conn.space x.packet.space).sent.packets,
    ∀ largest ∈ p.ackLargest, largest < x.packet.number) ∧ _))

variable {c : Connection} {sp : Space} {outs : List OutPacket}

theorem Neither.of_handling {f : Frame} (e : Act) (h : Handling c sp f e) : Neither e := by
  cases e <;> trivial

theorem handleFrame_covered {pn : Nat} (h : c.accounts.Covered outs ∧ Above sp pn c.accounts)
    (f : Frame) (now : Nat) :
    (c.handleFrame sp f now).2.accounts.Covered outs ∧
      Above sp pn (c.handleFrame sp f now).2.accounts := by
  have hk : Kept Neither fun a => a.Covered outs ∧ Above sp pn a :=
    ⟨fun h => h.1.wf, fun h ha hs => ⟨(Covered.kept outs).step h.1 ha hs, h.2.step hs ha⟩⟩
  exact (handleFrame_does c sp f now).keeps (hk.mono Neither.of_handling) h

/-- A packet in order keeps the coverage, and each of its frames finds it. -/
theorem handlePacket_covered {x : Delivery} (h : x.conn.accounts.Covered outs)
    (horder : x.Orderly) :
    x.result.2.accounts.Covered outs ∧
      ∀ y ∈ x.conn.packetFrames x.now x.packet, y.1.accounts.Covered outs := by
  have hdup : ∀ received, (x.conn.modifySpace x.packet.space fun s =>
      { s with received := received }).accounts = x.conn.accounts :=
    fun _ => accounts_modifySpace_of rfl rfl
  have haccept : ∀ pn generation received, x.conn.openPacket x.packet = some (pn, generation) →
      (x.conn.space x.packet.space).received.insert pn = (true, received) →
      (x.conn.acceptPacket x.packet pn generation received).accounts.Covered outs ∧
        Above x.packet.space x.packet.number
          (x.conn.acceptPacket x.packet pn generation received).accounts := by
    intro pn generation received ho hr
    have hfresh : x.fresh = true := by
      unfold Delivery.fresh
      rw [ho]
      simp only [hr]
    rw [(acceptPacket_elsewhere _ _ _ _ _).accounts]
    exact ⟨h, horder.1 hfresh⟩
  have hrecord : ∀ {d : Connection} {pn : Nat} {generation : Generation} {eliciting : Bool},
      x.conn.openPacket x.packet = some (pn, generation) →
      d.accounts.Covered outs ∧ Above x.packet.space x.packet.number d.accounts →
      (d.recordPacket x.packet.space pn eliciting x.now).accounts.Covered outs := by
    intro d pn generation eliciting ho hd
    have hacc : (d.recordPacket x.packet.space pn eliciting x.now).accounts =
        (d.modifySpace x.packet.space fun s =>
          { s with ack := s.ack.record pn eliciting x.now }).accounts :=
      rfl
    rw [hacc, accounts_modifySpace_ack rfl, number_of_openPacket ho]
    exact hd.1.record hd.2 horder.2 eliciting x.now
  obtain ⟨hend, hall⟩ := handlePacket_invariant (I := fun c => c.accounts.Covered outs)
    (J := fun c => c.accounts.Covered outs ∧ Above x.packet.space x.packet.number c.accounts)
    (Q := fun _ _ => True) (fun h => h.1) (fun received => (hdup received).symm ▸ h) haccept
    (fun h _ => handleFrame_covered h _ x.now) hrecord h fun _ _ => trivial
  exact ⟨hend, fun y hy => (hall y hy).1⟩

/-- What an ACK frame makes a space forget is named by the ACK of a packet it acknowledges. -/
theorem forgotten_acknowledged {sp' : Space} (h : c.accounts.Covered outs)
    {largest delay firstRange : Nat} {ranges : Bytes} {now n : Nat}
    (hn : n ∈ members (c.space sp').ack.ranges)
    (hgone : n ∉ members ((c.onAck sp largest delay firstRange ranges now).space sp').ack.ranges) :
    ∃ o ∈ outs, o.space = sp' ∧ sp' = sp ∧
      inRanges (ackRanges largest firstRange ranges) o.number = true ∧ o.Acknowledges n := by
  obtain ⟨r, hr, hlo, hhi⟩ := mem_members.mp hn
  -- a range above every ACK that was acknowledged is still there
  have hstays : (sp' = sp → ∀ p ∈ c.acknowledged sp (ackRanges largest firstRange ranges), ∀ m,
      p.ackLargest = some m → m < r.2) →
      r ∈ ((c.onAck sp largest delay firstRange ranges now).space sp').ack.ranges := by
    intro habove
    refine (onAck_does c sp largest delay firstRange ranges now h.wf).invariant
      (P := fun a => r ∈ (a.acks sp').ranges) (fun {a e a'} hmem he hs => ?_) hr
    have hacks := hs.acks
    cases e with
    | trim sp'' m =>
      obtain ⟨rfl, p, hp, hm⟩ := he
      rw [hacks, Function.update_apply]
      split
      · rename_i heq
        exact AckState.mem_trimBelow.mpr ⟨heq ▸ hmem, habove heq p hp m hm⟩
      · exact hmem
    | other =>
      rwa [hacks]
    | _ => exact he.elim
  by_cases habove : sp' = sp → ∀ p ∈ c.acknowledged sp (ackRanges largest firstRange ranges), ∀ m,
      p.ackLargest = some m → m < r.2
  · exact absurd (mem_members.mpr ⟨r, hstays habove, hlo, hhi⟩) hgone
  · simp only [not_forall, Nat.not_lt] at habove
    obtain ⟨rfl, p, hp, m, hm, hle⟩ := habove
    obtain ⟨hflight, hin⟩ := SentPackets.mem_drainAcked.mp hp
    obtain ⟨o, ho, hsp, hnum, hcov⟩ := h.covered sp' p hflight m hm
    exact ⟨o, ho, hsp, rfl, hnum ▸ hin, hcov n hn (Nat.le_trans hhi hle)⟩

/-! ## Sending -/

theorem starts_padTo {bytes out : Bytes} (h : bytes <+: out) (n : Nat) : bytes <+: padTo n out :=
  h.trans ⟨_, rfl⟩

/-- The ACK a packet starts with reads back. -/
theorem acknowledges_of_putAck {o : OutPacket} {s : AckState} (hb : s.Bounded)
    (hsmall : ∀ n ∈ members s.ranges, n < 2 ^ 62) {delay : Nat} {bytes : Bytes}
    (hput : putAck s.ranges delay = some bytes) (hout : bytes <+: o.payload) {n : Nat}
    (hn : n ∈ members s.ranges) : o.Acknowledges n := by
  obtain ⟨rest, hout⟩ := hout
  have hlt : ∀ r ∈ s.ranges, r.2 < 2 ^ 62 := fun r hr =>
    hsmall r.2 (mem_members.mpr ⟨r, hr, hb.spaced.ordered r hr, Nat.le_refl _⟩)
  obtain ⟨hne, largest, firstRange, enc, count, hnext, hranges⟩ :=
    nextFrame_of_putAck hb.spaced (Nat.le_trans hb.short (by decide)) hlt hput rest
  have hne' : bytes ++ rest ≠ [] := fun hnil => hne (List.append_eq_nil_iff.mp hnil).1
  refine ⟨.ack largest (delay % 2 ^ 62) firstRange enc count, ?_, ?_⟩
  · rw [← hout, frames_of_nextFrame hne' hnext]
    exact List.mem_cons_self
  · rw [Frame.acks, hranges]
    exact AckState.mem_of_inRanges.mpr hn

theorem Neither.of_quiet (e : Act) (h : Quiet e) : Neither e := by
  cases e <;> trivial

theorem Neither.of_payload (e : Act) (h : Payload e) : Neither e := by
  cases e <;> trivial

/-- Filling a payload leaves what was received as it is. -/
theorem fillPayload_ranges {c' : Connection} (hw : c.accounts.Wf) {now budget : Nat}
    {congested : Bool} {r : Except Fault Filled}
    (h : c.fillPayload sp now budget congested = (r, c')) (sp' : Space) :
    (c'.space sp').ack.ranges = (c.space sp').ack.ranges := by
  have hdoes := Does.of_result h (fillPayload_does c sp now budget congested)
  refine (hdoes hw).invariant (P := fun a => (a.acks sp').ranges = (c.space sp').ack.ranges)
    (fun {a e a'} heq he hs => ?_) rfl
  have hacks := hs.acks
  cases e with
  | taken sp'' =>
    rw [hacks, Function.update_apply]
    split
    · rename_i hsp
      exact hsp ▸ heq
    · exact heq
  | other =>
    rwa [hacks]
  | _ => exact he.elim

/-- A packet goes out: its ACK, if it has one, names everything received. -/
theorem writePacket_covered (h : c.accounts.Covered outs) (sp : Space) (key : Key)
    (now written : Nat) (congested : Bool) (pad : Option Nat) :
    Ends (fun o d => d.accounts.Covered (outs ++ o.toList)) (fun e _ => e = .panicked)
      (c.writePacket sp key now written congested pad) := by
  unfold writePacket
  split
  · rwa [Ends, Option.toList_none, List.append_nil]
  · simp only
    generalize pad.getD maxDatagram - _ = budget
    split
    · rename_i hfill
      exact fillPayload_panics hfill
    · rename_i filled d hfill
      have hd : d.accounts.Covered outs := (Does.of_result hfill
        (fillPayload_does c sp now budget congested)).keeps
          ((Covered.kept outs).mono Neither.of_payload) h
      have hranges := fillPayload_ranges h.wf hfill sp
      split
      · rwa [Ends, Option.toList_none, List.append_nil]
      · simp only [Ends]
        rw [accounts_emit]
        refine hd.emit (fillPayload_frames h.wf hfill) rfl rfl fun largest hl n hn => ?_
        obtain ⟨delay, bytes, rest, hput, hout⟩ := fillPayload_ack hfill hl
        have hn' : n ∈ members (c.space sp).ack.ranges := hranges ▸ hn
        have hstarts : bytes <+: filled.out := ⟨rest, hout.symm⟩
        refine acknowledges_of_putAck (h.bounded sp) (h.small sp) hput ?_ hn'
        split
        · exact starts_padTo (starts_padTo hstarts _) _
        · exact starts_padTo hstarts _

/-- What `poll_transmit` sends is covered. It fails before it sends anything, or panics. -/
theorem pollTransmit_covered (h : c.accounts.Covered outs) (now : Nat) (pad : Option Nat) :
    Ends (fun out d => d.accounts.Covered (outs ++ out))
      (fun e d => e = .panicked ∨ d.accounts.Covered outs) (c.pollTransmit now pad) := by
  have hstart : c.accounts.Covered (outs ++ []) := (List.append_nil outs).symm ▸ h
  refine pollTransmit_ends hstart ?_ (fun {out d} sp key written congested pad hd => ?_)
    (fun {out d} hd => ?_) (fun {out d} hd => ?_) pad
  · have hpump := (pumpTls_does c).keeps ((Covered.kept outs).mono Neither.of_quiet) h
    cases hr : c.pumpTls with
    | mk r d =>
      rw [hr] at hpump
      cases r with
      | error e => exact Or.inr hpump
      | ok _ => exact (List.append_nil outs).symm ▸ hpump
  · have hwrite := writePacket_covered hd sp key now written congested pad
    cases hr : d.writePacket sp key now written congested pad with
    | mk r d' =>
      rw [hr] at hwrite
      cases r with
      | error e => exact Or.inl hwrite
      | ok o => rwa [Ends, List.append_assoc] at hwrite
  · exact (discardSpace_does d .initial).keeps
      ((Covered.kept _).mono fun e he => by cases he; trivial) hd
  · rwa [(armIdle_elsewhere _ _).accounts]

end Connection

/-! ## Runs with what was sent -/

namespace Op

open Connection

/-- The packets an operation sends. -/
def sent (c : Connection) : Op → List OutPacket
  | transmit now pad =>
    match c.pollTransmit now pad with
    | (.ok out, _) => out
    | (.error _, _) => []
  | _ => []

/-- An operation, with the packets sent so far. -/
def stepSent (s : Connection × List OutPacket) (op : Op) : Option (Connection × List OutPacket) :=
  (op.step s.1).map fun c => (c, s.2 ++ op.sent s.1)

theorem stepSent_covered {s s' : Connection × List OutPacket} {op : Op}
    (h : s.1.accounts.Covered s.2) (hp : ∀ x ∈ op.packets s.1, x.Orderly)
    (hstep : stepSent s op = some s') : s'.1.accounts.Covered s'.2 := by
  obtain ⟨c, hc, rfl⟩ := Option.map_eq_some_iff.mp hstep
  cases op with
  | datagram now d =>
    cases hc
    rw [show s.2 ++ (datagram now d).sent s.1 = s.2 from List.append_nil _]
    exact (datagram_invariant (I := fun c => c.accounts.Covered s.2)
      (Kept.around ((Covered.kept s.2).mono Neither.of_quiet))
      (fun h hx => (handlePacket_covered h hx).1) h now d hp).1
  | transmit now pad =>
    simp only [step] at hc
    simp only [sent]
    split at hc
    · simp at hc
    · rename_i r c' hpanic hpoll
      cases hc
      have hends := pollTransmit_covered h now pad
      rw [hpoll] at hends
      cases r with
      | ok out =>
        rw [hpoll]
        exact hends
      | error e =>
        rw [hpoll, List.append_nil]
        rcases hends with rfl | hend
        · exact (hpanic rfl).elim
        · exact hend
  | _ =>
    rw [show s.2 ++ sent s.1 _ = s.2 from List.append_nil _]
    exact (does_local (fun _ _ => by simp) (fun _ _ => by simp) hc).keeps
      ((Covered.kept s.2).mono Neither.of_quiet) h

end Op

open Connection

/-- No received packet is forgotten before the peer knows of it. In every run in which each
new packet is above every number our ACKs in flight in its space end at: whatever number an ACK
frame of the next datagram removes from what was received, in whichever space, an ACK frame in a
packet we sent in that space had named it, and that packet is among those the ACK frame
acknowledges. -/
theorem trimmed_is_acknowledged {input : LocalParamsInput} {localCid initialDcid : ConnectionId}
    {tls : Tls} {ops : List Op} {c : Connection} {outs : List OutPacket}
    (hmeets : Meets Op.stepSent (fun s op => ∀ x ∈ op.packets s.1, x.Orderly)
      (connect input localCid initialDcid tls, []) ops)
    (hrun : run Op.stepSent (connect input localCid initialDcid tls, []) ops = some (c, outs))
    {now : Nat} {d : Datagram} (hd : ∀ x ∈ (Op.datagram now d).packets c, x.Orderly)
    {x : Delivery} (hx : x ∈ (Op.datagram now d).packets c) {y : Connection × Frame}
    (hy : y ∈ x.conn.packetFrames x.now x.packet) (hack : y.2.acks ≠ []) {sp : Space} {n : Nat}
    (hn : n ∈ members (y.1.space sp).ack.ranges)
    (hgone : n ∉ members ((y.1.handleFrame x.packet.space y.2 x.now).2.space sp).ack.ranges) :
    ∃ o ∈ outs, o.space = sp ∧ sp = x.packet.space ∧ inRanges y.2.acks o.number = true ∧
      o.Acknowledges n := by
  have hstart : (connect input localCid initialDcid tls).accounts.Covered [] := by
    rw [accounts_connect]
    exact ⟨Wf.start _, fun sp => ⟨Spaced.nil, Nat.zero_le _⟩, nofun, nofun⟩
  have hc : c.accounts.Covered outs := hmeets.invariant
    (P := fun s : Connection × List OutPacket => s.1.accounts.Covered s.2)
    (fun h hp hs => Op.stepSent_covered h hp hs) hstart hrun
  have hfound : x.conn.accounts.Covered outs :=
    (Op.datagram_invariant (I := fun c => c.accounts.Covered outs)
      (Kept.around ((Covered.kept outs).mono Neither.of_quiet))
      (fun h hx => (handlePacket_covered h hx).1) hc now d hd).2 x hx
  have hframe := (handlePacket_covered hfound (hd x hx)).2 y hy
  obtain ⟨c', f⟩ := y
  cases f with
  | ack largest delay firstRange ranges count => exact forgotten_acknowledged hframe hn hgone
  | _ => exact absurd rfl hack

/-! ## A packet behind the ACK that passes over it -/

/-- A datagram with one Initial packet of the server. -/
def initialDatagram (number : Nat) (payload : Bytes) : Datagram :=
  ⟨[.packet (initialPacket number payload)], none⟩

variable (late : Bool)

/-- Initial 5 is acknowledged in our first packet, and Initial 3 may come late. -/
def passedOverOps : List Op :=
  [.datagram 0 (initialDatagram 5 putPing), .transmit 1 none] ++
    if late then [.datagram 2 (initialDatagram 3 putPing)] else []

/-- An ACK of our first packet, then a PING. -/
def ackOfAck : Datagram := initialDatagram 6 ([2, 0, 0, 0, 0] ++ putPing)

/-- The connection behind them, and what it sent. -/
def passedOver : Connection × List OutPacket :=
  (run Op.stepSent (newConnection, []) (passedOverOps late)).getD (newConnection, [])

/-- The packet with the ACK, as the connection finds it. -/
def ackOfAckDelivery : Delivery :=
  ⟨3, (passedOver late).1, initialPacket 6 ([2, 0, 0, 0, 0] ++ putPing)⟩

/-- Its ACK frame, as the connection finds it. -/
def ackOfAckFrame : Connection × Frame :=
  ((ackOfAckDelivery late).conn.packetFrames 3 (ackOfAckDelivery late).packet).headD
    ((passedOver late).1, .padding)

/-- Nothing is late: 5 is forgotten, and our packet named it. -/
theorem trimmed_is_acknowledged_first :
    5 ∈ members ((ackOfAckFrame false).1.space .initial).ack.ranges ∧
    ∃ o ∈ (passedOver false).2, o.space = .initial ∧ Space.initial = .initial ∧
      inRanges (ackOfAckFrame false).2.acks o.number = true ∧ o.Acknowledges 5 := by
  have hmeets : Meets Op.stepSent (fun s op => ∀ x ∈ op.packets s.1, x.Orderly)
      (newConnection, []) (passedOverOps false) := by decide +kernel
  have hrun : run Op.stepSent (newConnection, []) (passedOverOps false) =
      some ((passedOver false).1, (passedOver false).2) := by decide +kernel
  have hn : 5 ∈ members ((ackOfAckFrame false).1.space .initial).ack.ranges := by decide +kernel
  have hnext : ∀ x ∈ Op.packets (passedOver false).1 (.datagram 3 ackOfAck), x.Orderly := by
    decide +kernel
  exact ⟨hn, trimmed_is_acknowledged (x := ackOfAckDelivery false) hmeets hrun hnext
    (by decide +kernel) (by decide +kernel) (by decide +kernel) hn (by decide +kernel)⟩

instance (o : OutPacket) (n : Nat) : Decidable (o.Acknowledges n) :=
  decidable_of_iff ((frames o.payload).any fun
    | .ok f => inRanges f.acks n
    | .error _ => false) <| by
    simp only [OutPacket.Acknowledges, List.any_eq_true]
    constructor
    · rintro ⟨r, hr, h⟩
      cases r with
      | ok f => exact ⟨f, hr, h⟩
      | error e => cases h
    · rintro ⟨f, hf, h⟩
      exact ⟨.ok f, hf, h⟩

/-- Initial 3 comes behind the ACK that passes over it. When the peer acknowledges that ACK, 3
is forgotten, and nothing we sent named it. -/
theorem trimmed_before_acknowledged :
    run Op.stepSent (newConnection, []) (passedOverOps true) = some (passedOver true) ∧
    ackOfAckDelivery true ∈ Op.packets (passedOver true).1 (.datagram 3 ackOfAck) ∧
    ackOfAckFrame true ∈ (ackOfAckDelivery true).conn.packetFrames 3
      (ackOfAckDelivery true).packet ∧
    3 ∈ members ((ackOfAckFrame true).1.space .initial).ack.ranges ∧
    3 ∉ members (((ackOfAckFrame true).1.handleFrame .initial (ackOfAckFrame true).2 3).2.space
      .initial).ack.ranges ∧
    ∀ o ∈ (passedOver true).2, ¬ o.Acknowledges 3 := by
  decide +kernel

end Shb.Quic
