import Shb.Quic.Conn.Ops

/-!
# An ACK that is owed has something to say

`put_ack` indexes the first range, so a space that owes an ACK must have one. The ranges grow
when a packet is recorded, which is after its frames; they shrink when the peer acknowledges
an ACK of ours, which is while its frames are read. A packet that is rejected part-way has
shrunk them and is not recorded. If an ACK was owed before it, from packets below the largest
that some ACK of ours named, nothing is left to put in the next.

The invariant holds in every run in which no packet does that.
-/

namespace Shb.Quic

open Lib Accounts Accounts.Act

namespace AckState

/-- An ACK that is owed can be built. -/
def Able (s : AckState) : Prop := s.ackElicitingPending = true → s.ranges ≠ []

theorem Able.record (s : AckState) (pn : Nat) (eliciting : Bool) (now : Nat) :
    (s.record pn eliciting now).Able := fun _ => record_ranges s pn eliciting now

variable {s : AckState}

theorem Able.of_not_pending (h : s.ackElicitingPending = false) : s.Able :=
  fun hp => absurd hp (by simp [h])

/-- No ACK is owed, or there is a range that acknowledgements of `acked` do not trim. -/
def Survives (s : AckState) (acked : List SentPacket) : Prop :=
  s.ackElicitingPending = false ∨
    ∃ r ∈ s.ranges, ∀ q ∈ acked, ∀ n, q.ackLargest = some n → n < r.2

instance (acked : List SentPacket) : Decidable (s.Survives acked) :=
  inferInstanceAs (Decidable (_ ∨ ∃ r ∈ s.ranges, ∀ q ∈ acked, ∀ n ∈ q.ackLargest, n < r.2))

theorem Survives.able {acked : List SentPacket} (h : s.Survives acked) : s.Able := by
  rcases h with h | ⟨r, hr, -⟩
  · exact Able.of_not_pending h
  · exact fun _ hnil => absurd (hnil ▸ hr) List.not_mem_nil

theorem Survives.trimBelow {acked : List SentPacket} (h : s.Survives acked) {q : SentPacket}
    (hq : q ∈ acked) {n : Nat} (hn : q.ackLargest = some n) : (s.trimBelow n).Survives acked := by
  rcases h with h | ⟨r, hr, hbelow⟩
  · exact Or.inl h
  · exact Or.inr ⟨r, mem_trimBelow.mpr ⟨hr, hbelow q hq n hn⟩, hbelow⟩

end AckState

namespace Accounts

variable {a a' : Accounts} {e : Act}

theorem Step.acks (h : Step a e a') :
    match e with
    | .trim sp n => a'.acks = Function.update a.acks sp ((a.acks sp).trimBelow n)
    | .record sp => ∃ s, s.Able ∧ a'.acks = Function.update a.acks sp s
    | .taken sp => a'.acks = Function.update a.acks sp (a.acks sp).takePending
    | .discard sp => a'.acks = Function.update a.acks sp {}
    | _ => a'.acks = a.acks := by
  cases h with
  | record sp pn eliciting now => exact ⟨_, AckState.Able.record _ pn eliciting now, rfl⟩
  | _ => rfl

/-- Only sending puts packets in flight. -/
theorem Step.flight_subset (h : Step a e a') (he : ∀ sp, e ≠ .emitted sp) (sp : Space) :
    a'.flight sp ⊆ a.flight sp := by
  cases h with
  | emit sp' p hp => exact absurd rfl (he sp')
  | leave sp' ps hps =>
    refine fun q hq => ?_
    simp only [Function.update_apply] at hq
    split at hq
    · rename_i hsp
      exact hsp ▸ hps q hq
    · exact hq
  | discard sp' =>
    refine fun q hq => ?_
    simp only [Function.update_apply] at hq
    split at hq
    · exact absurd hq List.not_mem_nil
    · exact hq
  | _ => exact List.Subset.refl _

structure AcksOk (a : Accounts) : Prop where
  wf : a.Wf
  able : ∀ sp, (a.acks sp).Able

/-- Everything but a trim keeps owed ACKs possible. -/
theorem AcksOk.step (h : a.AcksOk) (hs : Step a e a') (he : ∀ sp n, e ≠ .trim sp n) :
    a'.AcksOk := by
  have hacks := hs.acks
  refine ⟨h.wf.step hs, ?_⟩
  have hupdate : ∀ (sp : Space) (s : AckState), s.Able →
      ∀ sp', (Function.update a.acks sp s sp').Able := fun sp s hable =>
    (Function.forall_update_iff a.acks (p := fun _ s => s.Able)).mpr ⟨hable,
      fun sp' _ => h.able sp'⟩
  cases e with
  | trim sp n => exact absurd rfl (he sp n)
  | record sp =>
    obtain ⟨s, hs, heq⟩ := hacks
    exact heq ▸ hupdate sp s hs
  | taken sp | discard sp => exact hacks ▸ hupdate sp _ (AckState.Able.of_not_pending rfl)
  | _ =>
    exact hacks ▸ h.able

theorem AcksOk.kept {A : Act → Prop} (hA : ∀ sp n, ¬ A (.trim sp n)) : Kept A AcksOk where
  wf := AcksOk.wf
  step := fun h ha hs => h.step hs fun sp n heq => hA sp n (heq ▸ ha)

end Accounts

/-! ## The frames of one packet -/

namespace Accounts.Act

/-- What the frames of a packet do: nothing is recorded or sent, and only the acknowledgements
of its own space are trimmed, by what `acked` carried. -/
def Reading (sp : Space) (acked : List SentPacket) : Act → Prop
  | .trim sp' n => sp' = sp ∧ ∃ q ∈ acked, q.ackLargest = some n
  | .record _ => False
  | .taken _ => False
  | .emitted _ => False
  | _ => True

theorem Reading.mono {sp : Space} {acked acked' : List SentPacket} (h : acked ⊆ acked') (e : Act)
    (he : Reading sp acked e) : Reading sp acked' e := by
  cases e with
  | trim sp' n =>
    obtain ⟨hsp, q, hq, hn⟩ := he
    exact ⟨hsp, q, h hq, hn⟩
  | _ => exact he

end Accounts.Act

namespace Connection

/-- The ranges that the ACK frames among the frames handled acknowledge. -/
def acksIn (handled : List (Connection × Frame)) : List (Nat × Nat) :=
  handled.flatMap fun y => y.2.acks

theorem acknowledged_mono {c c' : Connection} {sp : Space} {ranges ranges' : List (Nat × Nat)}
    (hc : c.accounts.flight sp ⊆ c'.accounts.flight sp) (hr : ranges ⊆ ranges') :
    c.acknowledged sp ranges ⊆ c'.acknowledged sp ranges' := by
  intro q hq
  obtain ⟨hmem, hin⟩ := SentPackets.mem_drainAcked.mp hq
  refine SentPackets.mem_drainAcked.mpr ⟨hc hmem, ?_⟩
  obtain ⟨r, hr', hle⟩ := List.any_eq_true.mp hin
  exact List.any_eq_true.mpr ⟨r, hr hr', hle⟩

theorem handleFrames_reads (sp : Space) (now : Nat) :
    ∀ (fs : List (Except FrameError Frame)) (eliciting : Bool) (c : Connection),
      Does (Reading sp (c.acknowledged sp (acksIn (handledFrames sp now fs c)))) c
        (handleFrames sp now eliciting fs c).2
  | [], _, c => Does.refl c
  | .error _ :: _, _, c => Does.refl c
  | .ok f :: rest, eliciting, c => by
    intro hw
    have hhead : ∀ e, Handling c sp f e →
        Reading sp (c.acknowledged sp (acksIn (handledFrames sp now (.ok f :: rest) c))) e := by
      intro e he
      cases e with
      | trim sp' n =>
        obtain ⟨hsp, q, hq, hn⟩ := he
        refine ⟨hsp, q, acknowledged_mono (List.Subset.refl _) ?_ hq, hn⟩
        exact List.subset_append_left _ _
      | record | taken | emitted => exact he
      | _ => trivial
    have hframe := handleFrame_does c sp f now
    have hmono := hframe.mono hhead
    simp only [handleFrames, handledFrames] at hmono ⊢
    rcases hf : c.handleFrame sp f now with ⟨_ | _, c'⟩
    all_goals rw [hf] at hmono
    · exact hmono hw
    · have hpath := Does.of_result hf hframe hw
      -- nothing is sent meanwhile, so what is in flight behind the frame was before it
      have hflight : c'.accounts.flight sp ⊆ c.accounts.flight sp :=
        hpath.invariant (P := fun a => a.flight sp ⊆ c.accounts.flight sp)
          (fun hs ha hstep => List.Subset.trans
            (hstep.flight_subset (fun sp' heq => by rw [heq] at ha; exact ha) sp) hs)
          (List.Subset.refl _)
      refine (hmono.trans ((handleFrames_reads sp now rest _ c').mono (Reading.mono ?_))) hw
      exact acknowledged_mono hflight (List.subset_append_right _ _)

end Connection

namespace Accounts

/-- The frames of a packet leave the other spaces' ACKs possible, and the packet's own if it
survives what they acknowledge. -/
theorem AcksOk.reads {a a' : Accounts} {sp : Space} {acked : List SentPacket} (h : a.AcksOk)
    (hp : Steps Step (Reading sp acked) a a') :
    (∀ sp', sp' ≠ sp → (a'.acks sp').Able) ∧
    ((a.acks sp).Survives acked → (a'.acks sp).Survives acked) := by
  refine hp.invariant (P := fun b => (∀ sp', sp' ≠ sp → (b.acks sp').Able) ∧
    ((a.acks sp).Survives acked → (b.acks sp).Survives acked)) ?_ ⟨fun sp' _ => h.able sp', id⟩
  intro b e b' hb he hs
  have hacks := hs.acks
  cases e with
  | trim sp' n =>
    obtain ⟨rfl, q, hq, hn⟩ := he
    rw [hacks]
    refine ⟨fun sp hsp => ?_, fun hsurv => ?_⟩
    · rw [Function.update_of_ne hsp]
      exact hb.1 sp hsp
    · rw [Function.update_self]
      exact (hb.2 hsurv).trimBelow hq hn
  | discard sp' =>
    rw [hacks]
    have hempty : ({} : AckState).ackElicitingPending = false := rfl
    refine ⟨fun sp'' hsp => ?_, fun hsurv => ?_⟩
    · rw [Function.update_apply]
      split
      · exact AckState.Able.of_not_pending hempty
      · exact hb.1 sp'' hsp
    · rw [Function.update_apply]
      split
      · exact Or.inl hempty
      · exact hb.2 hsurv
  | record | taken | emitted => exact absurd he id
  | _ =>
    rw [hacks]
    exact hb

end Accounts

namespace Connection

/-- Whether every frame of a packet can be read and is taken. -/
def Delivery.taken (x : Delivery) : Bool :=
  (frames x.packet.payload).all Except.toBool &&
    (x.conn.packetFrames x.now x.packet).all fun y =>
      (y.1.handleFrame x.packet.space y.2 x.now).1.toBool

/-- A packet that is rejected part-way leaves something to acknowledge wherever an ACK is
owed: none is owed in its space, or a range is there whose end is above all that those ACKs of
ours named which its ACK frames acknowledge, up to the frame that is rejected. -/
def Delivery.Safe (x : Delivery) : Prop :=
  x.fresh = true → x.taken = false → (x.conn.space x.packet.space).ack.Survives
    (x.conn.acknowledged x.packet.space (acksIn (x.conn.packetFrames x.now x.packet)))

instance (x : Delivery) : Decidable x.Safe :=
  inferInstanceAs (Decidable (_ = true → _ = false → AckState.Survives _ _))

theorem handleFrames_taken (sp : Space) (now : Nat) :
    ∀ (fs : List (Except FrameError Frame)) (eliciting : Bool) (c : Connection),
      fs.all Except.toBool = true →
      ((handledFrames sp now fs c).all fun y => (y.1.handleFrame sp y.2 now).1.toBool) = true →
      (handleFrames sp now eliciting fs c).1.toBool = true
  | [], _, _, _, _ => rfl
  | .error _ :: _, _, _, hread, _ => absurd hread Bool.false_ne_true
  | .ok f :: rest, eliciting, c, hread, htaken => by
    simp only [handledFrames, handleFrames, List.all_cons, Bool.and_eq_true] at htaken ⊢
    rcases hf : c.handleFrame sp f now with ⟨_ | _, c'⟩
    · rw [hf] at htaken
      exact absurd htaken.1 Bool.false_ne_true
    · rw [hf] at htaken
      exact handleFrames_taken sp now rest _ c' hread htaken.2

theorem Delivery.Safe.acksOk {x : Delivery} (hi : x.conn.accounts.AcksOk) (hx : x.Safe) :
    x.result.2.accounts.AcksOk := by
  obtain ⟨now, c, p⟩ := x
  unfold Safe fresh taken packetFrames at hx
  unfold result handlePacket
  cases ho : c.openPacket p with
  | none => exact hi
  | some o =>
    obtain ⟨pn, generation⟩ := o
    simp only [ho] at hx ⊢
    rcases hr : (c.space p.space).received.insert pn with ⟨_ | _, received⟩
    · have hacc : (c.modifySpace p.space fun s => { s with received := received }).accounts =
          c.accounts := accounts_modifySpace_of rfl rfl
      exact hacc ▸ hi
    · simp only [hr, forall_const] at hx ⊢
      have haccept := (acceptPacket_elsewhere c p pn generation received).accounts
      generalize c.acceptPacket p pn generation received = c₁ at hx haccept
      have hi₁ : c₁.accounts.AcksOk := haccept ▸ hi
      have hflight : ∀ ranges, c₁.acknowledged p.space ranges ⊆ c.acknowledged p.space ranges :=
        fun ranges => acknowledged_mono (by rw [haccept]; exact List.Subset.refl _)
          (List.Subset.refl _)
      have hpath := ((handleFrames_reads p.space now (frames p.payload) false c₁).mono
        (Reading.mono (hflight _))) hi₁.wf
      obtain ⟨hothers, hown⟩ := hi₁.reads hpath
      have htaken := handleFrames_taken p.space now (frames p.payload) false c₁
      rcases hf : handleFrames p.space now false (frames p.payload) c₁ with ⟨e | eliciting, c₂⟩
      · -- rejected part-way
        simp only [hf] at htaken hpath hothers hown ⊢
        refine ⟨hi₁.wf.path hpath, fun sp => ?_⟩
        -- the condition is about the packet's own space: ACK frames trim no other
        by_cases hsp : sp = p.space
        · rw [haccept] at hown
          refine hsp ▸ (hown (hx ?_)).able
          rw [Bool.and_eq_false_iff, ← Bool.not_eq_true, ← Bool.not_eq_true, ← not_and_or]
          exact fun h => absurd (htaken h.1 h.2) Bool.false_ne_true
        · exact hothers sp hsp
      · -- recorded: whatever was trimmed, its own number is there now
        simp only [hf] at hpath hothers ⊢
        have hrec := recordPacket_does c₂ p.space pn eliciting now (hi₁.wf.path hpath)
        refine ⟨(hi₁.wf.path hpath).path hrec, fun sp => ?_⟩
        have hacc : (c₂.recordPacket p.space pn eliciting now).accounts.acks =
            Function.update c₂.accounts.acks p.space
              ((c₂.space p.space).ack.record pn eliciting now) :=
          congrArg Accounts.acks (show (c₂.modifySpace p.space fun s =>
            { s with ack := s.ack.record pn eliciting now }).accounts = _ from
            accounts_modifySpace_ack rfl)
        rw [hacc, Function.update_apply]
        split
        · exact AckState.Able.record _ pn eliciting now
        · rename_i hsp
          exact hothers sp hsp

/-! ## Building packets -/

variable {c : Connection} {e : Fault}

theorem validateServerParams_error (h : c.validateServerParams = .error e) : e ≠ .panicked := by
  unfold validateServerParams at h
  simp only at h
  split at h
  · cases h; simp
  · split at h
    · cases h; simp
    · split at h <;> cases h
      simp

theorem takePeerParams_error {c' : Connection} {raw : Option Bytes}
    (h : c.takePeerParams raw = (.error e, c')) : e ≠ .panicked := by
  unfold takePeerParams at h
  split at h
  · cases h; simp
  · split at h
    · cases h; simp
    · simp only at h
      split at h
      · rename_i hv
        cases h
        exact validateServerParams_error hv
      · simp at h

theorem pumpLoop_error : ∀ {ws : List TlsWrite} {c c' : Connection} {e : Fault},
    pumpLoop ws c = (.error e, c') → e ≠ .panicked
  | [], c, c', e, h => by simp [pumpLoop] at h
  | w :: ws, c, c', e, h => by
    simp only [pumpLoop] at h
    split at h
    · exact pumpLoop_error h
    · split at h
      · rename_i hp
        cases h
        exact takePeerParams_error hp
      · exact pumpLoop_error h
    · split at h
      · simp at h
      · exact pumpLoop_error h

theorem writePacket_ok (h : c.accounts.AcksOk) {sp : Space} {key : Key} {now written : Nat}
    {congested : Bool} {pad : Option Nat} {c' : Connection} :
    c.writePacket sp key now written congested pad ≠ (.error e, c') := by
  intro heq
  unfold writePacket at heq
  split at heq
  · simp at heq
  · simp only at heq
    split at heq
    · rename_i hfill
      obtain ⟨hp, hnil⟩ := fillPayload_ok hfill
      exact h.able sp hp hnil
    · split at heq <;> simp at heq

theorem AcksOk.sending : Kept Sending AcksOk := AcksOk.kept fun _ _ h => h

theorem pollTransmit_ok (h : c.accounts.AcksOk) (now : Nat) (pad : Option Nat) :
    (c.pollTransmit now pad).1 ≠ .error .panicked := by
  have hends : Ends (fun _ d => d.accounts.AcksOk) (fun e _ => e ≠ .panicked)
      (c.pollTransmit now pad) := by
    refine pollTransmit_ends h ?_ (fun {out d} sp key written congested pad hd => ?_)
      (fun {out d} hd => ?_) (fun {out d} hd => ?_) pad
    · cases hpump : c.pumpTls with
      | mk r d =>
        cases r with
        | error e => exact pumpLoop_error hpump
        | ok _ =>
          exact (Does.of_result hpump (pumpTls_does c)).keeps
            (AcksOk.sending.mono Sending.of_quiet) h
    · cases hwrite : d.writePacket sp key now written congested pad with
      | mk r d' =>
        cases r with
        | error e => exact absurd hwrite (writePacket_ok hd)
        | ok _ =>
          exact (Does.of_result hwrite (writePacket_does _ _ _ _ _ _ _)).keeps
            AcksOk.sending hd
    · exact (discardSpace_does d .initial).keeps
        (AcksOk.sending.mono fun e he => by cases he; trivial) hd
    · rwa [(armIdle_elsewhere _ _).accounts]
  intro herr
  cases hpoll : c.pollTransmit now pad with
  | mk r d =>
    rw [hpoll] at hends herr
    cases herr
    exact hends rfl

end Connection

open Connection

/-- Building an ACK does not fail. In every run whose packets all leave something to
acknowledge wherever an ACK is owed, a space that owes an ACK has a range to put in it, and
`poll_transmit` does not panic. -/
theorem owed_ack_has_ranges {input : LocalParamsInput} {localCid initialDcid : ConnectionId}
    {tls : Tls} {ops : List Op} {c : Connection}
    (hmeets : Meets Op.step (fun c op => ∀ x ∈ op.packets c, x.Safe)
      (connect input localCid initialDcid tls) ops)
    (hrun : run Op.step (connect input localCid initialDcid tls) ops = some c) :
    (∀ sp, (c.space sp).ack.ackElicitingPending = true → (c.space sp).ack.ranges ≠ []) ∧
    ∀ now pad, (c.pollTransmit now pad).1 ≠ .error .panicked := by
  have hstart : (connect input localCid initialDcid tls).accounts.AcksOk := by
    rw [accounts_connect]
    exact ⟨Wf.start _, fun sp => AckState.Able.of_not_pending rfl⟩
  have hc : c.accounts.AcksOk :=
    hmeets.invariant (P := fun c => c.accounts.AcksOk)
      (fun hi hp h => Op.keeps AcksOk.sending (fun hi hx => hx.acksOk hi) hi hp h) hstart hrun
  exact ⟨hc.able, pollTransmit_ok hc⟩

/-! ## A packet rejected part-way -/

/-- An Initial packet of the server. -/
def initialPacket (number : Nat) (payload : Bytes) : Packet :=
  serverPacket .initial (.initial serverCid) number payload

/-- Initial 5 is acknowledged in our first packet. Initial 3 comes late and is owed an ACK.
Initial 6 acknowledges our first packet, which trims everything up to 5, and then has a STREAM
frame for a stream a server cannot open. -/
def rejectedOps : List Op :=
  [ .datagram 0 ⟨[.packet (initialPacket 5 putPing)], none⟩,
    .transmit 1 none,
    .datagram 2 ⟨[.packet (initialPacket 3 putPing)], none⟩,
    .datagram 3 ⟨[.packet (initialPacket 6 ([2, 0, 0, 0, 0] ++ putStream 1 0 false [1]))], none⟩ ]

/-- The connection behind the first `n` of them. -/
def rejectedAfter (n : Nat) : Connection :=
  (run Op.step newConnection (rejectedOps.take n)).getD newConnection

theorem owed_ack_has_ranges_first :
    ((rejectedAfter 1).space .initial).ack.ackElicitingPending = true ∧
    ((rejectedAfter 1).space .initial).ack.ranges ≠ [] ∧
    ((rejectedAfter 1).pollTransmit 1 none).1 ≠ .error .panicked := by
  have hrun : run Op.step newConnection (rejectedOps.take 1) = some (rejectedAfter 1) := rfl
  have hmeets : Meets Op.step (fun c op => ∀ x ∈ op.packets c, x.Safe) newConnection
      (rejectedOps.take 1) := by decide +kernel
  have h := owed_ack_has_ranges hmeets hrun
  have hpending : ((rejectedAfter 1).space .initial).ack.ackElicitingPending = true := rfl
  exact ⟨hpending, h.1 .initial hpending, h.2 1 none⟩

theorem owed_ack_without_ranges :
    run Op.step newConnection rejectedOps = some (rejectedAfter 4) ∧
    ((rejectedAfter 4).space .initial).ack.ackElicitingPending = true ∧
    ((rejectedAfter 4).space .initial).ack.ranges = [] ∧
    ((rejectedAfter 4).pollTransmit 4 none).1 = .error .panicked :=
  ⟨rfl, rfl, rfl, rfl⟩

end Shb.Quic
