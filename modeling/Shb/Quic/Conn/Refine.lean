import Shb.Quic.Conn.Elsewhere
import Shb.Quic.Conn.Lookups

/-!
# Everything a connection does is a step of its accounts

One lemma for each function of the connection: either it leaves the accounts alone, or it
takes steps of `Accounts.Step`. `Quiet` steps touch neither what is to be acknowledged nor
what has arrived; the three places that do more — an ACK frame, a STREAM or RESET_STREAM
frame, and the packet around them — say so.
-/

namespace Shb.Quic

open Lib Accounts

namespace Accounts.Act

/-- Steps on the receiving side of acknowledgements, or of data. -/
def Quiet : Act → Prop
  | .other => True
  | _ => False

end Accounts.Act

namespace Connection

open Accounts.Act

variable {c c' : Connection} {id i stop : Nat} {sp : Space} {pair : StreamPair}

/-- A step that is none of the labelled ones. -/
theorem Does.quiet (h : c.accounts.Wf → Step c.accounts .other c'.accounts) :
    Does Quiet c c' := Does.of_step (e := .other) trivial h

/-! ## Functions that leave the accounts alone -/

theorem Elsewhere.accounts {d : Connection} (h : Elsewhere c d) : d.accounts = c.accounts := by
  ext1
  case acks => exact funext fun sp => (h.spaces sp).1
  case flight => exact funext fun sp => congrArg SentPackets.packets (h.spaces sp).2.1
  all_goals
    rw [h.same]
    rfl

variable (c)

@[simp] theorem accounts_pushEvent (e : Event) : (c.pushEvent e).accounts = c.accounts := rfl

@[simp] theorem accounts_pollEvent : c.pollEvent.2.accounts = c.accounts := by
  unfold pollEvent
  split <;> rfl

@[simp] theorem accounts_countAnswered : c.countAnswered.accounts = c.accounts := rfl

@[simp] theorem accounts_queueReset (id error finalSize : Nat) :
    (c.queueReset id error finalSize).accounts = c.accounts := rfl

@[simp] theorem accounts_report (id : Nat) (readable done : Bool) :
    (c.report id readable done).accounts = c.accounts := by
  obtain ⟨_, _, h⟩ := c.report_eq id readable done
  rw [h]
  rfl

theorem accounts_countReceived (new : Nat) :
    (c.countReceived new).accounts =
      { c.accounts with dataReceived := c.accounts.dataReceived + new } := rfl

@[simp] theorem accounts_queueCredit (id : Nat) : (c.queueCredit id).accounts = c.accounts := by
  unfold queueCredit
  split <;> rfl

@[simp] theorem accounts_onPathChallenge (data : Bytes) :
    (c.onPathChallenge data).2.accounts = c.accounts := by
  unfold onPathChallenge
  split <;> rfl

variable {c}

/-! ## Sending halves -/

theorem modifySend_does {f : SendStream → SendStream}
    (h : ∀ s, c.sendMut id = some s → SendChange c.log id s (f s)) :
    Does Quiet c (c.modifySend id f) := by
  cases hs : c.sendMut id with
  | none => exact Does.of_eq (accounts_modifySend_none hs f)
  | some s =>
    refine Does.quiet fun _ => ?_
    rw [accounts_modifySend hs]
    exact Step.send hs (h s hs)

theorem settle_does (c : Connection) (id : Nat) : Does Quiet c (c.settle id) := by
  intro hw
  cases hi : c.streamIndex id with
  | none =>
    refine Does.of_eq ?_ hw
    simp only [settle, hi]
  | some i =>
    by_cases h : (c.pairAt i).any (fun pair => pair.retired && pair.send.isSettled) = true
    · refine Does.quiet (fun hw => ?_) hw
      rw [accounts_settle hw hi h]
      obtain ⟨pair, hp, hr⟩ := (Option.any_eq_true _ _).mp h
      rw [Bool.and_eq_true] at hr
      exact Step.settle id ((isRetired_of_pairAt hi hp).trans hr.1)
    · refine Does.of_eq ?_ hw
      simp only [settle, hi, if_neg h]

theorem onFrameAcked_does {f : SentFrame} (hf : .wrote f ∈ c.log) :
    Does Quiet c (c.onFrameAcked f) := by
  cases f with
  | stream id offset len fin =>
    exact (modifySend_does fun s _ => SendChange.acked hf).trans (settle_does _ id)
  | resetStream id error finalSize =>
    exact (modifySend_does fun s _ => SendChange.resetAcked).trans (settle_does _ id)
  | _ => exact Does.refl c

theorem onFrameLost_does {f : SentFrame} (hf : .wrote f ∈ c.log) (sp : Space) :
    Does Quiet c (c.onFrameLost sp f) := by
  cases f with
  | stream id offset len fin =>
    refine (modifySend_does fun s _ => SendChange.lost hf).trans (Does.of_eq ?_)
    exact accounts_queueSend _ id
  | crypto offset len => exact Does.of_eq (accounts_modifySpace_of rfl rfl)
  | maxStreamData id limit => exact Does.of_eq (accounts_queueCredit c id)
  | _ => exact Does.of_eq rfl

/-! ## Acknowledgement and loss -/

/-- Trims of one space by what packets of a list acknowledged, and unlabelled steps. -/
def Trimming (sp : Space) (acked : List SentPacket) : Act → Prop
  | .other => True
  | .trim sp' n => sp' = sp ∧ ∃ p ∈ acked, p.ackLargest = some n
  | _ => False

theorem Trimming.of_quiet {acked : List SentPacket} (e : Act) (h : Quiet e) :
    Trimming sp acked e := by
  cases e <;> trivial

theorem onPacketAcked_does {acked : List SentPacket} {p : SentPacket} (hp : p ∈ acked)
    (hf : ∀ f ∈ p.frames, .wrote f ∈ c.log) :
    Does (Trimming sp acked) c (c.onPacketAcked sp p) := by
  have hR := Does.written (Trimming sp acked) p.frames
  have hframes := hR.foldl (g := fun c f => c.onFrameAcked f) (l := p.frames) fun d f hfm hw =>
    (onFrameAcked_does (hw f hfm)).mono Trimming.of_quiet
  unfold onPacketAcked
  cases hl : p.ackLargest with
  | none => exact hframes c hf
  | some n =>
    refine hR.trans (fun _ => Does.of_step (e := .trim sp n) ⟨rfl, p, hp, hl⟩ fun _ =>
      ?_) (hframes _) hf
    rw [accounts_modifySpace_ack rfl]
    exact Step.trim sp n

theorem leave_does {sent : SentPackets} (h : ∀ p ∈ sent.packets, p ∈ (c.space sp).sent.packets) :
    Does Quiet c (c.modifySpace sp fun s => { s with sent := sent }) := by
  refine Does.quiet fun _ => ?_
  rw [accounts_modifySpace_flight rfl]
  exact Step.leave sp _ h

/-- The frames of packets in flight have been written. -/
theorem wrote_of_flight (hw : c.accounts.Wf) {ps : List SentPacket}
    (h : ∀ p ∈ ps, p ∈ (c.space sp).sent.packets) :
    ∀ f ∈ ps.flatMap SentPacket.frames, .wrote f ∈ c.log := by
  intro f hf
  obtain ⟨p, hp, hf⟩ := List.mem_flatMap.mp hf
  exact hw.flight sp p (h p hp) f hf

theorem detectLost_does (c : Connection) (sp : Space) (now lossDelay : Nat) :
    Does Quiet c (c.detectLost sp now lossDelay).2 := by
  intro hw
  obtain ⟨hlost, hkept⟩ := SentPackets.detectLost_subset (c.space sp).sent now lossDelay
  exact detectLost_composes (Does.written Quiet _) (fun _ _ _ => Does.of_eq rfl)
    (fun _ => leave_does hkept)
    (fun d p hp f hf hwrote => onFrameLost_does (hwrote f (List.mem_flatMap.mpr ⟨p, hp, hf⟩)) sp)
    (fun d _ _ => Does.of_eq (accounts_modifySpace_of rfl rfl)) (wrote_of_flight hw hlost) hw

/-- The packets of a space in flight that some ranges acknowledge. -/
def acknowledged (c : Connection) (sp : Space) (ranges : List (Nat × Nat)) : List SentPacket :=
  ((c.space sp).sent.drainAcked ranges).1

theorem onAck_does (c : Connection) (sp : Space) (largest delay firstRange : Nat)
    (ranges : Bytes) (now : Nat) :
    Does (Trimming sp (c.acknowledged sp (ackRanges largest firstRange ranges))) c
      (c.onAck sp largest delay firstRange ranges now) := by
  intro hw
  refine onAck_composes (Does.written _ _) (fun h _ => Does.of_eq h.elsewhere.accounts)
    (fun _ => (leave_does fun p => SentPackets.drainAcked_subset).mono Trimming.of_quiet)
    (fun d p hp hwrote =>
      onPacketAcked_does hp fun f hf => hwrote f (List.mem_flatMap.mpr ⟨p, hp, hf⟩))
    (fun d lossDelay _ => (detectLost_does d sp now lossDelay).mono Trimming.of_quiet)
    (wrote_of_flight hw fun p hp => (SentPackets.mem_drainAcked.mp hp).1) hw

/-! ## The handshake -/

theorem handshaking_does : Handshaking (Does Quiet) where
  refl := Does.refl
  trans := Does.trans
  elsewhere h := Does.of_eq h.accounts
  granted _ limit := Does.quiet fun _ => Step.granted limit limit (Nat.le_max_right _ _)

theorem pumpTls_does (c : Connection) : Does Quiet c c.pumpTls.2 := handshaking_does.pumpLoop _ c

/-! ## Arriving data -/

/-- A frame that names an end of a stream was refused, or taken, or dropped because of
`why`. -/
def Named (why : Prop) (id stop : Nat) (c : Connection) (r : Except Fault Unit × Connection) :
    Prop :=
  (∃ e, r.1 = .error e ∧ r.2.accounts = c.accounts) ∨
  (r.1 = .ok () ∧ Step c.accounts (.arrived id stop) (r.2.note (.arrived id stop)).accounts) ∨
  (r.1 = .ok () ∧ why ∧ r.2 = c)

theorem arrived_request {r' : RecvStream} (hi : c.streamIndex id = some i)
    (hp : c.pairAt i = some pair) (hr' : r'.received = max pair.recv.received stop)
    (hle : stop - pair.recv.received ≤ c.maxDataLocal - c.dataReceived)
    {f : StreamPair → StreamPair}
    (hf : ∀ p, (f p).send = p.send ∧ (f p).recv = r' ∧ (f p).retired = p.retired)
    (hacc : c'.accounts = { (c.modifyPair i f).accounts with
      dataReceived := c.dataReceived + (stop - pair.recv.received) }) :
    Step c.accounts (.arrived id stop) (c'.note (.arrived id stop)).accounts := by
  have hrecv := recvMut_of_pairAt hi hp
  have hstep := Step.arrived (a := c.accounts) (Or.inl hrecv) (Or.inl rfl) hr' hle
  obtain ⟨h1, h2, h3⟩ := hf pair
  have hpair := accounts_modifyPair hi hp f
  rw [h1, h2, h3, ← sendMut_of_pairAt hi hp, ← isRetired_of_pairAt hi hp] at hpair
  simp only [Function.update_eq_self] at hpair
  have hnote : (c'.note (.arrived id stop)).accounts =
      { c'.accounts with log := .arrived id stop :: c'.accounts.log } := rfl
  rw [hnote, hacc, hpair]
  exact hstep

theorem isClient_false (h : isClientInitiated id = false) : id % 4 ≠ 0 := by
  simp only [isClientInitiated, decide_eq_false_iff_not] at h
  omega

/-- The receive half of a stream the peer opened is replaced. -/
theorem accounts_peerUni {r t : RecvStream} (hid : isClientInitiated id = false)
    (hr : findStream id c.peerUni = some r) :
    c.accounts.recvs id = some r ∧
    ({ c with peerUni := modifyFirst id (fun _ => t) c.peerUni } : Connection).accounts =
      { c.accounts with recvs := Function.update c.accounts.recvs id (some t) } := by
  have hi : c.streamIndex id = none := streamIndex_none (isClient_false hid)
  have hrecv : c.recvMut id = some r := by simp only [recvMut, hi, hr]
  refine ⟨hrecv, ?_⟩
  have h := accounts_modifyRecv hrecv fun _ => t
  simpa only [modifyRecv, hi] using h

theorem accounts_peerOpened {t : RecvStream} (hid : isClientInitiated id = false)
    (hr : findStream id c.peerUni = none) :
    c.accounts.recvs id = none ∧
    ({ c with peerUni := c.peerUni ++ [(id, t)] }.pushEvent (.opened id)).accounts =
      { c.accounts with
        recvs := Function.update c.accounts.recvs id (some t)
        peerIds := c.accounts.peerIds ++ [id] } := by
  have hi : c.streamIndex id = none := streamIndex_none (isClient_false hid)
  refine ⟨show c.recvMut id = none by simp only [recvMut, hi, hr], ?_⟩
  ext1
  case recvs => exact half_append hi (·.recv) hr t
  case peerIds => simp [accounts, pushEvent]
  all_goals rfl

/-- Data that arrived on a stream the peer opened, there or new. -/
theorem arrived_peer {r r' : RecvStream} {peerIds : List Nat} (hr : c.accounts.Receives id r)
    (hids : peerIds = c.accounts.peerIds ∨
      (peerIds = c.accounts.peerIds ++ [id] ∧ isClientInitiated id = false))
    (hr' : r'.received = max r.received stop)
    (hle : stop - r.received ≤ c.maxDataLocal - c.dataReceived)
    (hacc : c'.accounts = { c.accounts with
      recvs := Function.update c.accounts.recvs id (some r'), peerIds := peerIds }) :
    Step c.accounts (.arrived id stop)
      ((c'.countReceived (stop - r.received)).note (.arrived id stop)).accounts := by
  have hstep := Step.arrived hr hids hr' hle
  have hnote : ((c'.countReceived (stop - r.received)).note (.arrived id stop)).accounts =
      { c'.accounts with
        dataReceived := c'.accounts.dataReceived + (stop - r.received)
        log := .arrived id stop :: c'.accounts.log } := rfl
  rw [hnote, hacc]
  exact hstep

theorem Reported.accounts {done : Bool} {d : Connection} (h : Reported id done c d) :
    d.accounts = c.accounts := by
  cases h with
  | data readable => exact accounts_report ..
  | reset error =>
    split
    · rw [accounts_pushEvent, accounts_countAnswered]
    · rfl

theorem Arrives.named {why : Prop} {r : Except Fault Unit × Connection}
    (h : Arrives why c id stop r) : Named why id stop c r := by
  cases h with
  | refused e => exact Or.inl ⟨e, rfl, rfl⟩
  | dropped hwhy => exact Or.inr (Or.inr ⟨rfl, hwhy, rfl⟩)
  | @request _ _ r _ done hi hp hr hdone hd =>
    refine Or.inr (Or.inl ⟨rfl, arrived_request hi hp hr.limits.1 hr.limits.2
      (f := fun pair => { pair with recv := r, finished := pair.finished || done })
      (fun _ => ⟨rfl, rfl, rfl⟩) ?_⟩)
    rw [accounts_countReceived, hd.accounts]
    rfl
  | peer readable hid hf hr =>
    obtain ⟨hrecv, hacc⟩ := accounts_peerUni hid hf
    refine Or.inr (Or.inl ⟨rfl, arrived_peer (Or.inl hrecv) (Or.inl rfl) hr.limits.1
      hr.limits.2 ?_⟩)
    rw [accounts_report]
    exact hacc
  | opened readable hid hf hr =>
    obtain ⟨hnone, hacc⟩ := accounts_peerOpened hid hf
    refine Or.inr (Or.inl ⟨rfl, arrived_peer (Or.inr ⟨hnone, hid, rfl⟩) (Or.inr ⟨rfl, hid⟩)
      hr.limits.1 hr.limits.2 ?_⟩)
    rw [accounts_report]
    exact hacc

theorem Missing.gone (h : c.Missing id) (hw : c.accounts.Wf) : c.accounts.Gone id := by
  rcases h with ⟨i, hi, hp⟩ | ⟨hi, hclient, hbi, hlt⟩
  · obtain ⟨hid, hlen⟩ := streamIndex_eq_some.mp hi
    have hend : c.baseStream + c.streams.length = c.nextBidi := hw.ring
    refine ⟨?_, ?_, ?_, show id / 4 < c.nextBidi by omega⟩
    · show c.recvMut id = none
      simp [recvMut, hi, hp]
    · simp only [isClientInitiated, decide_eq_true_eq]
      omega
    · simp only [streamDir]
      rw [if_pos (by omega)]
  · refine ⟨?_, hclient, hbi, hlt⟩
    have hmod : id % 4 = 0 := by
      have := isRequest_iff id
      simpa [hclient, hbi] using this
    show c.recvMut id = none
    simp only [recvMut, hi]
    exact findStream_eq_none (Wf.peer_ids hw hmod)

/-- Why a STREAM frame may be dropped. -/
theorem ignores_of (hw : c.accounts.Wf) (h : c.Retired id ∨ c.Missing id) :
    c.accounts.Ignores id := by
  rcases h with ⟨i, pair, hi, hp, hret⟩ | h
  · exact Or.inl ((isRetired_of_pairAt hi hp).trans hret)
  · exact Or.inr (h.gone hw)

/-! ## Frames -/

theorem onStopSending_does (c : Connection) (id error : Nat) :
    Does Quiet c (c.onStopSending id error) := by
  unfold onStopSending
  split
  · exact Does.refl c
  · split
    · exact Does.refl c
    · exact (modifySend_does fun s _ => SendChange.reset).trans (Does.of_eq rfl)

theorem onMaxStreamData_does (c : Connection) (id limit : Nat) :
    Does Quiet c (c.onMaxStreamData id limit) := by
  have hgrant : Does Quiet c (c.note (.grantedStream id limit)) :=
    Does.quiet fun _ => Step.grantedStream id limit
  refine hgrant.trans ((modifySend_does fun s _ => ?_).trans (Does.of_eq (accounts_queueSend _ id)))
  exact SendChange.setLimit List.mem_cons_self

theorem accounts_discardSpace (c : Connection) (sp : Space) :
    Step c.accounts (.discard sp) (c.discardSpace sp).accounts := by
  have h : (c.discardSpace sp).accounts = { c.accounts with
      acks := Function.update c.accounts.acks sp {}
      flight := Function.update c.accounts.flight sp [] } :=
    accounts_modifySpace c sp fun s =>
      { nextPacketNumber := s.nextPacketNumber, largestReceived := s.largestReceived }
  rw [h]
  exact Step.discard sp

/-- What handling one frame can do: an ACK frame trims by what it acknowledges, a STREAM or
RESET_STREAM frame arrives or is dropped, and nothing is recorded or sent. -/
def Handling (c : Connection) (sp : Space) (f : Frame) : Act → Prop
  | .other => True
  | .discard _ => True
  | .trim sp' n => sp' = sp ∧ ∃ p ∈ c.acknowledged sp f.acks, p.ackLargest = some n
  | .arrived id stop => f.names = some (id, stop)
  | .ignored id stop => f.names = some (id, stop) ∧ c.accounts.Drops f
  | .record _ => False
  | .taken _ => False
  | .emitted _ => False

theorem Handling.of_quiet {f : Frame} (e : Act) (h : Quiet e) : Handling c sp f e := by
  cases e <;> trivial

theorem Named.does {f : Frame} {why : Prop} {r : Except Fault Unit × Connection}
    (h : Named why id stop c r) (hf : f.names = some (id, stop))
    (hdrops : why → c.accounts.Drops f) (hig : why → c.accounts.Ignores id) :
    Does (Handling c sp f) c (Connection.arrived id stop r).2 := by
  obtain ⟨res, c'⟩ := r
  rcases h with ⟨e, he, hacc⟩ | ⟨hok, hstep⟩ | ⟨hok, hwhy, rfl⟩
  · simp only at he hacc
    subst he
    exact Does.of_eq hacc
  · simp only at hok hstep
    subst hok
    exact Does.of_step (e := .arrived id stop) hf fun _ => hstep
  · simp only at hok
    subst hok
    exact Does.of_step (e := .ignored id stop) ⟨hf, hdrops hwhy⟩ fun _ =>
      Step.ignored id stop (hig hwhy)

theorem handleFrame_does (c : Connection) (sp : Space) (f : Frame) (now : Nat) :
    Does (Handling c sp f) c (c.handleFrame sp f now).2 := by
  intro hw
  cases f with
  | ack largest delay firstRange ranges rangeCount =>
    refine (onAck_does c sp largest delay firstRange ranges now).mono (fun e he => ?_) hw
    cases e <;> trivial
  | crypto offset data =>
    exact (handshaking_does.onCrypto c sp offset data).mono Handling.of_quiet hw
  | stopSending id error => exact (onStopSending_does c id error).mono Handling.of_quiet hw
  | maxStreamData id limit => exact (onMaxStreamData_does c id limit).mono Handling.of_quiet hw
  | handshakeDone =>
    refine Does.of_step (e := .discard .handshake) trivial (fun _ => ?_) hw
    exact accounts_discardSpace { c with handshakeDone := true } .handshake
  | stream id offset fin data =>
    exact (onStream_arrives c id offset data fin).named.does rfl (ignores_of hw) (ignores_of hw) hw
  | resetStream id error finalSize =>
    exact (onReset_arrives c id error finalSize).named.does rfl (fun h => h.gone hw)
      (fun h => Or.inr (h.gone hw)) hw
  | maxData limit =>
    exact (Does.quiet fun _ => Step.granted limit _ (Nat.le_refl _)).mono Handling.of_quiet hw
  | maxStreams uni limit =>
    refine Does.of_eq ?_ hw
    cases uni <;> rfl
  | newConnectionId seq retirePriorTo cid token =>
    exact Does.of_eq
      (onNewConnectionId_readdressed c seq retirePriorTo cid token).elsewhere.accounts hw
  | pathChallenge data => exact Does.of_eq (accounts_onPathChallenge c data) hw
  | close app error reason => exact Does.of_eq (lose_elsewhere c _).accounts hw
  | _ => exact Does.refl c hw

end Connection

end Shb.Quic
