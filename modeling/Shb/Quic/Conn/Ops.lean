import Shb.Quic.Conn.RefineSend

/-!
# The accounts along a run

The calls of the worker and the timers are steps of the accounts too. What the accounts keep
through the steps of each kind, a run keeps: `Op.keeps`.
-/

namespace Shb.Quic

open Lib Accounts Accounts.Act

namespace Connection

theorem accounts_connect (input : LocalParamsInput) (localCid initialDcid : ConnectionId)
    (tls : Tls) :
    (connect input localCid initialDcid tls).accounts = Accounts.start input.initialMaxData := by
  have hindex : ∀ id, (connect input localCid initialDcid tls).streamIndex id = none := by
    intro id
    simp [streamIndex, connect]
  ext1
  case sends =>
    funext id
    simp only [accounts, sendMut, hindex]
    rfl
  case recvs =>
    funext id
    simp only [accounts, recvMut, hindex]
    rfl
  case retired =>
    funext id
    simp only [accounts, isRetired, hindex]
    rfl
  case acks => funext sp; cases sp <;> rfl
  case flight => funext sp; cases sp <;> rfl
  all_goals rfl

/-! ## What the worker does -/

theorem openBi_does (c : Connection) : Does Quiet c c.openBi.2 := by
  unfold openBi
  split
  · exact Does.refl c
  · refine Does.quiet fun hw => ?_
    obtain ⟨hsends, hrecvs, hretired, hend⟩ := accounts_pushPair hw
      (d := { c with
        nextBidi := c.nextBidi + 1
        unanswered := c.unanswered + 1
        streams := c.streams ++ [some { send := .new c.params.initialMaxStreamDataBidiRemote,
                                        recv := .new c.streamWindow }] }) _ rfl rfl rfl rfl
    have hstep := Step.openBi (a := c.accounts) c.params.initialMaxStreamDataBidiRemote
      c.streamWindow
    convert hstep using 1
    ext1
    case sends => exact hsends
    case recvs => exact hrecvs
    case retired => exact hretired
    case ringEnd => exact hend
    all_goals rfl

theorem openUni_does (c : Connection) : Does Quiet c c.openUni.2 := by
  unfold openUni
  split
  · exact Does.refl c
  · refine Does.quiet fun hw => ?_
    have hunis : c.localUni.map (·.1) = (List.range c.nextUni).map (clientStreamId .uni) := hw.unis
    have hmod : clientStreamId .uni c.nextUni % 4 ≠ 0 := by simp only [clientStreamId]; omega
    have hnew : findStream (clientStreamId .uni c.nextUni) c.localUni = none := by
      refine findStream_eq_none ?_
      rw [hunis]
      intro hmem
      obtain ⟨n, hn, heq⟩ := List.mem_map.mp hmem
      simp only [clientStreamId, List.mem_range] at heq hn
      omega
    have hstep := Step.openUni (a := c.accounts) c.params.initialMaxStreamDataUni
    convert hstep using 1
    ext1
    case sends => exact half_append (streamIndex_none hmod) (·.send) hnew _
    case uniIds => exact List.map_append
    all_goals rfl

variable {c : Connection} {id : Nat}

/-- Two changes of one send half, one after the other. -/
theorem send_twice {c' : Connection} {s s₁ s₂ : SendStream} (hs : c.accounts.sends id = some s)
    (h₁ : SendChange c.log id s s₁) (h₂ : SendChange c.log id s₁ s₂)
    (hacc : c'.accounts =
      { c.accounts with sends := Function.update c.accounts.sends id (some s₂) }) :
    Does Quiet c c' := by
  intro _
  have hfirst := Step.send hs h₁
  have hsecond := Step.send (a := { c.accounts with
    sends := Function.update c.accounts.sends id (some s₁) }) (Function.update_self id _ _) h₂
  simp only [Function.update_idem] at hsecond
  rw [hacc]
  exact (Steps.single (e := .other) trivial hfirst).snoc (e := .other) trivial hsecond

theorem openBi_eq_some {c' : Connection} (h : c.openBi = (some id, c')) :
    id = clientStreamId .bi c.nextBidi ∧ c'.nextBidi = c.nextBidi + 1 := by
  unfold openBi at h
  split at h
  · simp at h
  · cases h
    exact ⟨rfl, rfl⟩

variable (c)

theorem sendOneshot_does (data : Bytes) : Does Quiet c (c.sendOneshot data).2 := by
  unfold sendOneshot
  have hopen := openBi_does c
  split
  · rename_i heq
    exact Does.of_result heq hopen
  · rename_i id c' heq
    obtain ⟨hid, hnext⟩ := openBi_eq_some heq
    refine (Does.of_result heq hopen).trans (Does.after (d := c'.wake) ?_ rfl)
    have hnext' : c'.wake.nextBidi = c.nextBidi + 1 := hnext
    generalize c'.wake = c₁ at hnext'
    simp only
    split
    · exact Does.refl c₁
    · rename_i pair hp
      intro hw
      -- the stream just opened is the last of the ring
      have hend : c₁.baseStream + c₁.streams.length = c₁.nextBidi := hw.ring
      have hlen : 0 < c₁.streams.length := by
        cases hlen : c₁.streams with
        | nil => simp [pairAt, hlen] at hp
        | cons => simp
      have hi : c₁.streamIndex id = some (c₁.streams.length - 1) := by
        refine streamIndex_eq_some.mpr ⟨?_, by omega⟩
        rw [hid]
        simp only [clientStreamId]
        omega
      have hs := sendMut_of_pairAt hi hp
      split
      · exact send_twice hs (.write data) .finish (accounts_modifySlot hi hp rfl rfl) hw
      · refine Does.quiet (fun _ => ?_) hw
        have hacc := accounts_modifySlot hi hp (f := fun pair' =>
          { pair' with send := (pair.send.write data).2, queued := true }) rfl rfl
        exact hacc ▸ Step.send hs (.write data)

theorem write_does (id : Nat) (data : Bytes) : Does Quiet c (c.write id data).2 := by
  unfold write
  refine Does.after (d := c.wake) ?_ rfl
  generalize c.wake = c
  simp only
  split
  · exact Does.of_eq (accounts_queueSend c id)
  · exact (modifySend_does fun s _ => .write data).trans (Does.of_eq (accounts_queueSend _ id))

theorem finish_does (id : Nat) : Does Quiet c (c.finish id) :=
  Does.after (d := c.wake) ((modifySend_does fun _ _ => .finish).trans
    (Does.of_eq (accounts_queueSend _ id))) rfl

theorem consume_does {ε : Type} (id : Nat) (f : Bytes → Except ε Unit) :
    Does Quiet c (c.consume id f).2 := by
  unfold consume
  split
  · exact Does.refl c
  · rename_i recv hr
    split
    · exact Does.refl c
    · rename_i n recv' heq
      have hread : Does Quiet c (c.modifyRecv id fun _ => recv') := by
        refine Does.quiet fun _ => ?_
        rw [accounts_modifyRecv hr]
        exact Step.read hr (RecvStream.received_consume heq)
      refine hread.trans (Does.of_eq ?_)
      simp only
      split
      · exact accounts_queueCredit _ id
      · rfl

variable {c}

theorem retireSlot_does {i : Nat} {pair : StreamPair} (hi : c.streamIndex id = some i)
    (hp : c.pairAt i = some pair) :
    Does Quiet c (c.modifyPair i fun pair => { pair with finished := true, retired := true }) := by
  refine Does.quiet fun _ => ?_
  have hacc := accounts_modifyPair hi hp
    fun pair : StreamPair => { pair with finished := true, retired := true }
  have hsend := sendMut_of_pairAt hi hp
  have hrecv := recvMut_of_pairAt hi hp
  rw [← hsend, ← hrecv, Function.update_eq_self, Function.update_eq_self] at hacc
  rw [hacc]
  refine Step.retire id ?_
  have := (streamIndex_eq_some.mp hi).1
  simp only [isClientInitiated, decide_eq_true_eq]
  omega

variable (c)

theorem retire_does (id cancel : Nat) : Does Quiet c (c.retire id cancel) := by
  unfold retire
  split
  · exact Does.refl c
  · rename_i i hi
    split
    · exact Does.refl c
    · rename_i pair hp
      simp only
      have hcount : ∃ c₀ : Connection, (if pair.finished then c else c.countAnswered) = c₀ ∧
          c₀.accounts = c.accounts ∧ c₀.streamIndex id = some i ∧ c₀.pairAt i = some pair := by
        split
        · exact ⟨c, rfl, rfl, hi, hp⟩
        · exact ⟨c.countAnswered, rfl, rfl, hi, hp⟩
      obtain ⟨c₀, heq, hacc, hi₀, hp₀⟩ := hcount
      rw [heq]
      refine Does.after ((retireSlot_does hi₀ hp₀).trans ?_) hacc
      have hi₁ := (streamIndex_modifyPair c₀ i id fun pair =>
        { pair with finished := true, retired := true }).trans hi₀
      have hp₁ := pairAt_modifyPair c₀ i i fun pair =>
        { pair with finished := true, retired := true }
      rw [if_pos rfl, hp₀, Option.map_some] at hp₁
      generalize (c₀.modifyPair i fun pair => { pair with finished := true, retired := true }) = c₁
        at hi₁ hp₁
      refine Does.trans ?_ (settle_does _ id)
      split
      · refine Does.quiet fun _ => ?_
        rw [accounts_queueReset, accounts_modifySlot hi₁ hp₁ rfl rfl]
        exact Step.send (sendMut_of_pairAt hi₁ hp₁) .reset
      · exact Does.refl c₁

/-! ## Timers -/

theorem handleTimeout_does (now : Nat) : Does Quiet c (c.handleTimeout now) :=
  handleTimeout_composes ⟨Does.refl, Does.trans⟩ (fun h => Does.of_eq h.accounts)
    c fun d sp => detectLost_does d sp now _

/-! ## Packets -/

theorem recordPacket_does (sp : Space) (pn : Nat) (eliciting : Bool) (now : Nat) :
    Does (· = .record sp) c (c.recordPacket sp pn eliciting now) := by
  refine Does.of_step rfl fun _ => ?_
  have hacc : (c.recordPacket sp pn eliciting now).accounts =
      (c.modifySpace sp fun s => { s with ack := s.ack.record pn eliciting now }).accounts := rfl
  rw [hacc, accounts_modifySpace_ack rfl]
  exact Step.record sp pn eliciting now

theorem onRetry_does (dcid scid : ConnectionId) (token : Bytes)
    (tag : Option ConnectionId) : Does Quiet c (c.onRetry dcid scid token tag) := by
  unfold onRetry
  split
  · exact Does.refl c
  · split
    · exact Does.refl c
    · refine Does.quiet fun _ => ?_
      have hacc : (c.modifySpace .initial fun s => { s with
          keys := some (.initial scid), cryptoSent := 0, sent := {}, lossDeadline :=
            none }).accounts =
          _ := accounts_modifySpace_flight rfl
      exact hacc ▸ Step.leave .initial [] nofun

variable {c}

end Connection

/-! ## What runs keep -/

/-- A property of the accounts that holds of consistent ones and that steps of some kinds keep. -/
structure Kept (A : Act → Prop) (I : Accounts → Prop) : Prop where
  wf : ∀ {a}, I a → a.Wf
  step : ∀ {a e a'}, I a → A e → Step a e a' → I a'

theorem Kept.mono {A B : Act → Prop} {I : Accounts → Prop} (h : Kept B I) (hAB : ∀ e, A e → B e) :
    Kept A I :=
  ⟨h.wf, fun hi ha hs => h.step hi (hAB _ ha) hs⟩

namespace Connection

variable {I : Accounts → Prop}

theorem Does.keeps {A : Act → Prop} {c c' : Connection} (h : Does A c c') (hk : Kept A I)
    (hi : I c.accounts) : I c'.accounts :=
  (h (hk.wf hi)).invariant (fun hi ha hs => hk.step hi ha hs) hi

theorem handlePacket_keeps {now : Nat} {Q : Connection → Frame → Prop} {c : Connection}
    {p : Packet} (hk : Kept (· = .record p.space) I)
    (hframe : ∀ {c f}, I c.accounts → Q c f → I (c.handleFrame p.space f now).2.accounts)
    (hi : I c.accounts) (hq : ∀ x ∈ c.packetFrames now p, Q x.1 x.2) :
    I (c.handlePacket now p).2.accounts := by
  have hdup : ∀ received,
      (c.modifySpace p.space fun s => { s with received := received }).accounts = c.accounts :=
    fun _ => accounts_modifySpace_of rfl rfl
  exact (handlePacket_invariant (I := fun c => I c.accounts) id (fun received =>
    (hdup received).symm ▸ hi)
    (fun pn generation received _ _ =>
      (acceptPacket_elsewhere c p pn generation received).accounts.symm ▸ hi)
    hframe (fun _ hi => (recordPacket_does _ p.space _ _ now).keeps hk hi) hi hq).1

theorem Kept.around (hk : Kept Quiet I) : Around fun c => I c.accounts where
  versionNegotiation dcid scid versions hi :=
    (onVersionNegotiation_elsewhere _ dcid scid versions).accounts.symm ▸ hi
  retry dcid scid token tag hi := (onRetry_does _ dcid scid token tag).keeps hk hi
  closeTransport code why hi := (closeTransport_elsewhere _ code why).accounts.symm ▸ hi
  noteReceived now hi := (noteReceived_elsewhere _ now).accounts.symm ▸ hi
  lose why hi := (lose_elsewhere _ why).accounts.symm ▸ hi

end Connection

namespace Op

open Connection

variable {c c' : Connection} {op : Op}

/-- What the worker does on its own sends and receives nothing. -/
theorem does_local (hd : ∀ now d, op ≠ .datagram now d) (ht : ∀ now pad, op ≠ .transmit now pad)
    (h : op.step c = some c') : Does Quiet c c' := by
  cases op with
  | datagram now d => exact absurd rfl (hd now d)
  | transmit now pad => exact absurd rfl (ht now pad)
  | timeout now => cases h; exact handleTimeout_does c now
  | openBi => cases h; exact openBi_does c
  | openUni => cases h; exact openUni_does c
  | sendOneshot data => cases h; exact sendOneshot_does c data
  | write id data => cases h; exact write_does c id data
  | finish id => cases h; exact finish_does c id
  | consume id f => cases h; exact consume_does c id f
  | retire id cancel => cases h; exact retire_does c id cancel
  | pollEvent => cases h; exact Does.of_eq (accounts_pollEvent c)
  | close code reason => cases h; exact Does.of_eq (close_elsewhere c code reason).accounts

/-- What sending keeps, and what every packet that meets `P` keeps, an operation keeps whose
packets all meet it. -/
theorem keeps {I : Accounts → Prop} {P : Delivery → Prop} (hk : Kept Sending I)
    (hpacket : ∀ {x : Delivery}, I x.conn.accounts → P x → I x.result.2.accounts)
    (hi : I c.accounts) (hp : ∀ x ∈ op.packets c, P x) (h : op.step c = some c') :
    I c'.accounts := by
  have hq : Kept Quiet I := hk.mono Sending.of_quiet
  cases op with
  | datagram now d =>
    cases h
    exact (datagram_invariant (Kept.around hq) hpacket hi now d hp).1
  | transmit now pad =>
    rw [← step_transmit h]
    exact (pollTransmit_does c now pad).keeps hk hi
  | _ => exact (does_local (fun _ _ => by simp) (fun _ _ => by simp) h).keeps hq hi

/-- What every step keeps, an operation keeps. -/
theorem keeps_all {I : Accounts → Prop} (hk : Kept (fun _ => True) I) (hi : I c.accounts)
    (h : op.step c = some c') : I c'.accounts := by
  refine keeps (P := fun _ => True) (hk.mono fun _ _ => trivial) (fun {x} hi _ => ?_) hi
    (fun _ _ => trivial) h
  refine handlePacket_keeps (Q := fun _ _ => True) (hk.mono fun _ _ => trivial) (fun hi _ => ?_) hi
    fun _ _ => trivial
  exact (handleFrame_does _ x.packet.space _ x.now).keeps (hk.mono fun _ _ => trivial) hi

end Op

end Shb.Quic
