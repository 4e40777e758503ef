import Shb.Quic.Conn.Refine
import Shb.Quic.Conn.Turns

/-!
# Sending, and the calls of the worker, are steps of the accounts

`Fills` says what a stage of a payload does: steps that nobody has to tell apart, bytes behind
those already there, and every frame it adds to the packet's record is in the log. A whole packet
then is those steps, an ACK
taken, and a packet that joins those in flight.
-/

namespace Shb.Quic

open Lib Accounts Accounts.Act Connection

namespace Filling

/-- Every frame on the packet's record has been written. -/
def Noted (b : Filling) : Prop := ∀ f ∈ b.frames, .wrote f ∈ b.conn.log

structure Fills (b b' : Filling) : Prop where
  does : Does Quiet b.conn b'.conn
  noted : b.conn.accounts.Wf → b.Noted → b'.Noted
  grows : ∃ rest, b'.out = b.out ++ rest

namespace Fills

variable {b d g : Filling}

theorem trans (h₁ : Fills b d) (h₂ : Fills d g) : Fills b g where
  does := h₁.does.trans h₂.does
  noted := fun hw hb => h₂.noted (hw.path (h₁.does hw)) (h₁.noted hw hb)
  grows := by
    obtain ⟨rest₁, h₁⟩ := h₁.grows
    obtain ⟨rest₂, h₂⟩ := h₂.grows
    exact ⟨rest₁ ++ rest₂, by rw [h₂, h₁, List.append_assoc]⟩

/-- No frame is added, and `rest` behind the payload. -/
theorem of_does (h : Does Quiet b.conn d.conn) (hf : d.frames = b.frames) (rest : Bytes)
    (hout : d.out = b.out ++ rest) : Fills b d where
  does := h
  noted := fun hw hb f hfm => Accounts.log_subset_of_path (h hw) (hb f (hf ▸ hfm))
  grows := ⟨rest, hout⟩

theorem of_eq (h : d.conn.accounts = b.conn.accounts) (hf : d.frames = b.frames)
    (hout : d.out = b.out) : Fills b d :=
  of_does (Does.of_eq h) hf [] (by rw [hout, List.append_nil])

theorem refl (b : Filling) : Fills b b := of_eq rfl rfl rfl

/-- After a change of the connection that the accounts do not show. -/
theorem after {c : Connection} (h : Fills { b with conn := c } g)
    (heq : c.accounts = b.conn.accounts) : Fills b g :=
  (of_eq (d := { b with conn := c }) heq rfl rfl).trans h

end Fills

theorem put_noted {b : Filling} (hb : b.Noted) (bytes : Bytes) (f : SentFrame) :
    (b.put bytes f).Noted := by
  intro g hg
  rcases List.mem_append.mp hg with hg | hg
  · exact List.mem_cons_of_mem _ (hb g hg)
  · rw [List.mem_singleton.mp hg]
    exact List.mem_cons_self

theorem put_fills (b : Filling) (bytes : Bytes) {f : SentFrame}
    (hf : ∀ id offset len fin, f ≠ .stream id offset len fin) : Fills b (b.put bytes f) where
  does := Does.quiet fun _ => Step.wrote f hf
  noted := fun _ hb => put_noted hb bytes f
  grows := ⟨bytes, rfl⟩

theorem ping_fills (b : Filling) : Fills b b.ping := by
  unfold ping
  split
  · exact Fills.refl b
  · exact put_fills b _ (fun _ _ _ _ => by simp)

/-! ## Stream data -/

/-- A stream's next frame goes into the packet. -/
theorem sent_fills {b : Filling} {c : Connection} {id max offset : Nat} {data : Bytes} {fin : Bool}
    {s : SendStream} (hw : b.conn.accounts.Wf → c.accounts = { b.conn.accounts with
      sends := Function.update b.conn.accounts.sends id (some (s.onSent offset data.length fin).2)
      dataSent := b.conn.dataSent + (s.onSent offset data.length fin).1 })
    (hs : b.conn.accounts.Wf → b.conn.accounts.sends id = some s)
    (hnext : s.nextSend max b.sendCredit = some (offset, data, fin)) :
    Fills b ({ b with conn := c }.put (putStream id offset fin data)
      (.stream id offset data.length fin)) where
  does := Does.quiet fun h => by
    have hput : ({ b with conn := c }.put (putStream id offset fin data)
        (.stream id offset data.length fin)).conn.accounts =
        { c.accounts with log := .wrote (.stream id offset data.length fin) :: c.accounts.log } :=
          rfl
    rw [hput, hw h]
    exact Step.sent (hs h) hnext
  noted := fun h hb => by
    refine put_noted (b := { b with conn := c }) (fun f hf => ?_) _ _
    have hlog : c.accounts.log = b.conn.accounts.log := by rw [hw h]
    exact (show c.log = b.conn.log from hlog) ▸ hb f hf
  grows := ⟨_, rfl⟩

theorem streamTurn_fills {b : Filling} {id i : Nat} {pair : StreamPair} (budget : Nat)
    (hi : b.conn.streamIndex id = some i) (hp : b.conn.pairAt i = some pair) :
    Fills b (b.streamTurn budget id i pair) := by
  unfold streamTurn
  have hflags := accounts_modifyFlags hi (fun pair => { pair with queued := false })
    fun p => ⟨rfl, rfl, rfl⟩
  have hi' := (streamIndex_modifyPair b.conn i id fun pair =>
    { pair with queued := false }).trans hi
  have hp' := pairAt_modifyPair b.conn i i fun pair => { pair with queued := false }
  rw [if_pos rfl, hp, Option.map_some] at hp'
  generalize (b.conn.modifyPair i fun pair => { pair with queued := false }) = c at hflags hi' hp'
  refine Fills.after ?_ hflags
  -- the frame first, then the way back into the queue
  have hqueue : ∀ b' : Filling, ∀ pending : Bool,
      Fills b' (if pending then { b' with conn := b'.conn.queueSend id } else b') := by
    intro b' pending
    split
    · exact Fills.of_eq (accounts_queueSend b'.conn id) rfl rfl
    · exact Fills.refl b'
  refine Fills.trans ?_ (hqueue _ _)
  split
  · exact Fills.refl _
  · rename_i offset data fin hnext
    have hsend := sendMut_of_pairAt hi' hp'
    refine sent_fills (b := { b with conn := c }) (s := pair.send) (fun hw => ?_)
      (fun _ => hsend) hnext
    exact congrArg (fun a : Accounts => { a with
      dataSent := c.dataSent + (pair.send.onSent offset data.length fin).1 })
      (accounts_modifySlot hi' hp' (f := fun pair' =>
        { pair' with send := (pair.send.onSent offset data.length fin).2 }) rfl rfl)

variable {b' : Filling} {budget : Nat} {sp : Space}

theorem turn_fills {b : Filling} (h : b.Turn sp budget b') : Fills b b' := by
  have hput : ∀ {c : Connection} (bytes : Bytes) {f : SentFrame},
      (∀ id offset len fin, f ≠ .stream id offset len fin) → Does Quiet b.conn c →
      Fills b ({ b with conn := c }.put bytes f) := by
    intro c bytes f hf hdoes
    refine Fills.trans (Fills.of_does (d := { b with conn := c }) hdoes rfl [] ?_)
      (put_fills _ bytes hf)
    exact (List.append_nil _).symm
  cases h with
  | answered probes pending _ => exact (ping_fills _).after rfl
  | respond _ _ _ => exact Fills.of_does (Does.of_eq rfl) rfl _ rfl
  | crypto _ _ _ =>
    exact hput _ (fun _ _ _ _ => by simp) (Does.of_eq (accounts_modifySpace_of rfl rfl))
  | extend _ _ _ hle =>
    exact hput _ (fun _ _ _ _ => by simp) (Does.quiet fun _ => Step.extend _ hle)
  | @credit id pending _ _ _ hr _ _ =>
    refine hput _ (fun _ _ _ _ => by simp) (Does.quiet fun _ => ?_)
    rw [accounts_modifyRecv (c := { b.conn with creditPending := pending }) hr]
    exact Step.read hr rfl
  | retire _ _ _ | reset _ _ _ => exact hput _ (fun _ _ _ _ => by simp) (Does.of_eq rfl)
  | @uni i id offset send data fin _ hi hnext _ =>
    refine sent_fills (s := send) (fun hw => ?_) (fun hw => (modifySend_uniAt hw hi).1) hnext
    obtain ⟨hs, hset⟩ := modifySend_uniAt hw hi
    have hacc := accounts_modifySend hs fun _ => (send.onSent offset data.length fin).2
    rw [← hset] at hacc
    exact congrArg (fun a : Accounts => { a with
      dataSent := b.conn.dataSent + (send.onSent offset data.length fin).1 }) hacc
  | @stream id i queue pair _ _ hi hp _ =>
    exact (streamTurn_fills (b := { b with conn := { b.conn with sendQueue := queue } }) budget hi
      hp).after rfl
  | _ => exact Fills.of_eq rfl rfl rfl

theorem composes_fills : Composes Fills := ⟨Fills.refl, Fills.trans⟩

theorem pathResponse_fills (b : Filling) (sp : Space) (budget : Nat) :
    Fills b (b.pathResponse sp budget) :=
  pathResponse_turns composes_fills turn_fills b

theorem fillRest_fills (b : Filling) (sp : Space) (budget : Nat) (congested : Bool) :
    Fills b (b.fillRest sp budget congested) :=
  fillRest_turns composes_fills turn_fills b congested

theorem ack_does (b : Filling) (sp : Space) (now budget : Nat) :
    Does (· = .taken sp) b.conn (b.ack sp now budget).2.conn := by
  unfold ack
  simp only
  split
  · split
    · exact Does.refl _
    · refine Does.of_step rfl fun _ => ?_
      rw [accounts_modifySpace_ack rfl]
      exact Step.taken sp
  · exact Does.refl _

theorem ack_frames (b : Filling) (sp : Space) (now budget : Nat) :
    (b.ack sp now budget).2.frames = b.frames := by
  unfold ack
  simp only
  split
  · split <;> rfl
  · rfl

/-- An ACK fails only when there is nothing to put in it. -/
theorem ack_error {b : Filling} {now : Nat} {e : Fault} (h : b.ack sp now budget = (.error e, b')) :
    (b.conn.space sp).ack.ackElicitingPending = true ∧ (b.conn.space sp).ack.ranges = [] := by
  unfold ack at h
  simp only at h
  split at h
  · rename_i hp
    refine ⟨hp.1, ?_⟩
    cases hr : (b.conn.space sp).ack.ranges with
    | nil => rfl
    | cons r rest =>
      rw [hr] at h
      simp [putAck] at h
  · simp at h

theorem ack_panics {b : Filling} {now : Nat} {e : Fault}
    (h : b.ack sp now budget = (.error e, b')) : e = .panicked := by
  unfold ack at h
  simp only at h
  split at h
  · split at h
    · cases h
      rfl
    · simp at h
  · simp at h

end Filling

namespace Accounts.Act

/-- What sending does: acknowledge, and end the Initial space. -/
def Sending : Act → Prop
  | .other => True
  | .taken _ => True
  | .emitted _ => True
  | .discard _ => True
  | _ => False

theorem Sending.of_quiet (e : Act) (h : Quiet e) : Sending e := by
  cases e <;> trivial

/-- What filling one payload does: acknowledge, at most. -/
def Payload : Act → Prop
  | .other => True
  | .taken _ => True
  | _ => False

theorem Payload.of_quiet (e : Act) (h : Quiet e) : Payload e := by
  cases e <;> trivial

theorem Sending.of_payload (e : Act) (h : Payload e) : Sending e := by
  cases e <;> trivial

end Accounts.Act

namespace Connection

open Filling

theorem fillPayload_does (c : Connection) (sp : Space) (now budget : Nat) (congested : Bool) :
    Does Payload c (c.fillPayload sp now budget congested).2 := by
  refine fillPayload_turns ⟨Does.refl, Does.trans⟩ (fun c => ?_) (fun _ => Does.of_eq rfl)
    (fun h => (turn_fills h).does.mono Payload.of_quiet) c congested
  refine Does.of_step (e := .taken sp) trivial fun _ => ?_
  rw [accounts_modifySpace_ack rfl]
  exact Step.taken sp

variable {budget now : Nat} {c c' : Connection} {congested : Bool} {sp : Space}

/-- The packet's record is of frames that were written. -/
theorem fillPayload_frames (hw : c.accounts.Wf) {filled : Filled}
    (h : c.fillPayload sp now budget congested = (.ok filled, c')) :
    ∀ f ∈ filled.frames, .wrote f ∈ c'.log := by
  unfold fillPayload at h
  have hack := ack_does
    { conn := c, out := [], frames := [], ackEliciting := false } sp now budget hw
  have hframes := ack_frames
    { conn := c, out := [], frames := [], ackEliciting := false } sp now budget
  split at h
  · simp at h
  · rename_i ackLargest b heq
    rw [heq] at hack hframes
    have hwb : b.conn.accounts.Wf := hw.path hack
    have hb : b.Noted := fun f hf => by rw [hframes] at hf; exact absurd hf List.not_mem_nil
    have hpath := pathResponse_fills b sp budget
    simp only at h
    split at h
    · cases h
      exact hpath.noted hwb hb
    · cases h
      exact (hpath.trans (fillRest_fills _ sp budget congested)).noted hwb hb

/-- If the packet's record names an ACK, the payload starts with one of what was received. -/
theorem fillPayload_ack {filled : Filled} {largest : Nat}
    (h : c.fillPayload sp now budget congested = (.ok filled, c'))
    (hlargest : filled.ackLargest = some largest) :
    ∃ delay bytes rest, putAck (c.space sp).ack.ranges delay = some bytes ∧
      filled.out = bytes ++ rest := by
  unfold fillPayload at h
  split at h
  · simp at h
  · rename_i ackLargest b heq
    have hack : ∀ n, ackLargest = some n → ∃ delay, putAck (c.space sp).ack.ranges delay =
      some b.out := by
      intro n hn
      unfold Filling.ack at heq
      simp only at heq
      split at heq
      · split at heq
        · simp at heq
        · rename_i bytes hbytes
          cases heq
          exact ⟨_, hbytes⟩
      · cases heq
        cases hn
    simp only at h
    split at h
    · cases h
      obtain ⟨delay, hput⟩ := hack largest hlargest
      obtain ⟨rest, hrest⟩ := (pathResponse_fills b sp budget).grows
      exact ⟨delay, b.out, rest ++ _, hput, by rw [hrest, List.append_assoc]⟩
    · cases h
      obtain ⟨delay, hput⟩ := hack largest hlargest
      obtain ⟨rest, hrest⟩ :=
        ((pathResponse_fills b sp budget).trans (fillRest_fills _ sp budget congested)).grows
      exact ⟨delay, b.out, rest, hput, hrest⟩

/-- No packet fails to be filled where every owed ACK has something to say. -/
theorem fillPayload_ok {e : Fault} (h : c.fillPayload sp now budget congested = (.error e, c')) :
    (c.space sp).ack.ackElicitingPending = true ∧ (c.space sp).ack.ranges = [] := by
  unfold fillPayload at h
  split at h
  · rename_i heq
    exact ack_error heq
  · simp only at h
    split at h <;> simp at h

theorem fillPayload_panics {e : Fault}
    (h : c.fillPayload sp now budget congested = (.error e, c')) : e = .panicked := by
  unfold fillPayload at h
  split at h
  · rename_i heq
    cases h
    exact ack_panics heq
  · simp only at h
    split at h <;> simp at h

theorem accounts_emit (c : Connection) (sp : Space) (p : SentPacket) (now : Nat) :
    (c.emit sp p now).accounts = { c.accounts with
      flight := Function.update c.accounts.flight sp (c.accounts.flight sp ++ [p]) } := by
  have hacc : (c.emit sp p now).accounts = (c.modifySpace sp fun s =>
      { s with nextPacketNumber := s.nextPacketNumber + 1, sent := s.sent.push p }).accounts := by
    unfold emit
    split
    · exact (noteSent_elsewhere _ now).accounts
    · rfl
  rw [hacc, accounts_modifySpace_flight rfl]
  rfl

theorem emit_does {p : SentPacket} (hp : ∀ f ∈ p.frames, .wrote f ∈ c.log) (sp : Space)
    (now : Nat) : Does (· = .emitted sp) c (c.emit sp p now) := by
  refine Does.of_step rfl fun _ => ?_
  rw [accounts_emit]
  exact Step.emit sp p hp

theorem writePacket_does (c : Connection) (sp : Space) (key : Key) (now written : Nat)
    (congested : Bool) (pad : Option Nat) :
    Does Sending c (c.writePacket sp key now written congested pad).2 := by
  intro hw
  unfold writePacket
  split
  · exact Steps.refl _
  · simp only
    split
    · rename_i heq
      exact (Does.of_result heq (fillPayload_does c sp now _ congested)).mono Sending.of_payload hw
    · rename_i filled c' heq
      have hfill := (Does.of_result heq (fillPayload_does c sp now _ congested)).mono
        Sending.of_payload
      have hframes := fillPayload_frames hw heq
      split
      · exact hfill hw
      · refine hfill.trans (Does.mono (A := (· = .emitted sp)) (fun e he => ?_)
          (emit_does hframes sp now)) hw
        cases he
        trivial

theorem discardSpace_does (c : Connection) (sp : Space) :
    Does (· = .discard sp) c (c.discardSpace sp) :=
  Does.of_step rfl fun _ => accounts_discardSpace c sp

theorem pollTransmit_does (c : Connection) (now : Nat) (pad : Option Nat) :
    Does Sending c (c.pollTransmit now pad).2 :=
  pollTransmit_invariant (I := Does Sending c) (Does.refl c)
    ((pumpTls_does c).mono Sending.of_quiet) (fun sp key written congested pad h =>
      h.trans (writePacket_does _ sp key now written congested pad))
    (fun h => h.trans (Does.mono (A := (· = .discard .initial)) (fun e he => by cases he; trivial)
      (discardSpace_does _ .initial)))
    (fun h => h.trans (Does.of_eq (armIdle_elsewhere _ now).accounts)) pad

end Connection

end Shb.Quic
