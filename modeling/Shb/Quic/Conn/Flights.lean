import Shb.Quic.Conn.Link
import Shb.Quic.Conn.RefineSend

/-!
# What is in flight

`Flight` is what loss recovery keeps of a packet number space: the packets nobody has answered
for yet, the largest number acknowledged, when the next packet counts as lost, the next number.
Four things happen to it and no others (`Change`): a packet is sent, an ACK takes packets out and
is followed by a loss check, a loss check is due, and everything goes, with the keys of the space
or with a Retry.

`Flown` says that one connection comes to be another by such changes. Streams, flow control,
keys and connection ids make none: they do not touch the spaces at all (`base_*`), or nothing
of them that is a flight's (`flights_*`).
-/

namespace Shb.Quic

namespace Connection

/-! ## What does not touch the spaces -/

variable (c : Connection)

theorem spaces_openBi : c.openBi.2.spaces = c.spaces := by
  unfold openBi
  split <;> rfl

theorem spaces_sendOneshot (data : Bytes) : (c.sendOneshot data).2.spaces = c.spaces := by
  have hopen := spaces_openBi c
  unfold sendOneshot
  split
  all_goals
    rename_i h
    rw [h] at hopen
  · exact hopen
  · simp only
    split
    · exact hopen
    · exact hopen

theorem spaces_pollEvent : c.pollEvent.2.spaces = c.spaces := by
  unfold pollEvent
  split <;> rfl

end Connection

/-! ## Flights -/

/-- What loss recovery keeps of a packet number space. -/
structure Flight where
  sent : SentPackets
  lossDeadline : Option Nat
  nextPacketNumber : Nat

/-- What happens to one. -/
inductive Change where
  | send (p : SentPacket)
  /-- An ACK of something in flight: what it acknowledges leaves, and what is lost by now. -/
  | ack (ranges : List (Nat × Nat)) (now lossDelay : Nat)
  | check (now lossDelay : Nat)
  /-- The keys go, or they are new ones after a Retry: nothing in flight can be acknowledged. -/
  | drop

namespace Flight

def drain (f : Flight) (ranges : List (Nat × Nat)) : Flight :=
  { f with sent := (f.sent.drainAcked ranges).2 }

def check (f : Flight) (now lossDelay : Nat) : Flight :=
  { f with
    sent := (f.sent.detectLost now lossDelay).2
    lossDeadline := (f.sent.detectLost now lossDelay).1.2 }

/-- A packet is sent under the next number, or not at all. -/
def step (f : Flight) : Change → Option Flight
  | .send p =>
    if p.number = f.nextPacketNumber then
      some { f with sent := f.sent.push p, nextPacketNumber := f.nextPacketNumber + 1 }
    else none
  | .ack ranges now lossDelay => some ((f.drain ranges).check now lossDelay)
  | .check now lossDelay => some (f.check now lossDelay)
  | .drop => some { sent := {}, lossDeadline := none, nextPacketNumber := f.nextPacketNumber }

end Flight

/-- What happens in one space happens in no other. -/
def flightsStep (fs : Space → Flight) (e : Space × Change) : Option (Space → Flight) :=
  ((fs e.1).step e.2).map (Function.update fs e.1)

def SpaceState.flight (s : SpaceState) : Flight := ⟨s.sent, s.lossDeadline, s.nextPacketNumber⟩

/-- The space and the number of a packet. -/
def OutPacket.sentAs (o : OutPacket) : Space × Nat := (o.space, o.number)

/-- The number a packet is sent under, if one is. -/
def sentNumber : Space × Change → Option (Space × Nat)
  | (sp, .send p) => some (sp, p.number)
  | _ => none

namespace Connection

def flights (c : Connection) (sp : Space) : Flight := (c.space sp).flight

theorem flights_of_spaces {c c' : Connection} (h : c'.spaces = c.spaces) :
    c'.flights = c.flights := by
  funext sp
  simp only [flights, space, h]

theorem flights_of_base {c c' : Connection} (h : c'.base = c.base) : c'.flights = c.flights :=
  flights_of_spaces (congrArg Prod.snd h)

theorem flights_modifySpace (c : Connection) (sp : Space) (f : SpaceState → SpaceState) :
    (c.modifySpace sp f).flights = Function.update c.flights sp (f (c.space sp)).flight := by
  funext sp'
  rw [flights, space_modifySpace, Function.update_apply]
  split <;> rfl

/-- A change of a space that is none of its flight. -/
theorem flights_modifySpace_of {f : SpaceState → SpaceState} (hf : ∀ s, (f s).flight = s.flight)
    (c : Connection) (sp : Space) : (c.modifySpace sp f).flights = c.flights := by
  rw [flights_modifySpace, hf]
  exact Function.update_eq_self sp c.flights

theorem Elsewhere.flights {c d : Connection} (h : Elsewhere c d) : d.flights = c.flights := by
  funext sp
  obtain ⟨-, hsent, hdeadline, hnext⟩ := h.spaces sp
  unfold Connection.flights SpaceState.flight
  rw [hsent, hdeadline, hnext]

/-- What happens on the way from one connection to another: `A` allows all of it, and the packets
that are sent have these numbers. -/
def Flown (A : Space × Change → Prop) (sent : List (Space × Nat)) (c c' : Connection) : Prop :=
  ∃ es, Lib.run flightsStep c.flights es = some c'.flights ∧ (∀ e ∈ es, A e) ∧
    es.filterMap sentNumber = sent

namespace Flown

variable {A B : Space × Change → Prop} {sent sent' : List (Space × Nat)} {c c' c'' : Connection}

theorem of_eq (h : c'.flights = c.flights) : Flown A [] c c' :=
  ⟨[], congrArg some h.symm, nofun, rfl⟩

theorem of_spaces (h : c'.spaces = c.spaces) : Flown A [] c c' := of_eq (flights_of_spaces h)

theorem of_base (h : c'.base = c.base) : Flown A [] c c' := of_eq (flights_of_base h)

theorem refl (c : Connection) : Flown A [] c c := of_eq rfl

theorem single {e : Space × Change} (ha : A e) (h : flightsStep c.flights e = some c'.flights) :
    Flown A (sentNumber e).toList c c' := by
  refine ⟨[e], ?_, fun _ he => List.mem_singleton.mp he ▸ ha, ?_⟩
  · simp only [Lib.run, h]
  · cases hn : sentNumber e with
    | none => simp [hn]
    | some n => simp [hn]

theorem trans (h : Flown A sent c c') (h' : Flown A sent' c' c'') :
    Flown A (sent ++ sent') c c'' := by
  obtain ⟨es, hrun, hall, rfl⟩ := h
  obtain ⟨es', hrun', hall', rfl⟩ := h'
  refine ⟨es ++ es', Lib.run_append hrun hrun', fun e he => ?_, List.filterMap_append⟩
  rcases List.mem_append.mp he with he | he
  · exact hall e he
  · exact hall' e he

/-- Where nothing is sent on the second half. -/
theorem trans_nil (h : Flown A sent c c') (h' : Flown A [] c' c'') : Flown A sent c c'' := by
  have := h.trans h'
  rwa [List.append_nil] at this

theorem mono (hAB : ∀ e, A e → B e) (h : Flown A sent c c') : Flown B sent c c' := by
  obtain ⟨es, hrun, hall, hsent⟩ := h
  exact ⟨es, hrun, fun e he => hAB e (hall e he), hsent⟩

theorem after (h : Flown A sent c' c'') (heq : c'.flights = c.flights) : Flown A sent c c'' := by
  obtain ⟨es, hrun, hall, hsent⟩ := h
  exact ⟨es, heq ▸ hrun, hall, hsent⟩

theorem before (h : Flown A sent c c') (heq : c''.flights = c'.flights) : Flown A sent c c'' :=
  h.trans_nil (of_eq heq)

end Flown

/-! ## What a loss check leaves alone -/

section Alarms

variable (c : Connection)

/-- What the timers go by besides the flights. -/
structure Alarms where
  closed : Option Loss
  idleDeadline : Option Nat
  keepaliveDeadline : Option Nat
  ptoFallback : Option Space
  rtt : Rtt
  params : Params
  ptoCount : Nat

def alarms : Alarms where
  closed := c.closed
  idleDeadline := c.idleDeadline
  keepaliveDeadline := c.keepaliveDeadline
  ptoFallback := c.ptoFallback
  rtt := c.rtt
  params := c.params
  ptoCount := c.ptoCount

theorem alarms_modifySpace {f : SpaceState → SpaceState} (hf : ∀ s, (f s).keys = s.keys)
    (c : Connection) (sp : Space) : (c.modifySpace sp f).alarms = c.alarms := by
  have hkeys : ((c.modifySpace sp f).space .handshake).keys = (c.space .handshake).keys := by
    rw [space_modifySpace]
    split
    · rename_i h
      rw [hf, h]
    · rfl
  have hfallback : (c.modifySpace sp f).ptoFallback = c.ptoFallback := by
    simp only [ptoFallback, hkeys]
    rfl
  simp only [alarms, hfallback]
  rfl

theorem alarms_queueSend (id : Nat) : (c.queueSend id).alarms = c.alarms := by
  unfold queueSend
  repeat' split
  all_goals rfl

theorem alarms_modifySend (id : Nat) (f : SendStream → SendStream) :
    (c.modifySend id f).alarms = c.alarms := by
  unfold modifySend
  split <;> rfl

theorem alarms_onFrameLost (sp : Space) (f : SentFrame) :
    (c.onFrameLost sp f).alarms = c.alarms := by
  cases f with
  | crypto offset len => exact alarms_modifySpace (by intro s; rfl) c sp
  | stream id offset len fin => exact (alarms_queueSend _ id).trans (alarms_modifySend c id _)
  | maxStreamData id limit =>
    simp only [onFrameLost, queueCredit]
    split <;> rfl
  | _ => rfl

theorem alarms_detectLost (sp : Space) (now lossDelay : Nat) :
    (c.detectLost sp now lossDelay).2.alarms = c.alarms :=
  detectLost_composes (.view alarms) (fun _ _ => rfl) (alarms_modifySpace (by intro s; rfl) c sp)
    (fun d _ _ f _ => alarms_onFrameLost d sp f)
    fun d _ => alarms_modifySpace (by intro s; rfl) d sp

end Alarms

/-! ## Loss and acknowledgement -/

theorem flights_onFrameLost (c : Connection) (sp : Space) (f : SentFrame) :
    (c.onFrameLost sp f).flights = c.flights := by
  cases f with
  | crypto offset len => exact flights_modifySpace_of (by intro s; rfl) c sp
  | stream | maxStreamData => exact flights_of_base (by simp [onFrameLost])
  | _ => rfl

theorem flights_onLostPackets (c : Connection) (sp : Space) (lost : List SentPacket) (now : Nat) :
    (c.onLostPackets sp lost now).flights = c.flights :=
  onLostPackets_composes (.view flights) (fun _ _ => rfl)
    (fun d _ _ f _ => flights_onFrameLost d sp f) c

theorem flights_onPacketAcked (c : Connection) (sp : Space) (p : SentPacket) :
    (c.onPacketAcked sp p).flights = c.flights := by
  refine ((Lib.Composes.view flights).foldl
    (fun c f _ => flights_of_base (base_onFrameAcked c f)) _).trans ?_
  split
  · exact flights_modifySpace_of (by intro s; rfl) c sp
  · rfl

theorem flights_detectLost (c : Connection) (sp : Space) (now lossDelay : Nat) :
    (c.detectLost sp now lossDelay).2.flights =
      Function.update c.flights sp ((c.flights sp).check now lossDelay) := by
  unfold detectLost
  rw [flights_modifySpace]
  generalize hd : ((c.modifySpace sp fun s => { s with
    sent := ((c.space sp).sent.detectLost now lossDelay).2 }).onLostPackets sp
      ((c.space sp).sent.detectLost now lossDelay).1.1 now) = d
  have hflights : d.flights = Function.update c.flights sp
      { c.flights sp with sent := ((c.space sp).sent.detectLost now lossDelay).2 } := by
    rw [← hd, flights_onLostPackets, flights_modifySpace]
    rfl
  have hself := congrFun hflights sp
  rw [Function.update_self] at hself
  rw [hflights, Function.update_idem]
  congr 1
  have hsent : (d.space sp).sent = _ := congrArg Flight.sent hself
  have hnext : (d.space sp).nextPacketNumber = _ := congrArg Flight.nextPacketNumber hself
  simp only [SpaceState.flight, hsent, hnext]
  rfl

theorem detectLost_flown {A : Space × Change → Prop} (c : Connection) (sp : Space)
    (now lossDelay : Nat) (ha : A (sp, .check now lossDelay)) :
    Flown A [] c (c.detectLost sp now lossDelay).2 :=
  .single (e := (sp, .check now lossDelay)) ha (by rw [flights_detectLost]; rfl)

/-- An ACK that acknowledges nothing in flight changes nothing. -/
theorem drain_of_none {s : SentPackets} {ranges : List (Nat × Nat)}
    (h : (s.drainAcked ranges).1 = []) : (s.drainAcked ranges).2 = s := by
  have hall : ∀ p ∈ s.packets, (!inRanges ranges p.number) = true := by
    intro p hp
    have hnot := List.filter_eq_nil_iff.mp h p hp
    simpa using hnot
  have hfilter : (s.packets.filter fun p => inRanges ranges p.number) = [] := h
  simp only [SentPackets.drainAcked, hfilter, List.foldl_nil, List.filter_eq_self.mpr hall]

theorem onAck_flown {A : Space × Change → Prop} (c : Connection) (sp : Space)
    (largest delay firstRange : Nat) (ranges : Bytes) (now : Nat)
    (ha : A (sp, .ack (ackRanges largest firstRange ranges) now
      (c.onAck sp largest delay firstRange ranges now).rtt.lossDelay)) :
    Flown A [] c (c.onAck sp largest delay firstRange ranges now) := by
  unfold onAck at ha ⊢
  generalize ackRanges largest firstRange ranges = acks at ha ⊢
  simp only at ha ⊢
  generalize hc : (c.modifySpace sp fun s =>
    { s with sent := ((c.space sp).sent.drainAcked acks).2 }) = c₁ at ha ⊢
  have h₁ : c₁.flights = Function.update c.flights sp ((c.flights sp).drain acks) := by
    rw [← hc, flights_modifySpace]
    rfl
  split
  · -- nothing new is acknowledged: `on_ack` returns before the loss check
    rename_i hnone
    refine .of_eq (h₁.trans ?_)
    have hsame : (c.flights sp).drain acks = c.flights sp := by
      simp only [Flight.drain]
      have hsent : (c.flights sp).sent = (c.space sp).sent := rfl
      rw [hsent, drain_of_none (List.isEmpty_iff.mp hnone)]
      rfl
    rw [hsame]
    exact Function.update_eq_self sp c.flights
  · rename_i hsome
    rw [if_neg hsome] at ha
    generalize hd : (if sp = .handshake then { c₁ with handshakeAcked := true } else c₁) = c₂ at ha ⊢
    have h₂ : c₂.flights = c₁.flights := by
      rw [← hd]
      split <;> rfl
    generalize hacked : (((c.space sp).sent.drainAcked acks).1.foldl
      (fun c p => c.onPacketAcked sp p)
      (c₂.sampleRtt ((c.space sp).sent.drainAcked acks).1 largest delay now)) = c₃ at ha ⊢
    have h₃ : c₃.flights = c₁.flights := by
      rw [← hacked, (Lib.Composes.view flights).foldl fun c p _ => flights_onPacketAcked c sp p,
        (sampleRtt_measured _ _ _ _ _).elsewhere.flights, h₂]
    -- drained and checked is one change of the flight
    have hcheck : ∀ (d : Connection) (lossDelay : Nat), d.flights = c₁.flights →
        (d.detectLost sp now lossDelay).2.flights =
          Function.update c.flights sp (((c.flights sp).drain acks).check now lossDelay) := by
      intro d lossDelay hflights
      rw [flights_detectLost, hflights, h₁, Function.update_self, Function.update_idem]
    have hstep : ∀ lossDelay, flightsStep c.flights (sp, .ack acks now lossDelay) =
        some (Function.update c.flights sp (((c.flights sp).drain acks).check now lossDelay)) :=
      fun _ => rfl
    generalize hd : ({ c₃ with congestion := c₃.congestion.onAck _ _ } : Connection) = d at ha ⊢
    have hfinal := (hcheck d c₃.rtt.lossDelay (hd ▸ h₃)).symm
    have hrtt : (d.detectLost sp now c₃.rtt.lossDelay).2.rtt = c₃.rtt := by
      rw [← hd]
      exact congrArg Alarms.rtt (alarms_detectLost _ sp now _)
    refine Flown.single ha ((hstep _).trans (congrArg some ?_))
    split
    · rw [hrtt]
      exact hfinal
    · rw [show (d.detectLost sp now c₃.rtt.lossDelay).2.wake.rtt = _ from hrtt, hfinal]
      exact ((Elsewhere.wake _).flights).symm

theorem discardSpace_flown {A : Space × Change → Prop} (c : Connection) (sp : Space)
    (ha : A (sp, .drop)) : Flown A [] c (c.discardSpace sp) := by
  have hspace : (c.discardSpace sp).flights = Function.update c.flights sp _ :=
    flights_modifySpace c sp _
  refine .single (e := (sp, .drop)) ha ?_
  rw [hspace]
  rfl

/-! ## Receiving -/

theorem handshaking_flights : Handshaking fun c d => d.flights = c.flights :=
  ⟨.view flights, Elsewhere.flights, fun _ _ => rfl⟩

section Receiving

variable {A : Space × Change → Prop} {now : Nat}

theorem handleFrame_flown (hdrop : A (.handshake, .drop)) (c : Connection) (sp : Space) (f : Frame)
    (hack : A (sp, .ack f.acks now (c.handleFrame sp f now).2.rtt.lossDelay)) :
    Flown A [] c (c.handleFrame sp f now).2 := by
  cases f with
  | ack largest delay firstRange ranges count =>
    exact onAck_flown c sp largest delay firstRange ranges now hack
  | crypto offset data => exact .of_eq (handshaking_flights.onCrypto c sp offset data)
  | handshakeDone =>
    have hdone : Flown A [] { c with handshakeDone := true } c.onHandshakeDone :=
      discardSpace_flown _ .handshake hdrop
    exact hdone.after rfl
  | stream id offset fin data =>
    exact .of_base ((base_arrived id _ _).trans (base_onStream c id offset data fin))
  | resetStream id error finalSize =>
    exact .of_base ((base_arrived id _ _).trans (base_onReset c id error finalSize))
  | stopSending id error => exact .of_base (base_onStopSending c id error)
  | maxStreamData id limit => exact .of_base (base_onMaxStreamData c id limit)
  | maxStreams uni limit =>
    refine .of_spaces ?_
    simp only [handleFrame]
    split <;> rfl
  | newConnectionId seq retirePriorTo cid token =>
    exact .of_eq (onNewConnectionId_readdressed c seq retirePriorTo cid token).elsewhere.flights
  | pathChallenge data => exact .of_base (base_onPathChallenge c data)
  | close app error reason => exact .of_eq (lose_elsewhere c _).flights
  | _ => exact .of_spaces rfl

/-- A packet takes out of flight what its ACK frames acknowledge. -/
theorem handlePacket_flown (hdrop : A (.handshake, .drop)) {c₀ c : Connection} {p : Packet}
    (hc : Flown A [] c₀ c)
    (hack : ∀ y ∈ c.packetFrames now p,
      A (p.space, .ack y.2.acks now (y.1.handleFrame p.space y.2 now).2.rtt.lossDelay)) :
    Flown A [] c₀ (c.handlePacket now p).2 := by
  refine (handlePacket_invariant (I := Flown A [] c₀) (J := Flown A [] c₀)
    (Q := fun c f => A (p.space, .ack f.acks now (c.handleFrame p.space f now).2.rtt.lossDelay))
    (fun h => h) ?_ ?_ ?_ ?_ hc hack).1
  · exact fun received => hc.before (flights_modifySpace_of (by intro s; rfl) c p.space)
  · exact fun pn generation received _ _ =>
      hc.before (acceptPacket_elsewhere c p pn generation received).flights
  · exact fun h hq => h.trans_nil (handleFrame_flown hdrop _ p.space _ hq)
  · exact fun _ h => h.before (flights_modifySpace_of (by intro s; rfl) _ p.space)

theorem onRetry_flown (hdrop : A (.initial, .drop)) (c : Connection) (dcid scid : ConnectionId)
    (token : Bytes) (tag : Option ConnectionId) : Flown A [] c (c.onRetry dcid scid token tag) := by
  unfold onRetry
  split
  · exact .refl c
  split
  · exact .refl c
  · have hspace := flights_modifySpace c .initial fun s =>
      { s with keys := some (.initial scid), cryptoSent := 0, sent := {}, lossDeadline := none }
    exact Flown.single (e := (.initial, .drop)) hdrop (congrArg some hspace.symm)

/-- A datagram does what the ACK frames of its packets do; besides, a space may be dropped. -/
theorem handleDatagram_flown {c : Connection} {d : Datagram} (hinitial : A (.initial, .drop))
    (hhandshake : A (.handshake, .drop))
    (hack : ∀ x ∈ (Op.datagram now d).packets c, ∀ y ∈ x.conn.packetFrames x.now x.packet,
      A (x.packet.space,
        .ack y.2.acks x.now (y.1.handleFrame x.packet.space y.2 x.now).2.rtt.lossDelay)) :
    Flown A [] c (c.handleDatagram now d).2 := by
  have haround : Around (Flown A [] c) :=
    Elsewhere.around (fun he h => h.before he.flights) fun dcid scid token tag h =>
      h.trans_nil (onRetry_flown hinitial _ dcid scid token tag)
  exact (Op.datagram_invariant haround (fun hx hp => handlePacket_flown hhandshake hx hp) (.refl c)
    now d hack).1

/-! ## Timers -/

theorem handleTimeout_flown (c : Connection)
    (hcheck : ∀ sp, A (sp, .check now c.rtt.lossDelay)) :
    Flown A [] c (c.handleTimeout now) :=
  handleTimeout_composes ⟨Flown.refl, Flown.trans_nil⟩ (fun h => .of_eq h.flights)
    c fun d sp => detectLost_flown d sp now _ (hcheck sp)

end Receiving

end Connection

/-! ## Sending -/

namespace Filling

open Connection

theorem flights_turn {sp : Space} {budget : Nat} {b b' : Filling} (h : b.Turn sp budget b') :
    b'.conn.flights = b.conn.flights := by
  cases h with
  | crypto _ _ _ => exact flights_modifySpace_of (by intro s; rfl) b.conn sp
  | answered _ _ _ =>
    unfold ping
    split <;> rfl
  | credit _ _ _ _ _ => exact flights_of_base (base_modifyRecv _ _ _)
  | stream _ _ _ _ _ => exact flights_of_base (base_streamTurn _ _ _ _ _)
  | _ => rfl

end Filling

namespace Connection

theorem flights_fillPayload (c : Connection) (sp : Space) (now budget : Nat) (congested : Bool) :
    (c.fillPayload sp now budget congested).2.flights = c.flights :=
  fillPayload_turns (.view flights) (fun c => flights_modifySpace_of (by intro s; rfl) c sp)
    (fun _ => rfl) Filling.flights_turn c congested

section Sending

variable {A : Space × Change → Prop} {now : Nat}

theorem flights_emit (c : Connection) (sp : Space) (p : SentPacket) :
    (c.emit sp p now).flights = Function.update c.flights sp
      { c.flights sp with
        sent := (c.flights sp).sent.push p
        nextPacketNumber := (c.flights sp).nextPacketNumber + 1 } := by
  unfold emit
  split
  · rw [(noteSent_elsewhere _ now).flights, flights_modifySpace]
    rfl
  · rw [flights_modifySpace]
    rfl

theorem emit_flown (hsend : ∀ sp p, A (sp, .send p)) {c : Connection} {sp : Space} {p : SentPacket}
    (hp : p.number = (c.flights sp).nextPacketNumber) :
    Flown A [(sp, p.number)] c (c.emit sp p now) := by
  refine Flown.single (e := (sp, .send p)) (hsend sp p) ?_
  rw [flights_emit]
  simp only [flightsStep, Flight.step, if_pos hp, Option.map_some]

/-- A packet that is written is sent under the next number of its space. -/
theorem writePacket_flown (hsend : ∀ sp p, A (sp, .send p)) (c : Connection) (sp : Space)
    (key : Key) (now written : Nat) (congested : Bool) (pad : Option Nat) :
    Ends (fun o => Flown A (o.toList.map OutPacket.sentAs) c) (fun e _ => e = .panicked)
      (c.writePacket sp key now written congested pad) := by
  unfold writePacket
  split
  · exact .refl c
  simp only
  generalize pad.getD maxDatagram - _ = budget
  have hfill := flights_fillPayload c sp now budget congested
  split
  all_goals
    rename_i heq
    rw [heq] at hfill
  · exact fillPayload_panics heq
  split
  · exact Flown.of_eq hfill
  · have hnext := congrArg Flight.nextPacketNumber (congrFun hfill.symm sp)
    exact (emit_flown hsend hnext).after hfill

/-- A datagram that is built sends the packets in it. -/
theorem pollTransmit_flown (hsend : ∀ sp p, A (sp, .send p)) (hdrop : A (.initial, .drop))
    (now : Nat) (c : Connection) (pad : Option Nat) :
    Ends (fun out => Flown A (out.map OutPacket.sentAs) c)
      (fun e d => e = .panicked ∨ Flown A [] c d) (c.pollTransmit now pad) := by
  refine pollTransmit_ends (.refl c) ?_ (fun {out d} sp key written congested pad hd => ?_)
    (fun hd => hd.trans_nil (discardSpace_flown _ .initial hdrop))
    (fun hd => hd.before ((armIdle_elsewhere _ now).flights)) pad
  · have hpump : Flown A [] c c.pumpTls.2 := .of_eq (handshaking_flights.pumpLoop _ c)
    cases hr : c.pumpTls with
    | mk r d =>
      rw [hr] at hpump
      cases r with
      | error e => exact Or.inr hpump
      | ok _ => exact hpump
  · have hwrite := writePacket_flown hsend d sp key now written congested pad
    cases hr : d.writePacket sp key now written congested pad with
    | mk r d' =>
      rw [hr] at hwrite
      cases r with
      | error e => exact Or.inl hwrite
      | ok o =>
        simp only [Ends, List.map_append]
        exact hd.trans hwrite

end Sending

end Connection

end Shb.Quic
