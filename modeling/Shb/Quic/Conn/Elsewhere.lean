import Shb.Lib.Run
import Shb.Quic.Conn.Runs

/-!
# What is none of the streams'

Most of a connection is about the handshake, the keys, the addresses and the timers. What
changes only that is `Elsewhere`: streams, queues, limits and the log stay, packets in flight and
what was received stay, and no stream is reported finished. Whatever looks only at those is not
changed by it, and is looked at once for each of them.
-/

namespace Shb.Quic

open Lib

namespace Connection

/-- The connection `c`, with the handshake, the keys, the addresses and the timers of `d`. -/
def along (c d : Connection) : Connection :=
  { c with
    tls := d.tls, spaces := d.spaces, oneRttLocal := d.oneRttLocal, oneRttRemote := d.oneRttRemote
    secrets := d.secrets, next1rtt := d.next1rtt, prev1rttRemote := d.prev1rttRemote
    keyPhase := d.keyPhase, serverInitialSeen := d.serverInitialSeen, rotateAt := d.rotateAt
    peerCid := d.peerCid, peerCidSeq := d.peerCidSeq, peerCids := d.peerCids
    retirePriorTo := d.retirePriorTo, retirePending := d.retirePending, params := d.params
    sentSinceRecv := d.sentSinceRecv, nextKeepalive := d.nextKeepalive
    keepalivePending := d.keepalivePending, handshakeDone := d.handshakeDone
    handshakeAcked := d.handshakeAcked, connected := d.connected, closed := d.closed
    closePending := d.closePending, maxStreamsBidi := d.maxStreamsBidi, rtt := d.rtt
    rttSampledAt := d.rttSampledAt, congestion := d.congestion, ptoCount := d.ptoCount
    ptoProbes := d.ptoProbes, ptoSpace := d.ptoSpace, idleDeadline := d.idleDeadline
    events := d.events, needsSend := d.needsSend }

/-- From one connection to another with the same streams, the same record and the same flights. -/
structure Elsewhere (c d : Connection) : Prop where
  same : d = c.along d
  spaces : ∀ sp, (d.space sp).ack = (c.space sp).ack ∧ (d.space sp).sent = (c.space sp).sent ∧
    (d.space sp).lossDeadline = (c.space sp).lossDeadline ∧
    (d.space sp).nextPacketNumber = (c.space sp).nextPacketNumber
  events : ∃ es, d.events = c.events ++ es ∧ ∀ id reset, .finished id reset ∉ es

namespace Elsewhere

variable {c d e : Connection}

theorem of_same (h : d = c.along d) (hspaces : d.spaces = c.spaces) (hevents : d.events = c.events)
    :
    Elsewhere c d where
  same := h
  spaces sp := by
    unfold space
    rw [hspaces]
    exact ⟨rfl, rfl, rfl, rfl⟩
  events := ⟨[], by rw [hevents, List.append_nil], fun _ _ => List.not_mem_nil⟩

theorem refl (c : Connection) : Elsewhere c c := of_same rfl rfl rfl

theorem trans (h : Elsewhere c d) (h' : Elsewhere d e) : Elsewhere c e where
  same := by
    have hsame : d.along e = c.along e := by
      rw [h.same]
      rfl
    exact h'.same.trans hsame
  spaces sp := by
    obtain ⟨h₁, h₂, h₃, h₄⟩ := h.spaces sp
    obtain ⟨h₁', h₂', h₃', h₄'⟩ := h'.spaces sp
    exact ⟨h₁'.trans h₁, h₂'.trans h₂, h₃'.trans h₃, h₄'.trans h₄⟩
  events := by
    obtain ⟨es, hes, hnone⟩ := h.events
    obtain ⟨es', hes', hnone'⟩ := h'.events
    refine ⟨es ++ es', by rw [hes', hes, List.append_assoc], fun id reset hmem => ?_⟩
    rcases List.mem_append.mp hmem with hmem | hmem
    · exact hnone id reset hmem
    · exact hnone' id reset hmem

/-- A change of a space that is neither of its flight nor of what was received. -/
theorem modifySpace {f : SpaceState → SpaceState} (c : Connection) (sp : Space)
    (h : ∀ s, (f s).ack = s.ack ∧ (f s).sent = s.sent ∧ (f s).lossDeadline = s.lossDeadline ∧
      (f s).nextPacketNumber = s.nextPacketNumber) : Elsewhere c (c.modifySpace sp f) where
  same := rfl
  spaces sp' := by
    cases sp <;> cases sp' <;> first | exact h _ | exact ⟨rfl, rfl, rfl, rfl⟩
  events := ⟨[], (List.append_nil _).symm, fun _ _ => List.not_mem_nil⟩

theorem pushEvent (c : Connection) {ev : Event} (h : ∀ id reset, ev ≠ .finished id reset) :
    Elsewhere c (c.pushEvent ev) where
  same := rfl
  spaces _ := ⟨rfl, rfl, rfl, rfl⟩
  events := ⟨[ev], rfl, fun id reset hmem => h id reset (List.mem_singleton.mp hmem).symm⟩

theorem wake (c : Connection) : Elsewhere c c.wake := of_same rfl rfl rfl

end Elsewhere

/-! ## Ending the connection -/

variable (c)

theorem lose_elsewhere (why : Loss) : Elsewhere c (c.lose why) := by
  unfold lose
  split
  · have hclosed : Elsewhere c { c with closed := some why } := .of_same rfl rfl rfl
    exact hclosed.trans (.pushEvent _ nofun)
  · exact .refl c

theorem close_elsewhere (code : Nat) (reason : Bytes) : Elsewhere c (c.close code reason) := by
  unfold close
  split <;> exact .of_same rfl rfl rfl

theorem closeTransport_elsewhere (code : Nat) (why : Loss) :
    Elsewhere c (c.closeTransport code why) := by
  unfold closeTransport
  split
  · generalize hd : ({ c with closePending := _ } : Connection) = d
    have hpending : Elsewhere c d := by
      subst hd
      exact .of_same rfl rfl rfl
    exact hpending.trans (lose_elsewhere d why)
  · exact .refl c

theorem onVersionNegotiation_elsewhere (dcid scid : ConnectionId)
    (versions : List Nat) : Elsewhere c (c.onVersionNegotiation dcid scid versions) := by
  unfold onVersionNegotiation
  repeat' split
  all_goals first | exact .refl c | exact lose_elsewhere c _

/-! ## Timers -/

theorem armIdle_elsewhere (now : Nat) : Elsewhere c (c.armIdle now) := by
  unfold armIdle
  split <;> exact .of_same rfl rfl rfl

theorem noteReceived_elsewhere (now : Nat) : Elsewhere c (c.noteReceived now) :=
  Elsewhere.trans (d := { c with sentSinceRecv := false }) (.of_same rfl rfl rfl)
    (armIdle_elsewhere _ now)

theorem noteSent_elsewhere (now : Nat) : Elsewhere c (c.noteSent now) := by
  unfold noteSent
  split
  · exact .refl c
  · have hsent : Elsewhere c { c with sentSinceRecv := true } := .of_same rfl rfl rfl
    dsimp only
    split
    · exact hsent.trans (armIdle_elsewhere _ now)
    · exact hsent

variable {c}

/-- What is kept elsewhere is kept around the packets of a datagram, if a Retry keeps it. -/
theorem Elsewhere.around {I : Connection → Prop}
    (h : ∀ {c d : Connection}, Elsewhere c d → I c → I d)
    (hretry : ∀ {c : Connection} (dcid scid : ConnectionId) (token : Bytes)
      (tag : Option ConnectionId), I c → I (c.onRetry dcid scid token tag)) : Around I where
  versionNegotiation dcid scid versions := h (onVersionNegotiation_elsewhere _ dcid scid versions)
  retry := hretry
  closeTransport code why := h (closeTransport_elsewhere _ code why)
  noteReceived now := h (noteReceived_elsewhere _ now)
  lose why := h (lose_elsewhere _ why)

/-! ## Acknowledgement and loss -/

/-- What is only measured: round trips, congestion, and that something is to be sent. -/
def Measured (c d : Connection) : Prop :=
  d = { c with
    handshakeAcked := d.handshakeAcked, rtt := d.rtt, rttSampledAt := d.rttSampledAt
    congestion := d.congestion, needsSend := d.needsSend }

theorem Measured.elsewhere {c d : Connection} (h : Measured c d) : Elsewhere c d := by
  refine .of_same ?_ ?_ ?_
  all_goals rw [h]
  rfl

/-- The congestion controller is told something. -/
theorem Measured.congestion (c : Connection) (g : Congestion) :
    Measured c { c with congestion := g } := rfl

theorem sampleRtt_measured (c : Connection) (acked : List SentPacket) (largest delay now : Nat) :
    Measured c (c.sampleRtt acked largest delay now) := by
  unfold sampleRtt
  repeat' split
  all_goals rfl

section Recovery

variable {R : Connection → Connection → Prop} {sp : Space} {now : Nat}

/-- What each frame of lost packets does, losing them does. -/
theorem onLostPackets_composes (hR : Composes R)
    (hcongestion : ∀ (c : Connection) g, R c { c with congestion := g })
    {lost : List SentPacket} (hframe : ∀ d, ∀ p ∈ lost, ∀ f ∈ p.frames, R d (d.onFrameLost sp f))
    (c : Connection) : R c (c.onLostPackets sp lost now) := by
  have hloop : R c (lost.foldl (fun c p => c.onLostPacket sp now p) c) := by
    refine hR.foldl (fun d p hp => ?_) c
    exact hR.trans (hcongestion d _) (hR.foldl (fun e => hframe e p hp) _)
  refine hR.trans hloop ?_
  unfold onLostPackets
  dsimp only
  split
  · exact hR.refl _
  · split
    · exact hcongestion _ _
    · exact hR.refl _

theorem detectLost_composes (hR : Composes R)
    (hcongestion : ∀ (c : Connection) g, R c { c with congestion := g }) {c : Connection}
    {lossDelay : Nat} (hsent : R c (c.modifySpace sp fun s =>
      { s with sent := ((c.space sp).sent.detectLost now lossDelay).2 }))
    (hframe : ∀ d, ∀ p ∈ ((c.space sp).sent.detectLost now lossDelay).1.1, ∀ f ∈ p.frames,
      R d (d.onFrameLost sp f)) (hdeadline : ∀ (d : Connection) deadline,
      R d (d.modifySpace sp fun s => { s with lossDeadline := deadline })) :
    R c (c.detectLost sp now lossDelay).2 :=
  hR.trans hsent (hR.trans (onLostPackets_composes hR hcongestion hframe _) (hdeadline _ _))

/-- What each packet an ACK names does, and the loss check, the ACK does. -/
theorem onAck_composes (hR : Composes R) (hm : ∀ {c d}, Measured c d → R c d) {c : Connection}
    {largest delay firstRange : Nat} {ranges : Bytes} (hdrain : R c (c.modifySpace sp fun s =>
      { s with sent := ((c.space sp).sent.drainAcked (ackRanges largest firstRange ranges)).2 }))
    (hacked : ∀ d, ∀ p ∈ ((c.space sp).sent.drainAcked (ackRanges largest firstRange ranges)).1,
      R d (d.onPacketAcked sp p))
    (hlost : ∀ (d : Connection) lossDelay, R d (d.detectLost sp now lossDelay).2) :
    R c (c.onAck sp largest delay firstRange ranges now) := by
  unfold onAck
  generalize (c.space sp).sent.drainAcked (ackRanges largest firstRange ranges) =
    drained at hdrain hacked
  dsimp only
  generalize (c.modifySpace sp fun s => { s with sent := drained.2 }) = d at hdrain
  refine hR.trans hdrain ?_
  split
  · exact hR.refl d
  · generalize hflag : (if sp = .handshake then { d with handshakeAcked := true } else d) = d₁
    have h₁ : R d d₁ := by
      refine hm ?_
      subst hflag
      split <;> rfl
    have h₂ := hR.trans h₁ (hm (sampleRtt_measured d₁ drained.1 largest delay now))
    have h₃ := hR.trans h₂ (hR.foldl hacked _)
    generalize (drained.1.foldl (fun c p => c.onPacketAcked sp p)
      (d₁.sampleRtt drained.1 largest delay now)) = d₃ at h₃
    have h₄ := fun g => hR.trans (hR.trans h₃ (hm (.congestion d₃ g))) (hlost _ d₃.rtt.lossDelay)
    split
    · exact h₄ _
    · exact hR.trans (h₄ _) (hm rfl)

/-- What the loss checks do, a timer does. -/
theorem handleTimeout_composes (hR : Composes R) (helse : ∀ {c d}, Elsewhere c d → R c d)
    (c : Connection) (hlost : ∀ (d : Connection) sp, R d (d.detectLost sp now c.rtt.lossDelay).2) :
    R c (c.handleTimeout now) := by
  unfold handleTimeout
  split
  · exact hR.trans (helse (d := { c with idleDeadline := none }) (.of_same rfl rfl rfl))
      (helse (lose_elsewhere _ _))
  split
  · exact helse (.of_same rfl rfl rfl)
  split
  · split
    · exact hR.refl c
    · exact hR.trans (hR.trans (hlost c .initial) (hR.trans (hlost _ .handshake) (hlost _ .data)))
        (helse (.wake _))
  · split
    · rename_i sp _ _
      split
      · have hcrypto : Elsewhere c (c.modifySpace sp fun s => { s with cryptoSent := 0 }) :=
          .modifySpace c sp fun _ => ⟨rfl, rfl, rfl, rfl⟩
        exact helse (hcrypto.trans (.of_same rfl rfl rfl))
      · exact hR.refl c
    · exact hR.refl c

end Recovery

/-! ## Keys and addresses -/

variable (c)

theorem rotateKeys_elsewhere (at_ : Nat) (phase : Bool) : Elsewhere c (c.rotateKeys at_ phase) := by
  unfold rotateKeys
  split <;> exact .of_same rfl rfl rfl

theorem adoptScid_elsewhere (p : Packet) : Elsewhere c (c.adoptScid p) := by
  unfold adoptScid
  split <;> exact .of_same rfl rfl rfl

theorem acceptPacket_elsewhere (p : Packet) (pn : Nat) (generation : Generation)
    (received : ReceivedPackets) : Elsewhere c (c.acceptPacket p pn generation received) := by
  have hrotate : ∀ d : Connection,
      Elsewhere d (if generation = .next then d.rotateKeys pn p.phase else d) := by
    intro d
    split
    · exact rotateKeys_elsewhere d pn p.phase
    · exact .refl d
  have hreceived : Elsewhere c (c.modifySpace p.space fun s => { s with received := received }) :=
    .modifySpace c p.space fun _ => ⟨rfl, rfl, rfl, rfl⟩
  exact ((hreceived.trans (hrotate _)).trans (adoptScid_elsewhere _ p)).trans
    (.modifySpace _ p.space fun _ => ⟨rfl, rfl, rfl, rfl⟩)

/-- The connection `c`, with the peer's connection ids of `d`. -/
def addressed (c d : Connection) : Connection :=
  { c with
    peerCid := d.peerCid, peerCidSeq := d.peerCidSeq, peerCids := d.peerCids
    retirePriorTo := d.retirePriorTo, retirePending := d.retirePending, needsSend := d.needsSend }

variable {c}

/-- Of the peer's connection ids only. -/
def Readdressed (c d : Connection) : Prop := d = c.addressed d

theorem Readdressed.trans {d e : Connection} (h : Readdressed c d) (h' : Readdressed d e) :
    Readdressed c e := by
  have hsame : d.addressed e = c.addressed e := by
    rw [h]
    rfl
  exact Eq.trans h' hsame

theorem Readdressed.elsewhere {d : Connection} (h : Readdressed c d) : Elsewhere c d := by
  refine .of_same ?_ ?_ ?_
  all_goals
    rw [h]
    rfl

variable (c)

theorem retireBelow_readdressed (retirePriorTo : Nat) :
    Readdressed c (c.retireBelow retirePriorTo) := by
  unfold retireBelow
  split <;> rfl

theorem holdCid_readdressed (seq : Nat) (cid : Bytes) (token : Option Bytes) :
    Readdressed c (c.holdCid seq cid token).2 := by
  unfold holdCid
  repeat' split
  all_goals rfl

theorem moveCid_readdressed : Readdressed c c.moveCid := by
  unfold moveCid
  repeat' split
  all_goals rfl

theorem onNewConnectionId_readdressed (seq retirePriorTo : Nat) (cid token : Bytes) :
    Readdressed c (c.onNewConnectionId seq retirePriorTo cid token).2 := by
  unfold onNewConnectionId
  split
  · rfl
  split
  · rfl
  dsimp only
  generalize (if token.length = 16 then some token else none) = kept
  split
  · rfl
  split
  · split <;> rfl
  · have hold := (retireBelow_readdressed c retirePriorTo).trans
      (holdCid_readdressed _ seq cid kept)
    split
    all_goals
      rename_i h
      rw [h] at hold
    · exact hold
    · exact hold.trans (moveCid_readdressed _)

/-! ## The handshake -/

theorem readHs_elsewhere : Elsewhere c c.readHs.2 := by
  unfold readHs
  split <;> exact .of_same rfl rfl rfl

theorem takeOneRtt_elsewhere : Elsewhere c c.takeOneRtt := by
  refine Elsewhere.trans (d := { c with
    oneRttLocal := some 0, oneRttRemote := some 0, next1rtt := some 1, secrets := some 2
    connected := true }) (.of_same rfl rfl rfl) (.pushEvent _ nofun)

variable {c}

/-- What the handshake does: besides what is elsewhere, the peer's parameters grant credit. -/
structure Handshaking (R : Connection → Connection → Prop) : Prop extends Composes R where
  elsewhere : ∀ {c d}, Elsewhere c d → R c d
  granted : ∀ (c : Connection) limit,
    R c ({ c with maxDataPeer := limit }.note (.granted limit))

namespace Handshaking

variable {R : Connection → Connection → Prop}

theorem takePeerParams (hR : Handshaking R) (c : Connection) (raw : Option Bytes) :
    R c (c.takePeerParams raw).2 := by
  unfold Connection.takePeerParams
  split
  · exact hR.refl c
  · split
    · exact hR.refl c
    · rename_i params _
      have hparams : Elsewhere c { c with params := params } := .of_same rfl rfl rfl
      dsimp only
      split
      · exact hR.elsewhere hparams
      · refine hR.trans (hR.elsewhere (d := { c with
            params := params, maxStreamsBidi := params.initialMaxStreamsBidi
            peerCids := setFirstToken params.statelessResetToken c.peerCids })
          (.of_same rfl rfl rfl)) (hR.granted _ params.initialMaxData)

theorem pumpLoop (hR : Handshaking R) : ∀ (ws : List TlsWrite) (c : Connection),
    R c (Connection.pumpLoop ws c).2
  | [], c => hR.elsewhere (.of_same rfl rfl rfl)
  | w :: ws, c => by
    have hout : R c (c.modifySpace c.tlsSpace fun s =>
        { s with cryptoOut := s.cryptoOut ++ w.data }) :=
      hR.elsewhere (.modifySpace c _ fun _ => ⟨rfl, rfl, rfl, rfl⟩)
    have hwrites : ∀ d : Connection, R d { d with tls := { d.tls with writes := ws } } :=
      fun d => hR.elsewhere (.of_same rfl rfl rfl)
    have hwake : ∀ d : Connection, R d (Connection.pumpLoop ws d.wake).2 :=
      fun d => hR.trans (hR.elsewhere (.wake d)) (hR.pumpLoop ws _)
    refine hR.trans hout ?_
    simp only [Connection.pumpLoop]
    generalize (c.modifySpace c.tlsSpace fun s => { s with cryptoOut := s.cryptoOut ++ w.data }) = d
    split
    · refine hR.trans (hR.elsewhere ?_) (hwake _)
      exact .modifySpace d .handshake fun _ => ⟨rfl, rfl, rfl, rfl⟩
    · rename_i raw _
      have hparams := hR.takePeerParams d raw
      split
      all_goals
        rename_i heq
        rw [heq] at hparams
      · exact hR.trans hparams (hwrites _)
      · exact hR.trans hparams (hR.trans (hR.elsewhere (takeOneRtt_elsewhere _)) (hwake _))
    · split
      · exact hwrites d
      · exact hwake d

theorem onCrypto (hR : Handshaking R) (c : Connection) (sp : Space) (offset : Nat)
    (data : Bytes) : R c (c.onCrypto sp offset data).2 := by
  have hin : ∀ (d : Connection) (recv : RecvStream),
      R d (d.modifySpace sp fun s => { s with cryptoIn := recv }) :=
    fun d recv => hR.elsewhere (.modifySpace d sp fun _ => ⟨rfl, rfl, rfl, rfl⟩)
  unfold Connection.onCrypto
  split
  · exact hR.refl c
  · rename_i recv _
    dsimp only
    split
    · exact hin c recv
    · have hread := hR.trans (hin c recv) (hR.elsewhere (readHs_elsewhere _))
      split
      all_goals
        rename_i heq
        rw [heq] at hread
      · exact hR.trans hread (hR.elsewhere (closeTransport_elsewhere _ _ _))
      · exact hR.trans hread (hR.trans (hin _ _) (hR.pumpLoop _ _))

end Handshaking

end Connection

end Shb.Quic
