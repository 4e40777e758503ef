import Mathlib.Order.Monotone.Basic
import Shb.Quic.Conn.Link

/-!
# Key updates under any reordering

A 1-RTT packet says one bit about the generation of keys it was sealed with. With the
connection on generation `g` the other value of the bit is `g - 1` or `g + 1`, and the packet
number has to tell which: below `rotateAt` it is the older one. That is right for a peer whose
generation never decreases with the packet number, because `rotateAt` is the number of *some*
packet of generation `g`, the first one seen: every packet of `g - 1` is below every packet of
`g`, and every packet of `g + 1` above. Which of them was seen first does not matter, and no
order of arrival does.

`Tracks` is that invariant of the link; it is kept by everything, and a packet that opens
under the next generation moves it one on.
-/

namespace Shb.Quic

open Lib

/-- Whether this answer of rustls brings the 1-RTT keys. -/
def TlsWrite.givesOneRtt (w : TlsWrite) : Bool :=
  match w.change with
  | some (.oneRtt _) => true
  | _ => false

namespace Link

/-- No 1-RTT keys yet, and rustls will bring them once. -/
structure Before (l : Link) : Prop where
  remote : l.oneRttRemote = none
  phase : l.keyPhase = false
  rotateAt : l.rotateAt = 0
  once : l.writes.countP TlsWrite.givesOneRtt ≤ 1

/-- On generation `g`, the neighbours at hand, and `rotateAt` the number of a packet of `g`. -/
structure On (gen : Nat → Nat) (g : Nat) (l : Link) : Prop where
  remote : l.oneRttRemote = some g
  next : l.next1rtt = some (g + 1)
  secrets : l.secrets = some (g + 2)
  prev : ∀ k, g = k + 1 → l.prev1rttRemote = some k
  phase : l.keyPhase = decide (g % 2 = 1)
  boundary : (g = 0 ∧ l.rotateAt = 0) ∨ gen l.rotateAt = g
  once : l.writes.countP TlsWrite.givesOneRtt = 0

def Tracks (gen : Nat → Nat) (l : Link) : Prop := l.Before ∨ ∃ g, l.On gen g

/-- A property of the keys alone, which what rustls brings keeps. -/
structure KeyProperty (K : Link → Prop) : Prop where
  cids : ∀ {l : Link} peerCid peerCidSeq peerCids retirePriorTo handshakeDone
    serverInitialSeen, K l → K { l with
        peerCid := peerCid
        peerCidSeq := peerCidSeq
        peerCids := peerCids
        retirePriorTo := retirePriorTo
        handshakeDone := handshakeDone
        serverInitialSeen := serverInitialSeen }
  drop : ∀ {l : Link} {w ws}, K { l with writes := w :: ws } → K { l with writes := ws }
  start : ∀ {l : Link} {w : TlsWrite} {ws raw} token, w.change = some (.oneRtt raw) →
    K { l with writes := w :: ws } → K (({ l with writes := ws } : Link).started token)

variable {g : Nat} {gen : Nat → Nat} {l : Link} {w : TlsWrite} {ws : List TlsWrite}

theorem On.drop (h : On gen g { l with writes := w :: ws }) : On gen g { l with writes := ws } := by
  obtain ⟨h1, h2, h3, h4, h5, h6, h7⟩ := h
  refine ⟨h1, h2, h3, h4, h5, h6, ?_⟩
  simp only [List.countP_cons] at h7 ⊢
  omega

/-- Once the keys are there rustls brings no others. -/
theorem On.not_started {raw : Option Bytes} (h : On gen g { l with writes := w :: ws })
    (hw : w.change = some (.oneRtt raw)) : False := by
  have hcount := h.once
  have hgives : w.givesOneRtt = true := by simp [TlsWrite.givesOneRtt, hw]
  simp [hgives] at hcount

theorem Before.drop (h : Before { l with writes := w :: ws }) : Before { l with writes := ws } := by
  obtain ⟨h1, h2, h3, h4⟩ := h
  refine ⟨h1, h2, h3, ?_⟩
  simp only [List.countP_cons] at h4 ⊢
  omega

/-- The first keys are generation 0, and `rotateAt` is still 0. -/
theorem Before.started {raw : Option Bytes} (h : Before { l with writes := w :: ws })
    (hw : w.change = some (.oneRtt raw)) (token : Option Bytes) :
    On gen 0 (({ l with writes := ws } : Link).started token) where
  remote := rfl
  next := rfl
  secrets := rfl
  prev := fun k hk => absurd hk (by omega)
  phase := h.phase
  boundary := Or.inl ⟨rfl, h.rotateAt⟩
  once := by
    have hcount := h.once
    have hgives : w.givesOneRtt = true := by simp [TlsWrite.givesOneRtt, hw]
    simp only [List.countP_cons, hgives, if_true] at hcount
    exact Nat.le_zero.mp (Nat.le_of_succ_le_succ hcount)

theorem Tracks.keyProperty (gen : Nat → Nat) : KeyProperty (Tracks gen) where
  cids _ _ _ _ _ _ h := by
    rcases h with h | ⟨g, h⟩
    · exact Or.inl ⟨h.remote, h.phase, h.rotateAt, h.once⟩
    · exact Or.inr ⟨g, h.remote, h.next, h.secrets, h.prev, h.phase, h.boundary, h.once⟩
  drop h := by
    rcases h with h | ⟨g, h⟩
    · exact Or.inl h.drop
    · exact Or.inr ⟨g, h.drop⟩
  start token hw h := by
    rcases h with h | ⟨g, h⟩
    · exact Or.inr ⟨0, h.started hw token⟩
    · exact (h.not_started hw).elim

/-- The generation moves on at packet number `at_`. -/
theorem On.rotate {at_ : Nat} {phase : Bool} {c : Connection} (h : c.link.On gen g)
    (hgen : gen at_ = g + 1) (hphase : phase = decide ((g + 1) % 2 = 1)) :
    (c.rotateKeys at_ phase).link.On gen (g + 1) := by
  have hremote : c.oneRttRemote = some g := h.remote
  have hsecrets : c.secrets = some (g + 2) := h.secrets
  rw [Connection.link_rotateKeys h.next, hremote, hsecrets]
  exact ⟨rfl, rfl, rfl, fun k hk => by simp only; congr 1; omega, hphase, Or.inr hgen, h.once⟩

end Link

/-! ## What operations keep -/

namespace Connection

open Link

section KeyProperty

variable {K : Link → Prop} (hK : KeyProperty K)
include hK

variable {c : Connection}

theorem pumpTls_keys (h : K c.link) : K c.pumpTls.2.link :=
  pumpLoop_link (fun h => hK.drop h) (fun token hw h => hK.start token hw h) _ c h

theorem handleFrame_keys (h : K c.link) (sp : Space) (f : Frame) (now : Nat) :
    K (c.handleFrame sp f now).2.link := by
  cases f with
  | crypto offset data =>
    rcases link_onCrypto c sp offset data with heq | ⟨d, hd, heq⟩
    · exact heq.symm ▸ h
    · exact heq.symm ▸ pumpTls_keys hK (hd.symm ▸ h)
  | handshakeDone => exact hK.cids _ _ _ _ true _ h
  | newConnectionId seq retirePriorTo cid token =>
    obtain ⟨pc, ps, pcs, prior, heq⟩ := link_onNewConnectionId c seq retirePriorTo cid token
    exact heq.symm ▸ hK.cids pc ps pcs prior _ _ h
  | maxData limit => exact h
  | maxStreams uni limit => cases uni <;> exact h
  | _ => simpa [handleFrame, link_eq] using h

theorem around_keys : Around fun c => K c.link where
  versionNegotiation dcid scid versions hi := by simpa [link_eq] using hi
  retry dcid scid token tag hi := by
    rcases link_onRetry _ dcid scid token tag with heq | ⟨-, -, heq⟩
    · rwa [heq]
    · rw [heq]
      exact hK.cids _ _ _ _ _ _ hi
  closeTransport code why hi := by simpa [link_eq] using hi
  noteReceived now hi := by simpa [link_eq] using hi
  lose why hi := by simpa [link_eq] using hi

/-- What is done with a packet before its frames are read: the next generation comes in. -/
theorem acceptPacket_keys (h : K c.link) (p : Packet) (pn : Nat) {generation : Generation}
    (received : ReceivedPackets) (hrotate : generation = .next → K (c.rotateKeys pn p.phase).link) :
    K (c.acceptPacket p pn generation received).link := by
  have hadopt : ∀ d : Connection, K d.link → K (d.adoptScid p).link := by
    intro d hd
    unfold adoptScid
    split
    · exact hK.cids _ _ _ _ _ _ hd
    · exact hd
  refine hadopt _ ?_
  split
  · rename_i hnext
    rw [link_rotateKeys_modifySpace]
    exact hrotate hnext
  · exact h

/-- A packet changes the keys by its frames, and before them if it opens under the next
generation. -/
theorem handlePacket_keys {p : Packet} (now : Nat) (h : K c.link)
    (hrotate : ∀ pn, c.openPacket p = some (pn, .next) → K (c.rotateKeys pn p.phase).link) :
    K (c.handlePacket now p).2.link := by
  refine (handlePacket_invariant (I := fun c => K c.link) (Q := fun _ _ => True) id (fun _ => h) ?_
    (fun h _ => handleFrame_keys hK h p.space _ now) (fun _ h => h) h fun _ _ => trivial).1
  intro pn generation received ho _
  exact acceptPacket_keys hK h p pn received fun hnext => hrotate pn (hnext ▸ ho)

/-- Everything but a datagram from the peer. -/
theorem step_keys {c' : Connection} {op : Op} (h : K c.link) (hop : ∀ now d, op ≠ .datagram now d)
    (hstep : op.step c = some c') : K c'.link := by
  cases op with
  | datagram now d => exact absurd rfl (hop now d)
  | transmit now pad =>
    rw [← Op.step_transmit hstep]
    rcases link_pollTransmit c now pad with hlink | hlink
    · exact hlink.symm ▸ h
    · exact hlink.symm ▸ pumpTls_keys hK h
  | _ =>
    cases hstep
    simpa [link_eq] using h

end KeyProperty

/-! ## Opening a packet -/

/-- The key of a generation, as seen from the one in use. -/
def keyOf (c : Connection) : Generation → Option Key
  | .current => c.remoteKeys .data
  | .next => c.next1rtt.map .oneRtt
  | .previous => c.prev1rttRemote.map .oneRtt

/-- The full packet number is the one the header's bytes stand for. -/
def Decodes (c : Connection) (p : Packet) : Prop :=
  decodePacketNumber ((c.space p.space).largestReceived.getD 0) (p.number % 2 ^ (8 * p.numberLen))
    (8 * p.numberLen) = p.number

/-- A peer's 1-RTT packets: `gen` is the generation it seals each number with, and the phase
bit its parity. Nobody else can seal a packet with a 1-RTT key. -/
def FromPeer (gen : Nat → Nat) (p : Packet) : Prop :=
  p.space = .data → ∀ g, p.key = .oneRtt g → g = gen p.number ∧ p.phase = decide (g % 2 = 1)

instance (gen : Nat → Nat) (p : Packet) : Decidable (FromPeer gen p) :=
  match hkey : p.key with
  | .oneRtt g =>
    decidable_of_iff (p.space = .data → g = gen p.number ∧ p.phase = decide (g % 2 = 1))
      (by simp [FromPeer, hkey])
  | .initial _ | .handshake => isTrue fun _ _ h => nomatch hkey.symm.trans h

variable {c : Connection} {g : Nat} {gen : Nat → Nat}

/-- The choice `generation_for` makes for a packet at most one generation away. -/
theorem generationFor_eq (hgen : Monotone gen) (h : c.link.On gen g) {pn : Nat}
    (hnear : gen pn = g ∨ gen pn = g + 1 ∨ gen pn + 1 = g) :
    generationFor (decide (gen pn % 2 = 1)) c.keyPhase pn c.rotateAt =
      if gen pn = g then .current else if gen pn = g + 1 then .next else .previous := by
  have hphase : c.keyPhase = decide (g % 2 = 1) := h.phase
  have hbound : (g = 0 ∧ c.rotateAt = 0) ∨ gen c.rotateAt = g := h.boundary
  rw [generationFor, hphase]
  rcases hnear with hg | hg | hg
  · rw [if_pos (by rw [hg]), if_pos hg]
  · -- a number below `rotateAt` would be of a generation at most `g`
    have hle : ¬ pn < c.rotateAt := by
      intro hlt
      rcases hbound with ⟨-, h0⟩ | hat
      · omega
      · have := hgen (Nat.le_of_lt hlt)
        omega
    rw [if_neg, if_neg hle, if_neg (by omega), if_pos hg]
    simp only [decide_eq_decide]
    omega
  · have hlt : pn < c.rotateAt := by
      rcases hbound with ⟨h0, -⟩ | hat
      · omega
      · by_contra hge
        have := hgen (Nat.not_lt.mp hge)
        omega
    rw [if_neg, if_pos hlt, if_neg (by omega), if_neg (by omega)]
    simp only [decide_eq_decide]
    omega

/-- A packet of the peer at most one generation away opens, under its generation's key. -/
theorem openPacket_of_near (hgen : Monotone gen) (h : c.link.On gen g) {p : Packet}
    (hspace : p.space = .data) (hkey : p.key = .oneRtt (gen p.number))
    (hphase : p.phase = decide (gen p.number % 2 = 1)) (hnum : c.Decodes p)
    (hnear : gen p.number = g ∨ gen p.number = g + 1 ∨ gen p.number + 1 = g) :
    ∃ generation, c.openPacket p = some (p.number, generation) ∧
      c.keyOf generation = some (.oneRtt (gen p.number)) := by
  have hremote : c.oneRttRemote = some g := h.remote
  have hcurrent : c.remoteKeys p.space = some (.oneRtt g) := by
    rw [hspace]
    simp [remoteKeys, hremote]
  have hchoice := generationFor_eq hgen h hnear
  unfold openPacket
  rw [hcurrent]
  unfold Decodes at hnum
  simp only [hnum, if_pos hspace, hphase, hchoice, hkey, and_true]
  rcases hnear with hg | hg | hg
  · refine ⟨.current, ?_, ?_⟩
    · simp [hg]
    · simp [keyOf, remoteKeys, hremote, hg]
  · have hne : ¬ gen p.number = g := by omega
    have hnext : c.next1rtt = some (g + 1) := h.next
    refine ⟨.next, ?_, ?_⟩
    · simp [hg, hnext]
    · simp [keyOf, hnext, hg]
  · have hne : ¬ gen p.number = g := by omega
    have hne' : ¬ gen p.number = g + 1 := by omega
    have hprev : c.prev1rttRemote = some (gen p.number) := h.prev _ hg.symm
    refine ⟨.previous, ?_, ?_⟩
    · simp [hne, hne', hprev]
    · simp [keyOf, hprev]

/-- A packet that opens under the next generation is the peer's, of that generation. -/
theorem openPacket_next (h : c.link.Tracks gen) {p : Packet} (hp : FromPeer gen p) {pn : Nat}
    (ho : c.openPacket p = some (pn, .next)) :
    pn = p.number ∧ ∃ g, c.link.On gen g ∧ gen p.number = g + 1 ∧
      p.phase = decide ((g + 1) % 2 = 1) := by
  unfold openPacket at ho
  split at ho
  · simp at ho
  · rename_i current hcurrent
    simp only [Option.ite_none_right_eq_some, Option.some.injEq, Prod.mk.injEq] at ho
    obtain ⟨⟨hkey, hnum⟩, hpn, hnext⟩ := ho
    have hspace : p.space = .data := by
      by_contra hne
      rw [if_neg hne] at hnext
      cases hnext
    refine ⟨hpn.symm.trans hnum, ?_⟩
    rcases h with h | ⟨g, h⟩
    · have hnone : c.oneRttRemote = none := h.remote
      rw [hspace] at hcurrent
      simp [remoteKeys, hnone] at hcurrent
    · have hnext1 : c.next1rtt = some (g + 1) := h.next
      rw [hnext] at hkey
      simp only [hnext1, Option.map_some, Option.some.injEq] at hkey
      obtain ⟨hg, hphase⟩ := hp hspace (g + 1) hkey.symm
      exact ⟨g, h, hg.symm, hphase⟩

/-! ## Runs -/

/-- The connection was on the generation below `k`, and a packet of generation `k` opened. -/
def Moved (gen : Nat → Nat) (k : Nat) (x : Delivery) : Prop :=
  x.conn.oneRttRemote = some (k - 1) ∧ x.conn.openPacket x.packet = some (x.packet.number, .next) ∧
    gen x.packet.number = k

/-- From generation `g₀` on, and for every generation since then a packet of it in `S`. -/
def Since (gen : Nat → Nat) (S : List Delivery) (g₀ : Nat) (l : Link) : Prop :=
  ∃ g, l.On gen g ∧ g₀ ≤ g ∧ ∀ k, g₀ < k → k ≤ g → ∃ x ∈ S, Moved gen k x

theorem Since.keyProperty (gen : Nat → Nat) (S : List Delivery) (g₀ : Nat) :
    KeyProperty (Since gen S g₀) where
  cids _ _ _ _ _ _ h := by
    obtain ⟨g, h, hg⟩ := h
    exact ⟨g, ⟨h.remote, h.next, h.secrets, h.prev, h.phase, h.boundary, h.once⟩, hg⟩
  drop h := by
    obtain ⟨g, h, hg⟩ := h
    exact ⟨g, h.drop, hg⟩
  start token hw h := by
    obtain ⟨g, h, -⟩ := h
    exact (h.not_started hw).elim

theorem tracks_packet {x : Delivery} (h : x.conn.link.Tracks gen) (hp : FromPeer gen x.packet) :
    x.result.2.link.Tracks gen := by
  refine handlePacket_keys (Tracks.keyProperty gen) x.now h fun pn ho => ?_
  obtain ⟨rfl, g, hon, hgen, hphase⟩ := openPacket_next h hp ho
  exact Or.inr ⟨g + 1, hon.rotate hgen hphase⟩

theorem since_packet {S : List Delivery} {g₀ : Nat} {x : Delivery} (h : Since gen S g₀ x.conn.link)
    (hp : FromPeer gen x.packet) (hx : x ∈ S) : Since gen S g₀ x.result.2.link := by
  refine handlePacket_keys (Since.keyProperty gen S g₀) x.now h fun pn ho => ?_
  obtain ⟨g, hon, hg₀, hsince⟩ := h
  obtain ⟨rfl, g', hon', hgen, hphase⟩ := openPacket_next (Or.inr ⟨g, hon⟩) hp ho
  have hgg : g' = g := Option.some.inj (hon'.remote.symm.trans hon.remote)
  subst hgg
  refine ⟨g' + 1, hon.rotate hgen hphase, by omega, fun k hk hkg => ?_⟩
  by_cases hlast : k = g' + 1
  · exact ⟨x, hx, hlast ▸ hon.remote, ho, hlast ▸ hgen⟩
  · exact hsince k hk (by omega)

theorem tracks_step {c' : Connection} {op : Op} (h : c.link.Tracks gen)
    (hp : ∀ x ∈ op.packets c, FromPeer gen x.packet) (hstep : op.step c = some c') :
    c'.link.Tracks gen ∧ ∀ x ∈ op.packets c, x.conn.link.Tracks gen := by
  have hK := Tracks.keyProperty gen
  cases op with
  | datagram now d =>
    cases hstep
    exact Op.datagram_invariant (I := fun c => c.link.Tracks gen) (around_keys hK)
      (fun h hx => tracks_packet h hx) h now d hp
  | _ => exact ⟨step_keys hK h (fun _ _ => by simp) hstep, fun _ hx => absurd hx List.not_mem_nil⟩

theorem since_step {c' : Connection} {op : Op} (h : c.link.On gen g)
    (hp : ∀ x ∈ op.packets c, FromPeer gen x.packet) (hstep : op.step c = some c') :
    Since gen (op.packets c) g c'.link := by
  have hK := Since.keyProperty gen (op.packets c) g
  have hstart : Since gen (op.packets c) g c.link :=
    ⟨g, h, Nat.le_refl g, fun k hk hkg => absurd hkg (by omega)⟩
  cases op with
  | datagram now d =>
    cases hstep
    exact (Op.datagram_invariant (I := fun c => Since gen _ g c.link)
      (P := fun x => x ∈ (Op.datagram now d).packets c) (around_keys hK)
      (fun h hx => since_packet h (hp _ hx) hx) hstart now d fun _ hx => hx).1
  | _ => exact step_keys hK hstart (fun _ _ => by simp) hstep

theorem tracks_connect (gen : Nat → Nat) {input : LocalParamsInput}
    {localCid initialDcid : ConnectionId} {tls : Tls}
    (htls : tls.writes.countP TlsWrite.givesOneRtt ≤ 1) :
    (connect input localCid initialDcid tls).link.Tracks gen :=
  Or.inl ⟨rfl, rfl, rfl, htls⟩

end Connection

open Connection

/-- Key updates, for a peer whose generation never decreases with the packet number and whose
phase bit is the generation's parity, in any run in which its packets come in any order and
rustls hands the 1-RTT keys over once. Whatever is done next: a packet that finds the
connection on generation `g` and is of `g - 1`, `g` or `g + 1` opens, under the key of its own
generation; and the generation never goes back, and every generation it moves to is that of a
packet that opened under it.

A packet opens under its own number, so the number has to be right before any key can be:
`Decodes` asks that the bytes of it in the header, taken closest to the largest number received
so far, are the number the packet was sealed with. That they are, within half the window of the
encoding, is `decodePacketNumber_near`; a packet that comes later than that is opened under no
key. -/
theorem key_generation_follows_peer {gen : Nat → Nat} (hgen : Monotone gen)
    {input : LocalParamsInput} {localCid initialDcid : ConnectionId} {tls : Tls}
    (htls : tls.writes.countP TlsWrite.givesOneRtt ≤ 1) {ops : List Op} {c c' : Connection}
    {op : Op} (hpeer : Meets Op.step (fun c op => ∀ x ∈ op.packets c, FromPeer gen x.packet)
      (connect input localCid initialDcid tls) ops)
    (hrun : run Op.step (connect input localCid initialDcid tls) ops = some c)
    (hnext : ∀ x ∈ op.packets c, FromPeer gen x.packet) (hstep : op.step c = some c') :
    (∀ x ∈ op.packets c, ∀ g, x.conn.oneRttRemote = some g → x.packet.space = .data →
      x.packet.key = .oneRtt (gen x.packet.number) → x.conn.Decodes x.packet →
      (gen x.packet.number = g ∨ gen x.packet.number = g + 1 ∨ gen x.packet.number + 1 = g) →
      ∃ generation, x.conn.openPacket x.packet = some (x.packet.number, generation) ∧
        x.conn.keyOf generation = some (.oneRtt (gen x.packet.number))) ∧
    ∀ g, c.oneRttRemote = some g → ∃ g', c'.oneRttRemote = some g' ∧ g ≤ g' ∧
      ∀ k, g < k → k ≤ g' → ∃ x ∈ op.packets c, Moved gen k x := by
  have htracks : c.link.Tracks gen :=
    Meets.invariant (P := fun c : Connection => c.link.Tracks gen)
      (fun h hp hs => (tracks_step h hp hs).1) hpeer (tracks_connect gen htls) hrun
  refine ⟨fun x hx g hg hspace hkey hnum hnear => ?_, fun g hg => ?_⟩
  · rcases (tracks_step htracks hnext hstep).2 x hx with hbefore | ⟨g', hon⟩
    · exact absurd (hg.symm.trans hbefore.remote) (by simp)
    · have hgg : g' = g := Option.some.inj (hon.remote.symm.trans hg)
      have hphase := (hnext x hx hspace _ hkey).2
      exact openPacket_of_near hgen hon hspace hkey hphase hnum (hgg ▸ hnear)
  · rcases htracks with hbefore | ⟨g', hon⟩
    · exact absurd (hg.symm.trans hbefore.remote) (by simp)
    · have hgg : g' = g := Option.some.inj (hon.remote.symm.trans hg)
      obtain ⟨g₁, hon₁, hle, hsince⟩ := since_step (hgg ▸ hon) hnext hstep
      exact ⟨g₁, hon₁.remote, hle, hsince⟩

/-- A 1-RTT packet of the server's with one PING. -/
def generationPacket (generation number : Nat) : Packet :=
  { serverPacket .data (.oneRtt generation) number putPing with
    phase := decide (generation % 2 = 1) }

/-- The server updates its keys between packets 1 and 2. Packet 3 is the first to arrive. -/
def updateOps : List Op :=
  handshakeOps ++ [ .datagram 2 ⟨[.packet (generationPacket 1 3)], none⟩ ]

def afterUpdate : Connection := (run Op.step newConnection updateOps).getD newConnection

/-- Packet 1 comes late. -/
def lateOp : Op := .datagram 3 ⟨[.packet (generationPacket 0 1)], none⟩

/-- After the update packet 1 still opens, under the generation before. -/
theorem key_generation_follows_peer_late :
    afterUpdate.oneRttRemote = some 1 ∧
    ∃ generation, afterUpdate.openPacket (generationPacket 0 1) = some (1, generation) ∧
      afterUpdate.keyOf generation = some (.oneRtt 0) := by
  have hgen : Monotone fun n => if n < 2 then 0 else 1 := by
    intro a b hab
    simp only
    split <;> split <;> omega
  have hrun : run Op.step newConnection updateOps = some afterUpdate := by decide +kernel
  have hremote : afterUpdate.oneRttRemote = some 1 := by decide +kernel
  have hmem : ⟨3, afterUpdate, generationPacket 0 1⟩ ∈ lateOp.packets afterUpdate := by
    decide +kernel
  have hstep : lateOp.step afterUpdate =
      some (afterUpdate.handleDatagram 3 ⟨[.packet (generationPacket 0 1)], none⟩).2 := rfl
  have h := key_generation_follows_peer hgen (by decide) (by decide +kernel) hrun
    (by decide +kernel) hstep
  exact ⟨hremote, h.1 _ hmem 1 hremote rfl rfl (by unfold Decodes; decide +kernel)
    (Or.inr (Or.inr rfl))⟩

/-- The server never updates its keys, and packet 200 arrives before packet 1, whose header has
one byte of its number. -/
def farOps : List Op :=
  handshakeOps ++ [ .datagram 2 ⟨[.packet (generationPacket 0 200)], none⟩ ]

def afterFar : Connection := (run Op.step newConnection farOps).getD newConnection

/-- Closest to 200 the byte stands for 257, and under that number packet 1 does not open. -/
theorem far_packet_stays_shut :
    Meets Op.step (fun c op => ∀ x ∈ op.packets c, FromPeer (fun _ => 0) x.packet) newConnection
      farOps ∧
    run Op.step newConnection farOps = some afterFar ∧ afterFar.oneRttRemote = some 0 ∧
    ⟨3, afterFar, generationPacket 0 1⟩ ∈ lateOp.packets afterFar ∧
    (generationPacket 0 1).key = .oneRtt 0 ∧ FromPeer (fun _ => 0) (generationPacket 0 1) ∧
    decodePacketNumber 200 1 8 = 257 ∧ afterFar.openPacket (generationPacket 0 1) = none := by
  decide +kernel

end Shb.Quic
