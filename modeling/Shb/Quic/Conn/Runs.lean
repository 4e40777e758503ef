import Shb.Quic.Conn.Transmit
import Shb.Quic.Conn.Timers

/-!
# Runs of a connection

`Op` is everything that is done to a connection from outside: a datagram arrives, a datagram
is built, a timer fires, the worker opens, writes, reads and retires streams. `Op.packets`
are the packets it takes in and `packetFrames` the frames of one, each with the connection as
it finds it, which is how a condition on what the peer sends is stated.

The rules here take an invariant of connections through the loops over frames, packets and
datagrams: what has to be shown is what one frame keeps, and what is done around it.
-/

namespace Shb.Quic

namespace Connection

/-- The frames of a packet that are handled, each with the connection that finds it. -/
def handledFrames (sp : Space) (now : Nat) :
    List (Except FrameError Frame) → Connection → List (Connection × Frame)
  | [], _ => []
  | .error _ :: _, _ => []
  | .ok f :: rest, c =>
    (c, f) ::
      match c.handleFrame sp f now with
      | (.ok (), c) => handledFrames sp now rest c
      | (.error _, _) => []

theorem number_of_openPacket {c : Connection} {p : Packet} {pn : Nat} {generation : Generation}
    (h : c.openPacket p = some (pn, generation)) : pn = p.number := by
  unfold openPacket at h
  split at h
  · simp at h
  · simp only [Option.ite_none_right_eq_some, Option.some.injEq, Prod.mk.injEq] at h
    exact h.2.1.symm.trans h.1.2

/-- The frames a packet brings: none unless it opens and is new. -/
def packetFrames (c : Connection) (now : Nat) (p : Packet) : List (Connection × Frame) :=
  match c.openPacket p with
  | none => []
  | some (pn, generation) =>
    match (c.space p.space).received.insert pn with
    | (false, _) => []
    | (true, received) =>
      handledFrames p.space now (frames p.payload) (c.acceptPacket p pn generation received)

theorem mem_of_handledFrames {sp : Space} {now : Nat} {x : Connection × Frame} :
    ∀ {fs : List (Except FrameError Frame)} {c : Connection}, x ∈ handledFrames sp now fs c →
      .ok x.2 ∈ fs
  | .ok f :: rest, c, h => by
    rcases List.mem_cons.mp h with rfl | h
    · exact List.mem_cons_self
    · split at h
      · exact List.mem_cons_of_mem _ (mem_of_handledFrames h)
      · exact absurd h List.not_mem_nil
  | [], _, h | .error _ :: _, _, h => absurd h List.not_mem_nil

theorem wellFormed_of_packetFrames {c : Connection} {now : Nat} {p : Packet}
    {x : Connection × Frame} (h : x ∈ c.packetFrames now p) : x.2.WellFormed := by
  unfold packetFrames at h
  split at h
  · exact absurd h List.not_mem_nil
  · split at h
    · exact absurd h List.not_mem_nil
    · exact frames_wellFormed (mem_of_handledFrames h)

/-- A packet that is handled, with the connection it finds. -/
structure Delivery where
  now : Nat
  conn : Connection
  packet : Packet
  deriving DecidableEq

def Delivery.result (x : Delivery) : Except Fault Bool × Connection :=
  x.conn.handlePacket x.now x.packet

/-- Whether it opens and has not been seen before: whether it is processed. -/
def Delivery.fresh (x : Delivery) : Bool :=
  match x.conn.openPacket x.packet with
  | none => false
  | some (pn, _) => ((x.conn.space x.packet.space).received.insert pn).1

/-- The packets of a datagram that are handled. -/
def handledPackets (now : Nat) : List Incoming → Connection → List Delivery
  | .packet p :: rest, c =>
    ⟨now, c, p⟩ ::
      match c.handlePacket now p with
      | (.ok _, c) => handledPackets now rest c
      | (.error _, _) => []
  | _, _ => []

/-! ## Invariants of the loops -/

section Rules

variable {I : Connection → Prop} {now : Nat}

/-- Every frame of a packet finds the invariant, and so does what comes after them. -/
theorem handleFrames_invariant {Q : Connection → Frame → Prop} {sp : Space}
    (hframe : ∀ {c f}, I c → Q c f → I (c.handleFrame sp f now).2) :
    ∀ (fs : List (Except FrameError Frame)) (eliciting : Bool) (c : Connection), I c →
      (∀ x ∈ handledFrames sp now fs c, Q x.1 x.2) →
      I (handleFrames sp now eliciting fs c).2 ∧ ∀ x ∈ handledFrames sp now fs c, I x.1
  | [], _, c, hi, _ | .error _ :: _, _, c, hi, _ => ⟨hi, fun _ hx => absurd hx List.not_mem_nil⟩
  | .ok f :: rest, eliciting, c, hi, hq => by
    have hnext := hframe hi (hq (c, f) List.mem_cons_self)
    simp only [handledFrames, List.mem_cons, forall_eq_or_imp] at hq ⊢
    simp only [handleFrames]
    rcases hf : c.handleFrame sp f now with ⟨_ | _, c'⟩
    · rw [hf] at hnext
      exact ⟨hnext, hi, fun _ hx => absurd hx List.not_mem_nil⟩
    · rw [hf] at hq hnext
      obtain ⟨hend, hall⟩ := handleFrames_invariant hframe rest
        (eliciting || f.ackEliciting) c' hnext hq.2
      exact ⟨hend, hi, hall⟩

/-- A packet: opened, taken in before its frames are read, its frames, and the record of it.
The frames may find more (`J`) than the packet found. -/
theorem handlePacket_invariant {J : Connection → Prop} {Q : Connection → Frame → Prop}
    {c : Connection} {p : Packet} (hJ : ∀ {c}, J c → I c)
    (hdup : ∀ received, I (c.modifySpace p.space fun s => { s with received := received }))
    (haccept : ∀ pn generation received, c.openPacket p = some (pn, generation) →
      (c.space p.space).received.insert pn = (true, received) →
      J (c.acceptPacket p pn generation received))
    (hframe : ∀ {c f}, J c → Q c f → J (c.handleFrame p.space f now).2)
    (hrecord : ∀ {d : Connection} {pn : Nat} {generation : Generation} {eliciting : Bool},
      c.openPacket p = some (pn, generation) → J d → I (d.recordPacket p.space pn eliciting now))
    (hi : I c) (hq : ∀ x ∈ c.packetFrames now p, Q x.1 x.2) :
    I (c.handlePacket now p).2 ∧ ∀ x ∈ c.packetFrames now p, J x.1 := by
  unfold packetFrames at hq ⊢
  unfold handlePacket
  cases ho : c.openPacket p with
  | none => exact ⟨hi, fun _ hx => absurd hx List.not_mem_nil⟩
  | some o =>
    obtain ⟨pn, generation⟩ := o
    rw [ho] at hq
    simp only at hq ⊢
    rcases hr : (c.space p.space).received.insert pn with ⟨_ | _, received⟩
    · exact ⟨hdup received, fun _ hx => absurd hx List.not_mem_nil⟩
    · rw [hr] at hq
      obtain ⟨hend, hall⟩ := handleFrames_invariant hframe (frames p.payload) false
        (c.acceptPacket p pn generation received) (haccept pn generation received ho hr) hq
      refine ⟨?_, hall⟩
      simp only
      split
      · rename_i heq
        rw [heq] at hend
        exact hJ hend
      · rename_i heq
        rw [heq] at hend
        exact hrecord ho hend

/-- What is done to a connection around the packets of a datagram. -/
structure Around (I : Connection → Prop) : Prop where
  versionNegotiation : ∀ {c : Connection} (dcid scid : ConnectionId) (versions : List Nat), I c →
    I (c.onVersionNegotiation dcid scid versions)
  retry : ∀ {c : Connection} (dcid scid : ConnectionId) (token : Bytes)
    (tag : Option ConnectionId), I c → I (c.onRetry dcid scid token tag)
  closeTransport : ∀ {c : Connection} (code : Nat) (why : Loss), I c → I (c.closeTransport code why)
  noteReceived : ∀ {c : Connection} (now : Nat), I c → I (c.noteReceived now)
  lose : ∀ {c : Connection} (why : Loss), I c → I (c.lose why)

theorem Around.and {J : Connection → Prop} (hi : Around I) (hj : Around J) :
    Around fun c => I c ∧ J c where
  versionNegotiation dcid scid versions h :=
    ⟨hi.versionNegotiation dcid scid versions h.1, hj.versionNegotiation dcid scid versions h.2⟩
  retry dcid scid token tag h := ⟨hi.retry dcid scid token tag h.1,
    hj.retry dcid scid token tag h.2⟩
  closeTransport code why h := ⟨hi.closeTransport code why h.1, hj.closeTransport code why h.2⟩
  noteReceived now h := ⟨hi.noteReceived now h.1, hj.noteReceived now h.2⟩
  lose why h := ⟨hi.lose why h.1, hj.lose why h.2⟩

theorem handlePackets_invariant {P : Delivery → Prop} (ha : Around I)
    (hpacket : ∀ {x : Delivery}, I x.conn → P x → I x.result.2) :
    ∀ (ps : List Incoming) (processed : Bool) (c : Connection), I c →
      (∀ x ∈ handledPackets now ps c, P x) →
      I (handlePackets now processed ps c).2 ∧ ∀ x ∈ handledPackets now ps c, I x.conn
  | [], _, c, hi, _ | .malformed :: _, _, c, hi, _ => ⟨hi, fun _ hx => absurd hx List.not_mem_nil⟩
  | .versionNegotiation dcid scid versions :: _, _, c, hi, _ =>
    ⟨ha.versionNegotiation dcid scid versions hi, fun _ hx => absurd hx List.not_mem_nil⟩
  | .retry dcid scid token tag :: _, _, c, hi, _ =>
    ⟨ha.retry dcid scid token tag hi, fun _ hx => absurd hx List.not_mem_nil⟩
  | .packet p :: rest, processed, c, hi, hp => by
    have hnext := hpacket hi (hp ⟨now, c, p⟩ List.mem_cons_self)
    simp only [Delivery.result] at hnext
    simp only [handledPackets, List.mem_cons, forall_eq_or_imp] at hp ⊢
    simp only [handlePackets]
    rcases hc : c.handlePacket now p with ⟨e | ok, c'⟩
    · rw [hc] at hnext
      refine ⟨?_, hi, fun _ hx => absurd hx List.not_mem_nil⟩
      cases e with
      | recv e => exact ha.closeTransport _ _ hnext
      | _ => exact hnext
    · rw [hc] at hp hnext
      obtain ⟨hend, hall⟩ := handlePackets_invariant ha hpacket rest (processed || ok) c' hnext hp.2
      exact ⟨hend, hi, hall⟩

/-- What a fallible call ends with: `I` of its value and the connection, or `E` of the error. -/
def Ends {α : Type} (I : α → Connection → Prop) (E : Fault → Connection → Prop) :
    Except Fault α × Connection → Prop
  | (.ok a, c) => I a c
  | (.error e, c) => E e c

theorem ends_snd {α : Type} {r : Except Fault α × Connection} :
    Ends (fun _ => I) (fun _ => I) r ↔ I r.2 := by
  obtain ⟨_ | _, c⟩ := r <;> exact Iff.rfl

section Sending

variable {J : List OutPacket → Connection → Prop} {E : Fault → Connection → Prop}

/-- What a packet of each space keeps, and the end of the Initial keys, the loop over the
spaces keeps. -/
theorem transmitLoop_ends {congested : Bool}
    (hwrite : ∀ {out : List OutPacket} {c : Connection} (sp : Space) (key : Key) (written : Nat)
      (pad : Option Nat), J out c →
      Ends (fun o => J (out ++ o.toList)) E (c.writePacket sp key now written congested pad))
    (hdiscard : ∀ {out : List OutPacket} {c : Connection}, J out c →
      J out (c.discardSpace .initial))
    (pad : Option Nat) : ∀ (sps : List Space) (out : List OutPacket) (c : Connection), J out c →
      Ends J E (transmitLoop now congested pad sps out c)
  | [], _, _, h => h
  | sp :: rest, out, c, h => by
    simp only [transmitLoop]
    split
    · exact h
    split
    · exact transmitLoop_ends hwrite hdiscard pad rest out c h
    rename_i key _
    generalize (if sp = .initial ∧ c.handshakeDone = false then some minInitialDatagram
      else pad) = pad'
    have hpacket := hwrite sp key (out.map OutPacket.size).sum pad' h
    split
    all_goals
      rename_i heq
      rw [heq] at hpacket
      simp only [Ends, Option.toList_none, Option.toList_some, List.append_nil] at hpacket
    · exact hpacket
    · exact transmitLoop_ends hwrite hdiscard pad rest out _ hpacket
    · rename_i packet d
      have hend : J (out ++ [packet]) (if sp = .handshake ∧ (d.space .initial).keys.isSome then
          d.discardSpace .initial else d) := by
        split
        · exact hdiscard hpacket
        · exact hpacket
      split
      · exact hend
      · exact transmitLoop_ends hwrite hdiscard pad rest _ _ hend

/-- A datagram is what its packets are. -/
theorem pollTransmit_ends {c : Connection} (h : J [] c) (hpump : Ends (fun _ => J []) E c.pumpTls)
    (hwrite : ∀ {out : List OutPacket} {c : Connection} (sp : Space) (key : Key) (written : Nat)
      (congested : Bool) (pad : Option Nat), J out c →
      Ends (fun o => J (out ++ o.toList)) E (c.writePacket sp key now written congested pad))
    (hdiscard : ∀ {out : List OutPacket} {c : Connection}, J out c →
      J out (c.discardSpace .initial))
    (harm : ∀ {out : List OutPacket} {c : Connection}, J out c → J out (c.armIdle now))
    (pad : Option Nat) : Ends J E (c.pollTransmit now pad) := by
  unfold pollTransmit
  split
  · exact h
  split
  all_goals rename_i heq; rw [heq] at hpump
  · exact hpump
  · simp only
    generalize (!Congestion.canSend _ _) = congested
    have hloop := transmitLoop_ends (fun sp key written pad => hwrite sp key written congested pad)
      hdiscard pad [.initial, .handshake, .data] [] _ hpump
    split
    all_goals rename_i heq'; rw [heq'] at hloop
    · exact hloop
    · simp only [Ends]
      split
      · exact harm hloop
      · exact hloop

end Sending

theorem pollTransmit_invariant {c : Connection} (h : I c) (hpump : I c.pumpTls.2)
    (hwrite : ∀ {c : Connection} (sp : Space) (key : Key) (written : Nat) (congested : Bool)
      (pad : Option Nat), I c → I (c.writePacket sp key now written congested pad).2)
    (hdiscard : ∀ {c : Connection}, I c → I (c.discardSpace .initial))
    (harm : ∀ {c : Connection}, I c → I (c.armIdle now)) (pad : Option Nat) :
    I (c.pollTransmit now pad).2 :=
  ends_snd.mp (pollTransmit_ends (J := fun _ => I) h (ends_snd.mpr hpump)
    (fun sp key written congested pad h => ends_snd.mpr (hwrite sp key written congested pad h))
    hdiscard harm pad)

end Rules

end Connection

/-! ## Operations -/

/-- What is done to a connection. A closure handed to `consume` is its verdict on the bytes. -/
inductive Op where
  | datagram (now : Nat) (d : Datagram)
  | transmit (now : Nat) (pad : Option Nat)
  | timeout (now : Nat)
  | openBi
  | openUni
  | sendOneshot (data : Bytes)
  | write (id : Nat) (data : Bytes)
  | finish (id : Nat)
  | consume (id : Nat) (f : Bytes → Except Unit Unit)
  | retire (id cancel : Nat)
  | pollEvent
  | close (code : Nat) (reason : Bytes)

namespace Op

open Connection

/-- A panic ends the run; an error is the worker's to act on, and it may still send. -/
def step (c : Connection) : Op → Option Connection
  | datagram now d => some (c.handleDatagram now d).2
  | transmit now pad =>
    match c.pollTransmit now pad with
    | (.error .panicked, _) => none
    | (_, c) => some c
  | timeout now => some (c.handleTimeout now)
  | openBi => some c.openBi.2
  | openUni => some c.openUni.2
  | sendOneshot data => some (c.sendOneshot data).2
  | write id data => some (c.write id data).2
  | finish id => some (c.finish id)
  | consume id f => some (c.consume id f).2
  | retire id cancel => some (c.retire id cancel)
  | pollEvent => some c.pollEvent.2
  | close code reason => some (c.close code reason)

/-- Building a datagram, unless it panics, leaves the connection as `poll_transmit` does. -/
theorem step_transmit {c c' : Connection} {now : Nat} {pad : Option Nat}
    (h : (transmit now pad).step c = some c') : (c.pollTransmit now pad).2 = c' := by
  simp only [step] at h
  split at h
  · cases h
  · rename_i heq
    cases h
    rw [heq]

/-- The packets an operation takes in. -/
def packets (c : Connection) : Op → List Delivery
  | datagram now d => if c.closed.isSome then [] else handledPackets now d.packets c
  | _ => []

/-- What every packet that meets `P` keeps, a datagram keeps whose packets all meet it; and
every packet of it finds the invariant. -/
theorem datagram_invariant {I : Connection → Prop} {P : Delivery → Prop} (ha : Around I)
    (hpacket : ∀ {x : Delivery}, I x.conn → P x → I x.result.2) {c : Connection} (hi : I c)
    (now : Nat) (d : Datagram) (hp : ∀ x ∈ (datagram now d).packets c, P x) :
    I (c.handleDatagram now d).2 ∧ ∀ x ∈ (datagram now d).packets c, I x.conn := by
  simp only [packets] at hp ⊢
  unfold handleDatagram
  split
  · exact ⟨hi, fun _ hx => absurd hx List.not_mem_nil⟩
  · rename_i hopen
    rw [if_neg hopen] at hp
    obtain ⟨hend, hall⟩ := handlePackets_invariant ha hpacket d.packets false c hi hp
    refine ⟨?_, hall⟩
    split
    all_goals rename_i heq; rw [heq] at hend
    · exact hend
    · exact hend
    · exact ha.noteReceived now hend
    · split
      · exact ha.lose _ hend
      · exact hend

end Op

/-! ## A handshake

The shortest way to an established connection: a ClientHello, and one Initial packet whose
handshake bytes give rustls all the keys and these transport parameters. -/

def ourCid : ConnectionId := ⟨[1, 2, 3, 4, 5, 6, 7, 8], by decide⟩
def serverCid : ConnectionId := ⟨[9, 2, 3, 4, 5, 6, 7, 8], by decide⟩

/-- The connection ids, 50 bytes on the connection, 40 on a request stream, two of those. -/
def serverParams : Bytes :=
  [0, 8] ++ serverCid.bytes ++ [15, 8] ++ serverCid.bytes ++ [4, 1, 50, 6, 1, 40, 8, 1, 2]

def newConnection : Connection :=
  Connection.connect ⟨100, 100, 3, 30000, 5000⟩ ourCid serverCid
    { writes := [{ data := [1, 2, 3] }, { data := [] }, { data := [], change := some .handshake },
        { data := [], change := some (.oneRtt (some serverParams)) }, { data := [4] },
          { data := [] }] }

def serverPacket (sp : Space) (key : Key) (number : Nat) (payload : Bytes) : Packet where
  space := sp
  scid := serverCid
  number := number
  numberLen := 1
  phase := false
  key := key
  payload := payload

def handshakeOps : List Op :=
  [ .transmit 0 none,
    .datagram 1 ⟨[.packet (serverPacket .initial (.initial serverCid) 0 (putCrypto 0 [9]))], none⟩ ]

/-- A datagram of one 1-RTT packet. -/
def oneRttDatagram (now number : Nat) (payload : Bytes) : Op :=
  .datagram now ⟨[.packet (serverPacket .data (.oneRtt 0) number payload)], none⟩

end Shb.Quic
