import Shb.Quic.FrameCodec
import Shb.Quic.Conn.Lookups
import Shb.Quic.Conn.Turns

/-!
# A payload, frame by frame

`fill_payload` is a sequence of small moves: a frame goes behind those already there and what it
answers is no longer owed, or something is done between two frames. `Move` lists them, each with
what the code has checked before it: the room left, where the frame comes from. What has to be
known of a payload (its length, what became of the obligations, which credit is in it) is then
one lemma per move, and not one per loop.

`Aside` is what most moves do not touch: the obligations, the receive halves, and the streams
and handshake bytes as far as they say what may still be written.
-/

namespace Shb.Quic

open Lib

/-! ## How long the frames are

A frame type below 64 is one byte, and a varint at most eight. -/

theorem length_putMaxData (limit : Nat) : (putMaxData limit).length ≤ 9 := by
  have h := putVarint_length_le limit
  rw [putMaxData, List.length_append, show (putVarint FrameType.maxData).length = 1 from rfl]
  omega

theorem length_putMaxStreamData (id limit : Nat) : (putMaxStreamData id limit).length ≤ 17 := by
  have hid := putVarint_length_le id
  have hlimit := putVarint_length_le limit
  rw [putMaxStreamData, List.length_append, List.length_append,
    show (putVarint FrameType.maxStreamData).length = 1 from rfl]
  omega

theorem length_putRetireConnectionId (seq : Nat) : (putRetireConnectionId seq).length ≤ 9 := by
  have h := putVarint_length_le seq
  rw [putRetireConnectionId, List.length_append,
    show (putVarint FrameType.retireConnectionId).length = 1 from rfl]
  omega

theorem length_putResetStream (id error finalSize : Nat) :
    (putResetStream id error finalSize).length ≤ 25 := by
  have hid := putVarint_length_le id
  have herror := putVarint_length_le error
  have hsize := putVarint_length_le finalSize
  rw [putResetStream, List.length_append, List.length_append, List.length_append,
    show (putVarint FrameType.resetStream).length = 1 from rfl]
  omega

theorem length_putPathResponse (data : Bytes) :
    (putPathResponse data).length = 1 + data.length := by
  rw [putPathResponse, List.length_append]
  rfl

/-- What a connection has to say of its own accord. -/
structure Desk where
  pathResponse : Option Bytes
  closePending : Option Close
  retirePending : List Nat
  resetPending : List (Nat × Nat × Nat)
  creditPending : List Nat
  maxDataOwed : Bool
  maxDataLocal : Nat
  streamWindow : Nat

namespace Connection

variable (c : Connection)

def desk : Desk where
  pathResponse := c.pathResponse
  closePending := c.closePending
  retirePending := c.retirePending
  resetPending := c.resetPending
  creditPending := c.creditPending
  maxDataOwed := c.maxDataOwed
  maxDataLocal := c.maxDataLocal
  streamWindow := c.streamWindow

/-- A send half the connection holds, among our unidirectional streams or in the ring. -/
def Sends (id : Nat) (s : SendStream) : Prop :=
  (id, s) ∈ c.localUni ∨
    ∃ i pair, c.streamIndex id = some i ∧ c.pairAt i = some pair ∧ pair.send = s

/-- A stream that was opened, by us both ways or by the peer, whether or not it is still there. -/
def Opened (id : Nat) : Prop :=
  id % 4 = 0 ∧ id / 4 < c.baseStream + c.streams.length ∨ id ∈ c.peerUni.map (·.1)

/-- What putting a stream's next frame in a packet keeps of it. -/
def KeptBySending (K : Nat → SendStream → Prop) : Prop :=
  ∀ {id : Nat} {s : SendStream} {max credit offset : Nat} {data : Bytes} {fin : Bool}, K id s →
    s.nextSend max credit = some (offset, data, fin) → K id (s.onSent offset data.length fin).2

/-- A change of one slot that leaves its receive half alone. -/
theorem recvMut_modifyPair {c : Connection} {i : Nat} {f : StreamPair → StreamPair}
    (h : ∀ p, c.pairAt i = some p → (f p).recv = p.recv) :
    (c.modifyPair i f).recvMut = c.recvMut := by
  funext id
  simp only [recvMut, streamIndex_modifyPair]
  split
  · rename_i j _
    rw [pairAt_modifyPair]
    by_cases hj : j = i
    · subst hj
      rw [if_pos rfl, Option.map_map]
      cases hp : c.pairAt j with
      | none => rfl
      | some p => exact congrArg some (h p hp)
    · rw [if_neg hj]
  · rfl

theorem opened_modifyPair (i : Nat) (f : StreamPair → StreamPair) :
    (c.modifyPair i f).Opened = c.Opened := by
  unfold Opened modifyPair
  rw [List.length_modify]

/-- From one connection to another with the same obligations. -/
structure Aside (c c' : Connection) : Prop where
  desk : c'.desk = c.desk
  recvs : c'.recvMut = c.recvMut
  opened : c'.Opened = c.Opened
  sends : ∀ {K : Nat → SendStream → Prop}, KeptBySending K → (∀ id s, c.Sends id s → K id s) →
    ∀ id s, c'.Sends id s → K id s
  spaces : ∀ sp, (c'.space sp).cryptoOut = (c.space sp).cryptoOut ∧
    (c'.space sp).sent = (c.space sp).sent

namespace Aside

variable {c c' c'' : Connection}

theorem refl (c : Connection) : Aside c c := ⟨rfl, rfl, rfl, fun _ h => h, fun _ => ⟨rfl, rfl⟩⟩

theorem trans (h : Aside c c') (h' : Aside c' c'') : Aside c c'' where
  desk := h'.desk.trans h.desk
  recvs := h'.recvs.trans h.recvs
  opened := h'.opened.trans h.opened
  sends hk hc := h'.sends hk (h.sends hk hc)
  spaces sp := ⟨(h'.spaces sp).1.trans (h.spaces sp).1, (h'.spaces sp).2.trans (h.spaces sp).2⟩

theorem of_eq (hdesk : c'.desk = c.desk) (hstreams : c'.streams = c.streams)
    (hbase : c'.baseStream = c.baseStream) (hpeer : c'.peerUni = c.peerUni)
    (hlocal : c'.localUni = c.localUni)
    (hspaces : ∀ sp, (c'.space sp).cryptoOut = (c.space sp).cryptoOut ∧
      (c'.space sp).sent = (c.space sp).sent) : Aside c c' := by
  have hindex : ∀ id, c'.streamIndex id = c.streamIndex id := by
    intro id
    simp only [streamIndex, hstreams, hbase]
  have hpair : ∀ i, c'.pairAt i = c.pairAt i := fun i => by simp only [pairAt, hstreams]
  refine ⟨hdesk, funext fun id => ?_, ?_, fun _ hc id s hs => hc id s ?_, hspaces⟩
  · simp only [recvMut, hindex, hpair, hpeer]
  · unfold Opened
    rw [hstreams, hbase, hpeer]
  · simpa only [Sends, hindex, hpair, hlocal] using hs

/-- A change of one slot that leaves its receive half alone, and its send half too or takes the
next frame from it. -/
theorem modifyPair {i : Nat} {f : StreamPair → StreamPair}
    (hrecv : ∀ p, c.pairAt i = some p → (f p).recv = p.recv)
    (hsend : ∀ p, c.pairAt i = some p → (f p).send = p.send ∨
      ∃ max credit offset data fin, p.send.nextSend max credit = some (offset, data, fin) ∧
        (f p).send = (p.send.onSent offset data.length fin).2) : Aside c (c.modifyPair i f) := by
  refine ⟨rfl, recvMut_modifyPair hrecv, opened_modifyPair c i f, fun hk hc id s hs => ?_,
    fun _ => ⟨rfl, rfl⟩⟩
  rcases hs with hs | ⟨j, pair, hindex, hpair, rfl⟩
  · exact hc id s (Or.inl hs)
  · rw [streamIndex_modifyPair] at hindex
    rw [pairAt_modifyPair] at hpair
    split at hpair
    · rename_i hj
      subst hj
      obtain ⟨p, hp, rfl⟩ := Option.map_eq_some_iff.mp hpair
      have hkp := hc id p.send (Or.inr ⟨j, p, hindex, hp, rfl⟩)
      rcases hsend p hp with heq | ⟨max, credit, offset, data, fin, hnext, heq⟩
      · rw [heq]
        exact hkp
      · rw [heq]
        exact hk hkp hnext
    · exact hc id _ (Or.inr ⟨j, pair, hindex, hpair, rfl⟩)

theorem queueSend (c : Connection) (id : Nat) : Aside c (c.queueSend id) := by
  unfold Connection.queueSend
  split
  · exact refl c
  · rename_i i _
    split
    · exact refl c
    · split
      · exact refl c
      · have hflag : Aside c (c.modifyPair i fun pair => { pair with queued := true }) :=
          modifyPair (fun _ _ => rfl) fun _ _ => Or.inl rfl
        exact hflag.trans (of_eq rfl rfl rfl rfl rfl fun _ => ⟨rfl, rfl⟩)

end Aside

end Connection

namespace Filling

open Connection

/-- The frames whose contents are streams, handshake bytes or nothing, as they are written. -/
inductive Carries (c : Connection) (sp : Space) (room : Nat) : Written → SentFrame → Prop
  | crypto {offset : Nat} {data : Bytes} (hoffset : offset < (c.space sp).cryptoOut.length)
      (hroom : data.length + 8 ≤ room) :
      Carries c sp room (.crypto offset data) (.crypto offset data.length)
  | stream {id offset : Nat} {data : Bytes} {fin : Bool} {s : SendStream} {max credit : Nat}
      (hs : c.Sends id s) (hnext : s.nextSend max credit = some (offset, data, fin))
      (hmax : max + 16 ≤ room) :
      Carries c sp room (.stream id offset fin data) (.stream id offset data.length fin)
  | ping (hroom : 1 < room) : Carries c sp room .ping .ping

/-- One move of `fill_payload` behind the ACK, and the frame it writes. -/
inductive Move (sp : Space) (budget : Nat) (b : Filling) : List Written → Filling → Prop
  /-- Between two frames. -/
  | between {c : Connection} (h : Aside b.conn c) : Move sp budget b [] { b with conn := c }
  | write {c : Connection} {w : Written} {f : SentFrame} (h : Aside b.conn c)
      (hw : Carries b.conn sp (b.room budget) w f) :
      Move sp budget b [w] ({ b with conn := c }.put w.put f)
  | respond {data : Bytes} (hsp : sp = .data) (h : b.conn.pathResponse = some data)
      (hroom : 9 < b.room budget) :
      Move sp budget b [.pathResponse data]
        { b with
          conn := { b.conn with pathResponse := none }
          out := b.out ++ putPathResponse data
          ackEliciting := true }
  /-- A PATH_RESPONSE there is no room for. -/
  | forget {data : Bytes} (hsp : sp = .data) (h : b.conn.pathResponse = some data)
      (hroom : b.room budget ≤ 9) :
      Move sp budget b [] { b with conn := { b.conn with pathResponse := none } }
  | owe : Move sp budget b [] { b with conn := { b.conn with maxDataOwed := true } }
  | extend {limit : Nat} (hsp : sp = .data) (howed : b.conn.maxDataOwed = true)
      (hroom : 16 < b.room budget) (hle : b.conn.maxDataLocal ≤ limit) :
      Move sp budget b [.maxData limit]
        ({ b with conn := { b.conn with maxDataLocal := limit, maxDataOwed := false } }.put
          (putMaxData limit) (.maxData limit))
  /-- A stream that is owed nothing any more. -/
  | pass {id : Nat} {pending : List Nat} (h : b.conn.creditPending = pending ++ [id])
      (hgone : ∀ r, b.conn.recvMut id = some r → r.sizeKnown = true) :
      Move sp budget b [] { b with conn := { b.conn with creditPending := pending } }
  | credit {id : Nat} {pending : List Nat} {r : RecvStream} (hsp : sp = .data)
      (h : b.conn.creditPending = pending ++ [id]) (hr : b.conn.recvMut id = some r)
      (hopen : r.sizeKnown = false) (hroom : 24 ≤ b.room budget) :
      Move sp budget b [.maxStreamData id (r.grant b.conn.streamWindow).1]
        ({ b with
            conn := { b.conn with creditPending := pending }.modifyRecv id fun _ =>
              (r.grant b.conn.streamWindow).2 }.put
          (putMaxStreamData id (r.grant b.conn.streamWindow).1)
          (.maxStreamData id (r.grant b.conn.streamWindow).1))
  | retire {seq : Nat} {pending : List Nat} (h : b.conn.retirePending = pending ++ [seq])
      (hroom : 16 ≤ b.room budget) :
      Move sp budget b [.retireConnectionId seq]
        ({ b with conn := { b.conn with retirePending := pending } }.put
          (putRetireConnectionId seq) (.retireConnectionId seq))
  | reset {id error finalSize : Nat} {pending : List (Nat × Nat × Nat)}
      (h : b.conn.resetPending = pending ++ [(id, error, finalSize)])
      (hroom : 32 ≤ b.room budget) :
      Move sp budget b [.resetStream id error finalSize]
        ({ b with conn := { b.conn with resetPending := pending } }.put
          (putResetStream id error finalSize) (.resetStream id error finalSize))

/-- Moves one after another, and the frames they write. -/
inductive Moved (sp : Space) (budget : Nat) (b : Filling) : List Written → Filling → Prop
  | refl : Moved sp budget b [] b
  | snoc {ws ws' : List Written} {b₁ b₂ : Filling} (h : Moved sp budget b ws b₁)
      (hm : Move sp budget b₁ ws' b₂) : Moved sp budget b (ws ++ ws') b₂

namespace Moved

variable {sp : Space} {budget : Nat} {b b₁ b₂ : Filling} {ws ws' : List Written}

theorem trans (h : Moved sp budget b ws b₁) (h' : Moved sp budget b₁ ws' b₂) :
    Moved sp budget b (ws ++ ws') b₂ := by
  induction h' with
  | refl =>
    rw [List.append_nil]
    exact h
  | snoc _ hm ih =>
    rw [← List.append_assoc]
    exact ih.snoc hm

theorem of_move (h : Move sp budget b ws b₁) : Moved sp budget b ws b₁ := Moved.refl.snoc h

theorem invariant {P : List Written → Filling → Prop}
    (hstep : ∀ {ws ws' b b'}, P ws b → Move sp budget b ws' b' → P (ws ++ ws') b')
    (h0 : P [] b) (h : Moved sp budget b ws b₁) : P ws b₁ := by
  induction h with
  | refl => exact h0
  | snoc _ hm ih => exact hstep ih hm

theorem out_eq (h : Moved sp budget b ws b₁) : b₁.out = b.out ++ ws.flatMap Written.put := by
  induction h with
  | refl => exact (List.append_nil _).symm
  | snoc _ hm ih =>
    rw [List.flatMap_append, ← List.append_assoc, ← ih]
    cases hm with
    | between _ | forget _ _ _ | owe | pass _ _ => exact (List.append_nil _).symm
    | _ =>
      rw [List.flatMap_singleton]
      rfl

end Moved

/-- Some moves lead from one filling to the other. -/
def Fill (sp : Space) (budget : Nat) (b b' : Filling) : Prop := ∃ ws, Moved sp budget b ws b'

namespace Fill

variable {sp : Space} {budget : Nat} {b b₁ b₂ : Filling}

theorem refl (b : Filling) : Fill sp budget b b := ⟨[], .refl⟩

theorem trans (h : Fill sp budget b b₁) (h' : Fill sp budget b₁ b₂) : Fill sp budget b b₂ := by
  obtain ⟨ws, h⟩ := h
  obtain ⟨ws', h'⟩ := h'
  exact ⟨ws ++ ws', h.trans h'⟩

theorem of_move {ws : List Written} (h : Move sp budget b ws b₁) : Fill sp budget b b₁ :=
  ⟨ws, .of_move h⟩

theorem after {c : Connection} (h : Fill sp budget { b with conn := c } b₁) (hc : Aside b.conn c) :
    Fill sp budget b b₁ :=
  (of_move (.between hc)).trans h

end Fill

/-! ## The stages -/

theorem crypto_move {sp : Space} {budget : Nat} (b : Filling)
    (hsent : (b.conn.space sp).cryptoSent < (b.conn.space sp).cryptoOut.length)
    (hroom : 8 ≤ b.room budget) :
    let s := b.conn.space sp
    let len := min (s.cryptoOut.length - s.cryptoSent) (b.room budget - 8)
    let data := (s.cryptoOut.drop s.cryptoSent).take len
    let b' := b.put (putCrypto s.cryptoSent data) (.crypto s.cryptoSent len)
    Fill sp budget b { b' with
      conn := b'.conn.modifySpace sp fun s => { s with cryptoSent := s.cryptoSent + len } } := by
  intro s len data b'
  have hdata : data.length = len := by
    rw [List.length_take, List.length_drop]
    exact Nat.min_eq_left (Nat.min_le_left _ _)
  have hcarries : Carries b.conn sp (b.room budget) (.crypto s.cryptoSent data)
      (.crypto s.cryptoSent len) := by
    rw [← hdata]
    refine .crypto hsent ?_
    omega
  have haside : Aside b.conn
      (b.conn.modifySpace sp fun s => { s with cryptoSent := s.cryptoSent + len }) := by
    refine .of_eq rfl rfl rfl rfl rfl fun sp' => ?_
    rw [space_modifySpace]
    split
    · rename_i h
      rw [h]
      exact ⟨rfl, rfl⟩
    · exact ⟨rfl, rfl⟩
  exact Fill.of_move (.write haside hcarries)

/-- A PING that rides on what is there, or goes out itself. -/
theorem ping_fill {sp : Space} {budget : Nat} {b : Filling} {c : Connection} (hc : Aside b.conn c)
    (hroom : 1 < b.room budget) : Fill sp budget b { b with conn := c }.ping := by
  unfold ping
  split
  · exact Fill.of_move (.between hc)
  · exact Fill.of_move (.write hc (.ping hroom))

theorem streamTurn_fill (sp : Space) {b : Filling} {id i : Nat} {pair : StreamPair} (budget : Nat)
    (hi : b.conn.streamIndex id = some i) (hp : b.conn.pairAt i = some pair)
    (hroom : 16 ≤ b.room budget) : Fill sp budget b (b.streamTurn budget id i pair) := by
  unfold streamTurn
  have hflags : Aside b.conn (b.conn.modifyPair i fun pair => { pair with queued := false }) :=
    .modifyPair (fun _ _ => rfl) fun _ _ => Or.inl rfl
  have hi' := (streamIndex_modifyPair b.conn i id fun pair =>
    { pair with queued := false }).trans hi
  have hp' := pairAt_modifyPair b.conn i i fun pair => { pair with queued := false }
  rw [if_pos rfl, hp, Option.map_some] at hp'
  generalize (b.conn.modifyPair i fun pair => { pair with queued := false }) = c at hflags hi' hp'
  refine Fill.after ?_ hflags
  -- the frame first, then the way back into the queue
  have hqueue : ∀ b' : Filling, ∀ pending : Bool,
      Fill sp budget b' (if pending then { b' with conn := b'.conn.queueSend id } else b') := by
    intro b' pending
    split
    · exact Fill.of_move (.between (.queueSend b'.conn id))
    · exact Fill.refl b'
  refine Fill.trans ?_ (hqueue _ _)
  split
  · exact Fill.refl _
  · rename_i offset data fin hnext
    have hslot : Aside c (c.modifyPair i fun pair' =>
        { pair' with send := (pair.send.onSent offset data.length fin).2 }) := by
      refine .modifyPair (fun _ _ => rfl) fun p hpair => Or.inr ?_
      cases hp'.symm.trans hpair
      exact ⟨_, _, offset, data, fin, hnext, rfl⟩
    have haside : Aside c { c.modifyPair i fun pair' =>
        { pair' with send := (pair.send.onSent offset data.length fin).2 } with
          dataSent := c.dataSent + (pair.send.onSent offset data.length fin).1 } :=
      hslot.trans (.of_eq rfl rfl rfl rfl rfl fun _ => ⟨rfl, rfl⟩)
    exact Fill.of_move (.write (b := { b with conn := c }) haside
      (.stream (Or.inr ⟨i, _, hi', hp', rfl⟩) hnext (Nat.le_of_eq (Nat.sub_add_cancel hroom))))

theorem turn_fill {sp : Space} {budget : Nat} {b b' : Filling} (h : b.Turn sp budget b') :
    Fill sp budget b b' := by
  cases h with
  | answered _ _ hroom => exact ping_fill (.of_eq rfl rfl rfl rfl rfl fun _ => ⟨rfl, rfl⟩) hroom
  | respond hsp h hroom => exact Fill.of_move (.respond hsp h hroom)
  | forget hsp h hroom => exact Fill.of_move (.forget hsp h hroom)
  | crypto hsent hroom hlen =>
    subst hlen
    exact crypto_move b hsent hroom
  | owe _ => exact Fill.of_move .owe
  | extend hsp howed hroom hle => exact Fill.of_move (.extend hsp howed hroom hle)
  | pass _ h hgone => exact Fill.of_move (.pass h hgone)
  | credit hsp h hr hopen hroom => exact Fill.of_move (.credit hsp h hr hopen hroom)
  | retire _ h hroom => exact Fill.of_move (.retire h hroom)
  | reset _ h hroom => exact Fill.of_move (.reset h hroom)
  | @uni i id offset send data fin _ hi hnext hroom =>
    have hin : (id, send) ∈ b.conn.localUni := List.mem_of_getElem? hi
    have haside : Aside b.conn { b.conn with
        localUni := b.conn.localUni.set i (id, (send.onSent offset data.length fin).2)
        dataSent := b.conn.dataSent + (send.onSent offset data.length fin).1 } := by
      refine ⟨rfl, rfl, rfl, fun hk hc id' s' hs => ?_, fun _ => ⟨rfl, rfl⟩⟩
      rcases hs with hs | hs
      · rcases List.mem_or_eq_of_mem_set hs with hold | hnew
        · exact hc id' s' (Or.inl hold)
        · cases hnew
          exact hk (hc id send (Or.inl hin)) hnext
      · exact hc id' s' (Or.inr hs)
    exact Fill.of_move (.write haside (.stream (Or.inl hin) hnext
      (Nat.le_of_eq (Nat.sub_add_cancel hroom))))
  | skip _ _ _ =>
    exact Fill.of_move (.between (.of_eq rfl rfl rfl rfl rfl fun _ => ⟨rfl, rfl⟩))
  | @stream id i queue pair _ _ hi hp hroom =>
    exact Fill.after (c := { b.conn with sendQueue := queue })
      (streamTurn_fill sp (b := { b with conn := { b.conn with sendQueue := queue } }) budget hi hp
        hroom) (.of_eq rfl rfl rfl rfl rfl fun _ => ⟨rfl, rfl⟩)

theorem composes_fill (sp : Space) (budget : Nat) : Composes (Fill sp budget) :=
  ⟨Fill.refl, Fill.trans⟩

theorem pathResponse_fill (b : Filling) (sp : Space) (budget : Nat) :
    Fill sp budget b (b.pathResponse sp budget) :=
  pathResponse_turns (composes_fill sp budget) turn_fill b

theorem fillRest_fill (b : Filling) (sp : Space) (budget : Nat) (congested : Bool) :
    Fill sp budget b (b.fillRest sp budget congested) :=
  fillRest_turns (composes_fill sp budget) turn_fill b congested

end Filling

/-! ## The whole payload -/

namespace Connection

/-- The ACK a payload begins with, if one is owed and there is room. -/
def ackWritten (c : Connection) (sp : Space) (now budget : Nat) : List Written :=
  if (c.space sp).ack.ackElicitingPending ∧ 32 < budget then
    [.ack (c.space sp).ack.ranges ((c.space sp).ack.delay now ackDelayExponent)]
  else []

theorem ack_start {c : Connection} {sp : Space} {now budget : Nat} {largest : Option Nat}
    {b : Filling}
    (h : Filling.ack { conn := c, out := [], frames := [], ackEliciting := false } sp now
      budget = (.ok largest, b)) :
    b.out = (c.ackWritten sp now budget).flatMap Written.put ∧ b.frames = [] ∧
      (b.conn = c ∨ b.conn = c.modifySpace sp fun s => { s with ack := s.ack.takePending }) := by
  unfold Filling.ack at h
  unfold ackWritten
  dsimp only at h
  split at h
  · rename_i hdue
    have hdue : (c.space sp).ack.ackElicitingPending = true ∧ 32 < budget := hdue
    rw [if_pos hdue, List.flatMap_singleton, Written.put]
    split at h
    · cases h
    · rename_i bytes hput
      cases h
      rw [hput]
      exact ⟨rfl, rfl, Or.inr rfl⟩
  · rename_i hdue
    have hdue : ¬ ((c.space sp).ack.ackElicitingPending = true ∧ 32 < budget) := hdue
    rw [if_neg hdue]
    cases h
    exact ⟨rfl, rfl, Or.inl rfl⟩

/-- Taking an ACK is aside, and says nothing new of the keys. -/
theorem aside_takePending (c : Connection) (sp : Space) :
    Aside c (c.modifySpace sp fun s => { s with ack := s.ack.takePending }) ∧
      (c.modifySpace sp fun s => { s with ack := s.ack.takePending }).highestSpace =
        c.highestSpace := by
  have hspace : ∀ sp', ((c.modifySpace sp fun s => { s with ack := s.ack.takePending }).space
      sp').cryptoOut = (c.space sp').cryptoOut ∧
      ((c.modifySpace sp fun s => { s with ack := s.ack.takePending }).space sp').sent =
        (c.space sp').sent ∧
      ((c.modifySpace sp fun s => { s with ack := s.ack.takePending }).space sp').keys =
        (c.space sp').keys := by
    intro sp'
    rw [space_modifySpace]
    split
    · rename_i h
      rw [h]
      exact ⟨rfl, rfl, rfl⟩
    · exact ⟨rfl, rfl, rfl⟩
  refine ⟨.of_eq rfl rfl rfl rfl rfl fun sp' => ⟨(hspace sp').1, (hspace sp').2.1⟩, ?_⟩
  unfold highestSpace
  rw [(hspace .handshake).2.2]
  rfl

/-- What `fill_payload` makes of a connection: an ACK, the PATH_RESPONSE, and then a close and
nothing more, or everything else. -/
theorem fillPayload_parts {c c' : Connection} {sp : Space} {now budget : Nat} {congested : Bool}
    {filled : Filled} (h : c.fillPayload sp now budget congested = (.ok filled, c')) :
    ∃ b : Filling, b.out = (c.ackWritten sp now budget).flatMap Written.put ∧ b.frames = [] ∧
      Aside c b.conn ∧
      ((∃ close, sp = c.highestSpace ∧ c.closePending = some close ∧
          filled.out = (b.pathResponse sp budget).out ++ Filling.closeBytes sp close ∧
          filled.frames = (b.pathResponse sp budget).frames ∧
          c' = { (b.pathResponse sp budget).conn with closePending := none }) ∨
        ((sp = c.highestSpace → c.closePending = none) ∧
          filled.out = ((b.pathResponse sp budget).fillRest sp budget congested).out ∧
          filled.frames = ((b.pathResponse sp budget).fillRest sp budget congested).frames ∧
          c' = ((b.pathResponse sp budget).fillRest sp budget congested).conn)) := by
  unfold fillPayload at h
  split at h
  · cases h
  · rename_i largest b hack
    obtain ⟨hout, hframes, hconn⟩ := ack_start hack
    obtain ⟨haside, hhigh⟩ : Aside c b.conn ∧ b.conn.highestSpace = c.highestSpace := by
      rcases hconn with heq | heq
      · rw [heq]
        exact ⟨Aside.refl c, rfl⟩
      · rw [heq]
        exact aside_takePending c sp
    -- the PATH_RESPONSE changes neither the keys nor the close
    have hpath : (b.pathResponse sp budget).conn.highestSpace = b.conn.highestSpace ∧
        (b.pathResponse sp budget).conn.closePending = b.conn.closePending := by
      unfold Filling.pathResponse
      split
      · dsimp only
        split <;> exact ⟨rfl, rfl⟩
      · exact ⟨rfl, rfl⟩
    have hclose : (b.pathResponse sp budget).conn.closePending = c.closePending :=
      hpath.2.trans (congrArg Desk.closePending haside.desk)
    refine ⟨b, hout, hframes, haside, ?_⟩
    dsimp only at h
    split at h
    · rename_i close hsp hpending
      cases h
      refine Or.inl ⟨close, ?_, hclose.symm.trans hpending, rfl, rfl, rfl⟩
      exact (of_decide_eq_true hsp).trans (hpath.1.trans hhigh)
    · rename_i hnot
      cases h
      refine Or.inr ⟨fun hsp => ?_, rfl, rfl, rfl⟩
      cases hp : c.closePending with
      | none => rfl
      | some close =>
        refine absurd (hclose.trans hp) (hnot close ?_)
        exact decide_eq_true (hsp.trans (hpath.1.trans hhigh).symm)

end Connection

end Shb.Quic
