import Shb.Lib.Run
import Shb.Quic.Conn.Transmit

/-!
# A payload, turn by turn

Every stage of `fill_payload` behind the ACK is made of turns: something is taken from where it
waits and a frame goes behind those already there, or something is done between two frames.
`Turn` lists them, each with what the code has checked before it. The loops are walked here,
once; what a payload does to any part of the connection is then one lemma about a turn.
-/

namespace Shb.Quic

open Lib

namespace Filling

/-- One turn of a stage of `fill_payload`. -/
inductive Turn (sp : Space) (budget : Nat) (b : Filling) : Filling → Prop
  /-- A probe or a keepalive is answered, by a PING or by what is there. -/
  | answered (probes : Nat) (pending : Bool) (hroom : 1 < b.room budget) :
      Turn sp budget b
        { b with conn := { b.conn with ptoProbes := probes, keepalivePending := pending } }.ping
  | respond {data : Bytes} (hsp : sp = .data) (h : b.conn.pathResponse = some data)
      (hroom : 9 < b.room budget) :
      Turn sp budget b
        { b with
          conn := { b.conn with pathResponse := none }
          out := b.out ++ putPathResponse data
          ackEliciting := true }
  /-- A PATH_RESPONSE there is no room for. -/
  | forget {data : Bytes} (hsp : sp = .data) (h : b.conn.pathResponse = some data)
      (hroom : b.room budget ≤ 9) :
      Turn sp budget b { b with conn := { b.conn with pathResponse := none } }
  | crypto {len : Nat} (hsent : (b.conn.space sp).cryptoSent < (b.conn.space sp).cryptoOut.length)
      (hroom : 8 ≤ b.room budget)
      (hlen : len = min ((b.conn.space sp).cryptoOut.length - (b.conn.space sp).cryptoSent)
        (b.room budget - 8)) :
      Turn sp budget b
        ({ b with conn := b.conn.modifySpace sp fun s =>
            { s with cryptoSent := s.cryptoSent + len } }.put
          (putCrypto (b.conn.space sp).cryptoSent
            (((b.conn.space sp).cryptoOut.drop (b.conn.space sp).cryptoSent).take len))
          (.crypto (b.conn.space sp).cryptoSent len))
  | owe (hsp : sp = .data) : Turn sp budget b { b with conn := { b.conn with maxDataOwed := true } }
  | extend {limit : Nat} (hsp : sp = .data) (howed : b.conn.maxDataOwed = true)
      (hroom : 16 < b.room budget) (hle : b.conn.maxDataLocal ≤ limit) :
      Turn sp budget b
        ({ b with conn := { b.conn with maxDataLocal := limit, maxDataOwed := false } }.put
          (putMaxData limit) (.maxData limit))
  /-- A stream that is owed nothing any more. -/
  | pass {id : Nat} {pending : List Nat} (hsp : sp = .data)
      (h : b.conn.creditPending = pending ++ [id])
      (hgone : ∀ r, b.conn.recvMut id = some r → r.sizeKnown = true) :
      Turn sp budget b { b with conn := { b.conn with creditPending := pending } }
  | credit {id : Nat} {pending : List Nat} {r : RecvStream} (hsp : sp = .data)
      (h : b.conn.creditPending = pending ++ [id]) (hr : b.conn.recvMut id = some r)
      (hopen : r.sizeKnown = false) (hroom : 24 ≤ b.room budget) :
      Turn sp budget b
        ({ b with
            conn := { b.conn with creditPending := pending }.modifyRecv id fun _ =>
              (r.grant b.conn.streamWindow).2 }.put
          (putMaxStreamData id (r.grant b.conn.streamWindow).1)
          (.maxStreamData id (r.grant b.conn.streamWindow).1))
  | retire {seq : Nat} {pending : List Nat} (hsp : sp = .data)
      (h : b.conn.retirePending = pending ++ [seq]) (hroom : 16 ≤ b.room budget) :
      Turn sp budget b
        ({ b with conn := { b.conn with retirePending := pending } }.put
          (putRetireConnectionId seq) (.retireConnectionId seq))
  | reset {id error finalSize : Nat} {pending : List (Nat × Nat × Nat)} (hsp : sp = .data)
      (h : b.conn.resetPending = pending ++ [(id, error, finalSize)])
      (hroom : 32 ≤ b.room budget) :
      Turn sp budget b
        ({ b with conn := { b.conn with resetPending := pending } }.put
          (putResetStream id error finalSize) (.resetStream id error finalSize))
  | uni {i id offset : Nat} {send : SendStream} {data : Bytes} {fin : Bool} (hsp : sp = .data)
      (hi : b.conn.localUni[i]? = some (id, send))
      (hnext : send.nextSend (b.room budget - 16) b.sendCredit = some (offset, data, fin))
      (hroom : 16 ≤ b.room budget) :
      Turn sp budget b
        ({ b with conn := { b.conn with
            localUni := b.conn.localUni.set i (id, (send.onSent offset data.length fin).2)
            dataSent := b.conn.dataSent + (send.onSent offset data.length fin).1 } }.put
          (putStream id offset fin data) (.stream id offset data.length fin))
  /-- A queued stream that is gone. -/
  | skip {id : Nat} {queue : List Nat} (hsp : sp = .data) (hqueue : b.conn.sendQueue = id :: queue)
      (hgone : b.conn.streamIndex id = none ∨
        ∃ i, b.conn.streamIndex id = some i ∧ b.conn.pairAt i = none) :
      Turn sp budget b { b with conn := { b.conn with sendQueue := queue } }
  | stream {id i : Nat} {queue : List Nat} {pair : StreamPair} (hsp : sp = .data)
      (hqueue : b.conn.sendQueue = id :: queue) (hi : b.conn.streamIndex id = some i)
      (hp : b.conn.pairAt i = some pair) (hroom : 16 ≤ b.room budget) :
      Turn sp budget b
        (streamTurn { b with conn := { b.conn with sendQueue := queue } } budget id i pair)

/-! ## The stages -/

section Stages

variable {R : Filling → Filling → Prop} {sp : Space} {budget : Nat}

theorem pathResponse_turns (hR : Composes R) (hturn : ∀ {b b'}, Turn sp budget b b' → R b b')
    (b : Filling) : R b (b.pathResponse sp budget) := by
  unfold pathResponse
  split
  · rename_i data h
    split
    · rename_i hroom
      exact hturn (.respond rfl h hroom)
    · rename_i hroom
      exact hturn (.forget rfl h (Nat.not_lt.mp hroom))
  · exact hR.refl b

theorem crypto_turns (hR : Composes R) (hturn : ∀ {b b'}, Turn sp budget b b' → R b b') :
    ∀ (fuel : Nat) (b : Filling), R b (crypto sp budget fuel b)
  | 0, b => hR.refl b
  | fuel + 1, b => by
    simp only [crypto]
    split
    · exact hR.refl b
    · rename_i hgo
      rw [not_or, Nat.not_lt, Nat.not_le] at hgo
      split
      · exact hR.refl b
      · exact hR.trans (hturn (.crypto hgo.2 hgo.1 rfl)) (crypto_turns hR hturn fuel _)

theorem probe_turns (hR : Composes R) (hturn : ∀ {b b'}, Turn sp budget b b' → R b b')
    (b : Filling) : R b (b.probe sp budget) := by
  unfold probe
  split
  · rename_i h
    exact hturn (.answered _ b.conn.keepalivePending h.2.2)
  · exact hR.refl b

theorem keepalive_turns (hR : Composes R) (hturn : ∀ {b b'}, Turn sp budget b b' → R b b')
    (b : Filling) : R b (b.keepalive sp budget) := by
  unfold keepalive
  split
  · rename_i h
    exact hturn (.answered b.conn.ptoProbes _ h.2.2)
  · exact hR.refl b

theorem maxData_turns (hR : Composes R) (hturn : ∀ {b b'}, Turn .data budget b b' → R b b')
    (b : Filling) : R b (b.maxData budget) := by
  unfold maxData
  by_cases hext : b.conn.maxDataLocal ≤ b.conn.dataReceived + b.conn.maxDataWindow / 2
  · -- the window is due: first it is owed, then it is granted if there is room
    have hle : b.conn.maxDataLocal ≤ b.conn.dataReceived + b.conn.maxDataWindow :=
      Nat.le_trans hext (Nat.add_le_add_left (Nat.div_le_self _ _) _)
    simp only [hext, if_true]
    refine hR.trans (hturn (.owe rfl)) ?_
    split
    · rename_i hroom
      exact hturn (.extend rfl rfl hroom.2 hle)
    · exact hR.refl _
  · simp only [hext, if_false]
    split
    · rename_i h
      exact hturn (.extend rfl h.1 h.2 (Nat.le_refl _))
    · exact hR.refl b

theorem credit_turns (hR : Composes R) (hturn : ∀ {b b'}, Turn .data budget b b' → R b b') :
    ∀ (fuel : Nat) (b : Filling), R b (credit budget fuel b)
  | 0, b => hR.refl b
  | fuel + 1, b => by
    simp only [credit]
    split
    · exact hR.refl b
    · rename_i id hlast
      have hpending := List.dropLast_append_getLast? id hlast
      split
      · exact hR.refl b
      · rename_i hroom
        split
        · rename_i hnone
          refine hR.trans (hturn (.pass rfl hpending.symm fun r hr => ?_))
            (credit_turns hR hturn fuel _)
          have hclosed : (b.conn.recvMut id).filter (fun r => !r.sizeKnown) = none := hnone
          rw [hr, Option.filter_some] at hclosed
          simpa using hclosed
        · rename_i r hr
          obtain ⟨hr, hopen⟩ := Option.filter_eq_some_iff.mp hr
          exact hR.trans (hturn (.credit rfl hpending.symm hr (by simpa using hopen)
            (Nat.not_lt.mp hroom))) (credit_turns hR hturn fuel _)

theorem retires_turns (hR : Composes R) (hturn : ∀ {b b'}, Turn .data budget b b' → R b b') :
    ∀ (fuel : Nat) (b : Filling), R b (retires budget fuel b)
  | 0, b => hR.refl b
  | fuel + 1, b => by
    simp only [retires]
    split
    · exact hR.refl b
    · rename_i seq hlast
      split
      · exact hR.refl b
      · rename_i hroom
        exact hR.trans (hturn (.retire rfl (List.dropLast_append_getLast? seq hlast).symm
          (Nat.not_lt.mp hroom))) (retires_turns hR hturn fuel _)

theorem resets_turns (hR : Composes R) (hturn : ∀ {b b'}, Turn .data budget b b' → R b b') :
    ∀ (fuel : Nat) (b : Filling), R b (resets budget fuel b)
  | 0, b => hR.refl b
  | fuel + 1, b => by
    simp only [resets]
    split
    · exact hR.refl b
    · rename_i id error finalSize hlast
      split
      · exact hR.refl b
      · rename_i hroom
        exact hR.trans (hturn (.reset rfl (List.dropLast_append_getLast? _ hlast).symm
          (Nat.not_lt.mp hroom))) (resets_turns hR hturn fuel _)

theorem unis_turns (hR : Composes R) (hturn : ∀ {b b'}, Turn .data budget b b' → R b b') :
    ∀ (n i : Nat) (b : Filling), R b (unis budget n i b)
  | 0, _, b => hR.refl b
  | n + 1, i, b => by
    simp only [unis]
    split
    · exact hR.refl b
    · rename_i hroom
      refine hR.trans ?_ (unis_turns hR hturn n (i + 1) _)
      unfold uniTurn
      split
      · exact hR.refl b
      · rename_i hi
        split
        · exact hR.refl b
        · rename_i hnext
          exact hturn (.uni rfl hi hnext (Nat.not_lt.mp hroom))

theorem streams_turns (hR : Composes R) (hturn : ∀ {b b'}, Turn .data budget b b' → R b b') :
    ∀ (turns : Nat) (b : Filling), R b (streams budget turns b)
  | 0, b => hR.refl b
  | turns + 1, b => by
    simp only [streams]
    split
    · exact hR.refl b
    · rename_i hroom
      split
      · exact hR.refl b
      · rename_i hqueue
        split
        · rename_i hi
          exact hR.trans (hturn (.skip rfl hqueue (.inl hi))) (streams_turns hR hturn turns _)
        · rename_i i hi
          split
          · rename_i hp
            exact hR.trans (hturn (.skip rfl hqueue (.inr ⟨i, hi, hp⟩)))
              (streams_turns hR hturn turns _)
          · rename_i hp
            exact hR.trans (hturn (.stream rfl hqueue hi hp (Nat.not_lt.mp hroom)))
              (streams_turns hR hturn turns _)

theorem fillData_turns (hR : Composes R) (hturn : ∀ {b b'}, Turn .data budget b b' → R b b')
    (b : Filling) (congested : Bool) : R b (b.fillData budget congested) := by
  have hdata : ∀ b' : Filling, R b' (if congested then b' else
      streams budget (unis budget b'.conn.localUni.length 0 b').conn.sendQueue.length
        (unis budget b'.conn.localUni.length 0 b')) := by
    intro b'
    split
    · exact hR.refl b'
    · exact hR.trans (unis_turns hR hturn _ _ b') (streams_turns hR hturn _ _)
  exact hR.trans (hR.trans (hR.trans (hR.trans (maxData_turns hR hturn b)
    (credit_turns hR hturn _ _))
    (retires_turns hR hturn _ _)) (resets_turns hR hturn _ _)) (hdata _)

theorem fillRest_turns (hR : Composes R) (hturn : ∀ {b b'}, Turn sp budget b b' → R b b')
    (b : Filling) (congested : Bool) : R b (b.fillRest sp budget congested) := by
  have hdata : ∀ b' : Filling, R b' (if sp = .data then b'.fillData budget congested else b') := by
    intro b'
    split
    · rename_i hsp
      subst hsp
      exact fillData_turns hR hturn b' congested
    · exact hR.refl b'
  exact hR.trans (hR.trans (hR.trans (crypto_turns hR hturn _ b) (hdata _))
    (probe_turns hR hturn _)) (keepalive_turns hR hturn _)

end Stages

end Filling

/-! ## A packet -/

namespace Connection

variable {R : Connection → Connection → Prop} {sp : Space} {now : Nat}

/-- What the parts of a payload do to a connection, the payload does. -/
theorem fillPayload_turns (hR : Composes R)
    (hack : ∀ c : Connection, R c (c.modifySpace sp fun s => { s with ack := s.ack.takePending }))
    (hclose : ∀ c : Connection, R c { c with closePending := none }) {budget : Nat}
    (hturn : ∀ {b b' : Filling}, b.Turn sp budget b' → R b.conn b'.conn) (c : Connection)
    (congested : Bool) : R c (c.fillPayload sp now budget congested).2 := by
  have hF : Composes fun b b' : Filling => R b.conn b'.conn :=
    ⟨fun b => hR.refl b.conn, fun h h' => hR.trans h h'⟩
  have hstart : R c
      (Filling.ack
        { conn := c, out := [], frames := [], ackEliciting := false } sp now budget).2.conn := by
    unfold Filling.ack
    dsimp only
    split
    · split
      · exact hR.refl c
      · exact hack c
    · exact hR.refl c
  unfold fillPayload
  split
  all_goals
    rename_i heq
    rw [heq] at hstart
  · exact hstart
  · rename_i b
    have hpath := hR.trans hstart (Filling.pathResponse_turns hF hturn b)
    dsimp only
    split
    · exact hR.trans hpath (hclose _)
    · exact hR.trans hpath (Filling.fillRest_turns hF hturn _ congested)

/-- What the payload and the record of a packet do to a connection, the packet does. -/
theorem writePacket_turns (hR : Composes R)
    (hfill : ∀ (c : Connection) budget congested, R c (c.fillPayload sp now budget congested).2)
    (hemit : ∀ (c : Connection) p, R c (c.emit sp p now)) (c : Connection) (key : Key)
    (written : Nat) (congested : Bool) (pad : Option Nat) :
    R c (c.writePacket sp key now written congested pad).2 := by
  unfold writePacket
  split
  · exact hR.refl c
  · dsimp only
    generalize pad.getD maxDatagram - _ = budget
    have hfilled := hfill c budget congested
    split
    all_goals
      rename_i heq
      rw [heq] at hfilled
    · exact hfilled
    · split
      · exact hfilled
      · exact hR.trans hfilled (hemit _ _)

end Connection

end Shb.Quic
