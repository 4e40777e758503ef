import Shb.Quic.Conn.Fill
import Shb.Quic.Conn.Ops

/-!
# Receive credit is not lost

A limit we have raised is of use to the peer only once it hears of it. The limits in force are
therefore always the ones the peer started with, or on their way (in a packet in flight), or
there (in a packet it has acknowledged), or owed: `max_data_owed` for the connection,
`credit_pending` for a stream.

`Calm` is what everything but the building of a packet does to that: it raises no limit, forgets
no debt, and takes a packet out of flight only when it is acknowledged or when what it carried is
owed again.
-/

namespace Shb.Quic

open Lib Accounts

/-- The part of a connection that receive credit is about, as the connection stores it. -/
structure Stock where
  maxDataLocal : Nat
  maxDataOwed : Bool
  creditPending : List Nat
  streamWindow : Nat
  pathResponse : Option Bytes
  streams : List (Option StreamPair)
  baseStream : Nat
  peerUni : List (Nat × RecvStream)
  flight : List SentPacket

namespace Connection

def stock (c : Connection) : Stock where
  maxDataLocal := c.maxDataLocal
  maxDataOwed := c.maxDataOwed
  creditPending := c.creditPending
  streamWindow := c.streamWindow
  pathResponse := c.pathResponse
  streams := c.streams
  baseStream := c.baseStream
  peerUni := c.peerUni
  flight := (c.space .data).sent.packets

/-! ## What leaves it alone -/

theorem Elsewhere.stock {c d : Connection} (h : Elsewhere c d) : d.stock = c.stock := by
  have hflight := congrArg SentPackets.packets (h.spaces .data).2.1
  show Stock.mk _ _ _ _ _ _ _ _ _ = Stock.mk _ _ _ _ _ _ _ _ _
  rw [hflight, h.same]
  rfl

theorem handshaking_stock : Handshaking fun c d => d.stock = c.stock :=
  ⟨.view stock, Elsewhere.stock, fun _ _ => rfl⟩

section Stock

variable (c : Connection)

@[simp] theorem stock_note (e : Entry) : (c.note e).stock = c.stock := rfl

@[simp] theorem stock_pushEvent (e : Event) : (c.pushEvent e).stock = c.stock := rfl

@[simp] theorem stock_pollEvent : c.pollEvent.2.stock = c.stock := by
  unfold pollEvent
  split <;> rfl

@[simp] theorem stock_countAnswered : c.countAnswered.stock = c.stock := rfl

@[simp] theorem stock_countReceived (new : Nat) : (c.countReceived new).stock = c.stock := rfl

@[simp] theorem stock_queueReset (id error finalSize : Nat) :
    (c.queueReset id error finalSize).stock = c.stock := rfl

@[simp] theorem stock_report (id : Nat) (readable done : Bool) :
    (c.report id readable done).stock = c.stock := by
  obtain ⟨_, _, h⟩ := c.report_eq id readable done
  rw [h]
  rfl

/-- A change of a packet number space that leaves its packets in flight. -/
theorem stock_modifySpace {sp : Space} {f : SpaceState → SpaceState}
    (h : sp = .data → (f (c.space .data)).sent.packets = (c.space .data).sent.packets) :
    (c.modifySpace sp f).stock = c.stock := by
  have hflight : ((c.modifySpace sp f).space .data).sent.packets =
    (c.space .data).sent.packets := by
    rw [space_modifySpace]
    split
    · rename_i hsp
      subst hsp
      exact h rfl
    · rfl
  show Stock.mk _ _ _ _ _ _ _ _ _ = Stock.mk _ _ _ _ _ _ _ _ _
  rw [hflight]
  rfl

theorem stock_discardSpace {sp : Space} (h : sp ≠ .data) : (c.discardSpace sp).stock = c.stock :=
  stock_modifySpace c fun hsp => absurd hsp h

theorem stock_onRetry (dcid scid : ConnectionId) (token : Bytes) (tag : Option ConnectionId) :
    (c.onRetry dcid scid token tag).stock = c.stock := by
  unfold onRetry
  split
  · rfl
  · split
    · rfl
    · exact stock_modifySpace c fun h => nomatch h

theorem stock_recordPacket (sp : Space) (pn : Nat) (eliciting : Bool) (now : Nat) :
    (c.recordPacket sp pn eliciting now).stock = c.stock :=
  stock_modifySpace c fun _ => rfl

end Stock

end Connection

/-! ## One receive half -/

namespace RecvStream

/-- The peer may send nothing and has sent nothing. -/
def Shut (r : RecvStream) : Prop := r.maxData = 0 ∧ r.readOffset = 0 ∧ r.ready = [] ∧ r.pending = []

/-- The peer has more than half a window left. -/
def Ample (window : Nat) (r : RecvStream) : Prop := r.readOffset + window / 2 < r.maxData

/-- What becomes of a receive half while its limit stays: it is read from only as long as the
peer has ample room, or with the stream `queued` for a MAX_STREAM_DATA. -/
structure Follows (window : Nat) (queued : Prop) (r r' : RecvStream) : Prop where
  size : r'.finalSize = none → r.finalSize = none
  limit : r'.maxData = r.maxData
  read : r'.finalSize = none → r'.readOffset = r.readOffset ∨ r'.Ample window ∨ queued
  shut : r.Shut → r'.Shut

namespace Follows

variable {window : Nat} {queued queued' : Prop} {r r' r'' : RecvStream}

theorem refl (r : RecvStream) : Follows window queued r r :=
  ⟨fun h => h, rfl, fun _ => Or.inl rfl, fun h => h⟩

theorem trans (h : Follows window queued r r') (h' : Follows window queued' r' r'')
    (hq : queued → queued') : Follows window queued' r r'' where
  size hnone := h.size (h'.size hnone)
  limit := h'.limit.trans h.limit
  shut hr := h'.shut (h.shut hr)
  read hnone := by
    rcases h'.read hnone with heq | hdone
    · rcases h.read (h'.size hnone) with heq' | hample | hqueued
      · exact Or.inl (heq.trans heq')
      · refine Or.inr (Or.inl ?_)
        unfold Ample at hample ⊢
        rw [heq, h'.limit]
        exact hample
      · exact Or.inr (Or.inr (hq hqueued))
    · exact Or.inr hdone

theorem mono (h : Follows window queued r r') (hq : queued → queued') :
    Follows window queued' r r' :=
  h.trans (refl r') hq

end Follows

/-- Nothing fits under a limit of zero but an empty frame at the start. -/
theorem Shut.place {r : RecvStream} (h : r.Shut) {offset : Nat} {data : Bytes}
    (hend : offset + data.length ≤ 0) : (r.place offset data).Shut := by
  obtain ⟨hmax, hread, hready, hpending⟩ := h
  obtain ⟨rfl, rfl⟩ : offset = 0 ∧ data = [] :=
    ⟨by omega, List.eq_nil_of_length_eq_zero (by omega)⟩
  unfold RecvStream.place
  simp [Shut, drainPending, drain, hmax, hread, hready, hpending]

theorem Takes.follows {window stop credit : Nat} {queued : Prop} {r r' : RecvStream}
    (h : r.Takes stop credit r') : Follows window queued r r' := by
  cases h with
  | @data offset data fin hstop hcheck =>
    obtain ⟨-, -, -, hle, -⟩ := checkEnd_ok hcheck
    generalize hs : ({ r with
      finalSize := if fin then some stop else r.finalSize
      received := max r.received stop } : RecvStream) = s
    obtain ⟨hfinal, -, hmax, hread⟩ := s.place_limits offset data
    have hsize : s.finalSize = none → r.finalSize = none := by
      rw [← hs]
      intro h
      cases fin with
      | true => exact nomatch h
      | false => exact h
    have hsmax : s.maxData = r.maxData := by rw [← hs]
    have hsread : s.readOffset = r.readOffset := by rw [← hs]
    refine ⟨fun h => hsize (hfinal.symm.trans h), hmax.trans hsmax,
      fun _ => Or.inl (hread.trans hsread), fun hshut => ?_⟩
    have hsshut : s.Shut := by
      rw [← hs]
      exact hshut
    exact hsshut.place (hstop.le.trans (hle.trans hshut.1.le))
  | reset => exact ⟨fun h => (nomatch h), rfl, fun _ => Or.inl rfl, fun h => h⟩

theorem follows_consume {ε : Type} {window : Nat} (r : RecvStream) (f : Bytes → Except ε Unit) :
    Follows window ((r.consume f).2.wantsCredit window = true) r (r.consume f).2 := by
  have hread : ∀ r' : RecvStream, r'.finalSize = none →
      r'.Ample window ∨ r'.wantsCredit window = true := by
    intro r' hnone
    unfold Ample wantsCredit sizeKnown
    rw [hnone]
    rcases Nat.lt_or_ge (r'.readOffset + window / 2) r'.maxData with hlt | hge
    · exact Or.inl hlt
    · refine Or.inr ?_
      rw [decide_eq_true hge]
      rfl
  unfold consume
  split
  · exact .refl r
  · rename_i hready
    split
    · exact .refl r
    · refine ⟨fun h => h, rfl, fun h => Or.inr (hread _ h), fun hshut => ?_⟩
      exact absurd (by rw [hshut.2.2.1]; rfl) hready

end RecvStream

namespace Connection

/-! ## What keeps the credit -/

/-- What a sent frame said of our limits has to be said again. -/
def Requeued (c : Connection) : SentFrame → Prop
  | .maxData _ => c.maxDataOwed = true
  | .maxStreamData id _ => id ∈ c.creditPending
  | _ => True

/-- From one connection to another without building a packet; `acked` are packets the peer has
acknowledged. -/
structure Still (acked : List SentPacket) (c c' : Connection) : Prop where
  limit : c'.maxDataLocal = c.maxDataLocal
  owed : c.maxDataOwed = true → c'.maxDataOwed = true
  pending : ∀ id ∈ c.creditPending, id ∈ c'.creditPending
  window : c'.streamWindow = c.streamWindow
  response : ∀ data, c'.pathResponse = some data → c.pathResponse = some data ∨ data.length = 8
  opened : ∀ id, c.Opened id → c'.Opened id
  recvs : ∀ {id r'}, c'.recvMut id = some r' →
    ∃ r, (c.recvMut id = some r ∨ ¬ c.Opened id ∧ r = .new c.streamWindow) ∧
      r.Follows c.streamWindow (id ∈ c'.creditPending) r'
  flight : ∀ p ∈ (c.space .data).sent.packets, p ∈ (c'.space .data).sent.packets ∨ p ∈ acked ∨
    ∀ f ∈ p.frames, c'.Requeued f

theorem opened_of_recvMut {c : Connection} {id : Nat} {r : RecvStream} (h : c.recvMut id = some r) :
    c.Opened id := by
  unfold recvMut at h
  split at h
  · rename_i i hi
    obtain ⟨rfl, hlt⟩ := streamIndex_eq_some.mp hi
    exact Or.inl ⟨by omega, by omega⟩
  · refine Or.inr ?_
    by_contra hnot
    rw [findStream_eq_none hnot] at h
    exact nomatch h

namespace Still

variable {acked : List SentPacket} {c c' c'' : Connection}

theorem requeued (h : Still acked c c') {f : SentFrame} (hf : c.Requeued f) : c'.Requeued f := by
  cases f with
  | maxData limit => exact h.owed hf
  | maxStreamData id limit => exact h.pending id hf
  | _ => trivial

theorem refl (c : Connection) : Still acked c c where
  limit := rfl
  owed h := h
  pending _ h := h
  window := rfl
  response _ h := Or.inl h
  opened _ h := h
  recvs h := ⟨_, Or.inl h, .refl _⟩
  flight _ h := Or.inl h

theorem trans (h : Still acked c c') (h' : Still acked c' c'') : Still acked c c'' where
  limit := h'.limit.trans h.limit
  owed ho := h'.owed (h.owed ho)
  pending id hid := h'.pending id (h.pending id hid)
  window := h'.window.trans h.window
  response data hdata := (h'.response data hdata).elim (h.response data) Or.inr
  opened id hid := h'.opened id (h.opened id hid)
  recvs {id r''} hr'' := by
    obtain ⟨r', hr', hfollows'⟩ := h'.recvs hr''
    rw [h.window] at hr' hfollows'
    rcases hr' with hr' | ⟨hnot, rfl⟩
    · obtain ⟨r, hr, hfollows⟩ := h.recvs hr'
      exact ⟨r, hr, hfollows.trans hfollows' (h'.pending id)⟩
    · exact ⟨_, Or.inr ⟨fun ho => hnot (h.opened id ho), rfl⟩, hfollows'⟩
  flight p hp := by
    rcases h.flight p hp with hp | hp | hp
    · exact h'.flight p hp
    · exact Or.inr (Or.inl hp)
    · exact Or.inr (Or.inr fun f hf => h'.requeued (hp f hf))

theorem of_stock (h : c'.stock = c.stock) : Still acked c c' := by
  have hstreams : c'.streams = c.streams := congrArg Stock.streams h
  have hbase : c'.baseStream = c.baseStream := congrArg Stock.baseStream h
  have hpeer : c'.peerUni = c.peerUni := congrArg Stock.peerUni h
  have hpending : c'.creditPending = c.creditPending := congrArg Stock.creditPending h
  have hflight : (c'.space .data).sent.packets = (c.space .data).sent.packets :=
    congrArg Stock.flight h
  have hopened : c'.Opened = c.Opened := by
    unfold Opened
    rw [hstreams, hbase, hpeer]
  have hrecvs : ∀ id, c'.recvMut id = c.recvMut id := by
    intro id
    simp only [recvMut, streamIndex, pairAt, hstreams, hbase, hpeer]
  refine ⟨congrArg Stock.maxDataLocal h, fun ho => (congrArg Stock.maxDataOwed h).trans ho,
    fun id hid => hpending ▸ hid, congrArg Stock.streamWindow h,
    fun data hd => Or.inl ((congrArg Stock.pathResponse h).symm.trans hd),
    fun id hid => hopened ▸ hid, fun {id r'} hr => ?_, fun p hp => Or.inl (hflight ▸ hp)⟩
  exact ⟨r', Or.inl ((hrecvs id).symm.trans hr), .refl r'⟩

theorem of_recvs (hdesk : c'.desk = c.desk)
    (hflight : (c'.space .data).sent.packets = (c.space .data).sent.packets)
    (hopened : ∀ id, c.Opened id → c'.Opened id) (hrecvs : ∀ {id r'}, c'.recvMut id = some r' →
      ∃ r, (c.recvMut id = some r ∨ ¬ c.Opened id ∧ r = .new c.streamWindow) ∧
        r.Follows c.streamWindow (id ∈ c.creditPending) r') : Still acked c c' := by
  have hpending : c'.creditPending = c.creditPending := congrArg Desk.creditPending hdesk
  refine ⟨congrArg Desk.maxDataLocal hdesk, fun ho => (congrArg Desk.maxDataOwed hdesk).trans ho,
    fun id hid => hpending ▸ hid, congrArg Desk.streamWindow hdesk,
    fun data hd => Or.inl ((congrArg Desk.pathResponse hdesk).symm.trans hd), hopened,
    fun {id r'} hr => ?_, fun p hp => Or.inl (hflight ▸ hp)⟩
  obtain ⟨r, hr, hfollows⟩ := hrecvs hr
  exact ⟨r, hr, hpending ▸ hfollows⟩

theorem of_update (hdesk : c'.desk = c.desk)
    (hflight : (c'.space .data).sent.packets = (c.space .data).sent.packets)
    (hopened : ∀ id, c.Opened id → c'.Opened id) {id : Nat} {t : Option RecvStream}
    (hrecvs : c'.recvMut = Function.update c.recvMut id t) (ht : ∀ r', t = some r' →
      ∃ r, (c.recvMut id = some r ∨ ¬ c.Opened id ∧ r = .new c.streamWindow) ∧
        r.Follows c.streamWindow (id ∈ c.creditPending) r') : Still acked c c' := by
  refine of_recvs hdesk hflight hopened fun {id' r'} hr => ?_
  rw [hrecvs, Function.update_apply] at hr
  split at hr
  · rename_i heq
    exact heq ▸ ht r' hr
  · exact ⟨r', Or.inl hr, .refl r'⟩

/-- Packets leave flight, and by the end they are acknowledged or what they carried is owed. -/
theorem of_leaving {sent : SentPackets}
    (h : Still acked (c.modifySpace .data fun s => { s with sent := sent }) c')
    (hleft : ∀ p ∈ (c.space .data).sent.packets, p ∈ sent.packets ∨ p ∈ acked ∨
      ∀ f ∈ p.frames, c'.Requeued f) : Still acked c c' := by
  refine ⟨h.limit, h.owed, h.pending, h.window, h.response, h.opened, h.recvs, fun p hp => ?_⟩
  rcases hleft p hp with hin | hout
  · refine h.flight p ?_
    exact hin
  · exact Or.inr hout

end Still

section Streams

variable {acked : List SentPacket} {c : Connection}

/-- A change of one slot that leaves its receive half alone. -/
theorem still_modifyPair {i : Nat} {f : StreamPair → StreamPair}
    (h : ∀ p, c.pairAt i = some p → (f p).recv = p.recv) : Still acked c (c.modifyPair i f) := by
  refine .of_recvs rfl rfl (fun id hid => ?_) fun {id r'} hr => ?_
  · rw [opened_modifyPair]
    exact hid
  · rw [recvMut_modifyPair h] at hr
    exact ⟨r', Or.inl hr, .refl r'⟩

theorem still_receive {id i : Nat} {pair : StreamPair} (hi : c.streamIndex id = some i)
    (hp : c.pairAt i = some pair) {f : StreamPair → StreamPair}
    (h : pair.recv.Follows c.streamWindow (id ∈ c.creditPending) (f pair).recv) :
    Still acked c (c.modifyPair i f) := by
  refine .of_update rfl rfl (fun id hid => ?_)
    (congrArg Accounts.recvs (accounts_modifyPair hi hp f)) fun r' hr => ?_
  · rw [opened_modifyPair]
    exact hid
  · cases hr
    exact ⟨pair.recv, Or.inl (recvMut_of_pairAt hi hp), h⟩

theorem still_modifySend (id : Nat) (f : SendStream → SendStream) :
    Still acked c (c.modifySend id f) := by
  unfold modifySend
  split
  · exact still_modifyPair fun _ _ => rfl
  · exact .of_stock rfl

theorem still_queueSend (id : Nat) : Still acked c (c.queueSend id) := by
  have h := Aside.queueSend c id
  refine .of_recvs h.desk (congrArg SentPackets.packets (h.spaces .data).2)
    (fun id hid => h.opened ▸ hid) fun {id r'} hr => ?_
  rw [h.recvs] at hr
  exact ⟨r', Or.inl hr, .refl r'⟩

theorem still_settle (hw : c.accounts.Wf) (id : Nat) : Still acked c (c.settle id) := by
  cases hi : c.streamIndex id with
  | none =>
    have : c.settle id = c := by simp only [settle, hi]
    rw [this]
    exact .refl c
  | some i =>
    by_cases h : (c.pairAt i).any (fun pair => pair.retired && pair.send.isSettled) = true
    · obtain ⟨streams, base, -, hsettle, hlen, -⟩ := settle_eq hi h
      have hrecvs : (c.settle id).recvMut = Function.update c.recvMut id none :=
        congrArg Accounts.recvs (accounts_settle hw hi h)
      rw [hsettle] at hrecvs ⊢
      refine .of_update rfl rfl (fun id hid => ?_) hrecvs fun _ hr => by cases hr
      unfold Opened at hid ⊢
      rw [hlen]
      exact hid
    · have : c.settle id = c := by simp only [settle, hi, if_neg h]
      rw [this]
      exact .refl c

theorem still_openBi (hw : c.accounts.Wf) : Still acked c c.openBi.2 := by
  unfold openBi
  split
  · exact .refl c
  · have hring : c.baseStream + c.streams.length = c.nextBidi := hw.ring
    have hopen : Still acked c { c with
        nextBidi := c.nextBidi + 1
        unanswered := c.unanswered + 1
        streams := c.streams ++ [some { send := .new c.params.initialMaxStreamDataBidiRemote,
                                        recv := .new c.streamWindow }] } := by
      obtain ⟨-, hrecvs, -, hlen⟩ := accounts_pushPair hw
        (d := { c with
          nextBidi := c.nextBidi + 1
          unanswered := c.unanswered + 1
          streams := c.streams ++ [some { send := .new c.params.initialMaxStreamDataBidiRemote,
                                          recv := .new c.streamWindow }] }) _ rfl rfl rfl rfl
      refine .of_update rfl rfl (fun id hid => ?_) hrecvs fun r' hr => ?_
      · rcases hid with ⟨hmod, hlt⟩ | hpeer
        · exact Or.inl ⟨hmod, hlen ▸ Nat.lt_succ_of_lt hlt⟩
        · exact Or.inr hpeer
      · cases hr
        refine ⟨_, Or.inr ⟨?_, rfl⟩, .refl _⟩
        have hfour : clientStreamId .bi c.nextBidi = c.nextBidi * 4 := rfl
        rintro (⟨-, hlt⟩ | hpeer)
        · omega
        · exact Wf.peer_ids hw (by omega) hpeer
    exact hopen.trans (.of_stock rfl)

end Streams

/-- A connection that stays well formed and keeps its credit. -/
def Calm (acked : List SentPacket) (c c' : Connection) : Prop :=
  c.accounts.Wf → c'.accounts.Wf ∧ Still acked c c'

namespace Calm

variable {acked : List SentPacket} {c c' c'' : Connection}

theorem refl (c : Connection) : Calm acked c c := fun hw => ⟨hw, .refl c⟩

theorem trans (h : Calm acked c c') (h' : Calm acked c' c'') : Calm acked c c'' := by
  intro hw
  obtain ⟨hw', hs⟩ := h hw
  obtain ⟨hw'', hs'⟩ := h' hw'
  exact ⟨hw'', hs.trans hs'⟩

theorem of_does {A : Act → Prop} (hd : Does A c c') (h : c.accounts.Wf → Still acked c c') :
    Calm acked c c' :=
  fun hw => ⟨hw.path (hd hw), h hw⟩

theorem of_eq (ha : c'.accounts = c.accounts) (h : c'.stock = c.stock) : Calm acked c c' :=
  fun hw => ⟨ha ▸ hw, .of_stock h⟩

theorem elsewhere (h : Elsewhere c c') : Calm acked c c' := of_eq h.accounts h.stock

theorem composes : Composes (Calm acked) := ⟨refl, trans⟩

theorem modifyPair {i : Nat} {f : StreamPair → StreamPair}
    (h : ∀ p, c.pairAt i = some p → (f p).recv = p.recv) : Calm acked c (c.modifyPair i f) := by
  intro hw
  refine ⟨⟨?_, hw.unis, hw.peers, hw.flight⟩, still_modifyPair h⟩
  have hlen : (c.modifyPair i f).streams.length = c.streams.length :=
    List.length_modify ..
  exact (congrArg (c.baseStream + ·) hlen).trans hw.ring

theorem modifySend (id : Nat) (f : SendStream → SendStream) : Calm acked c (c.modifySend id f) := by
  unfold Connection.modifySend
  split
  · exact modifyPair fun _ _ => rfl
  · intro hw
    refine ⟨⟨hw.ring, ?_, hw.peers, hw.flight⟩, .of_stock rfl⟩
    exact (map_fst_modifyFirst id f c.localUni).trans hw.unis

theorem queueSend (id : Nat) : Calm acked c (c.queueSend id) :=
  fun hw => ⟨accounts_queueSend c id ▸ hw, still_queueSend id⟩

theorem settle (id : Nat) : Calm acked c (c.settle id) :=
  of_does (settle_does c id) fun hw => still_settle hw id

end Calm

/-! ## Acknowledgement and loss -/

section Recovery

variable {acked : List SentPacket}

theorem onFrameAcked_calm (c : Connection) (f : SentFrame) : Calm acked c (c.onFrameAcked f) := by
  cases f with
  | stream id offset len fin | resetStream id error finalSize =>
    exact (Calm.modifySend id _).trans (Calm.settle id)
  | _ => exact Calm.refl c

theorem onPacketAcked_calm (sp : Space) (c : Connection) (p : SentPacket) :
    Calm acked c (c.onPacketAcked sp p) := by
  refine Calm.trans ?_ (Calm.composes.foldl (fun c f _ => onFrameAcked_calm c f) _)
  split
  · intro hw
    refine ⟨?_, .of_stock (stock_modifySpace c fun _ => rfl)⟩
    rw [accounts_modifySpace_ack rfl]
    exact ⟨hw.ring, hw.unis, hw.peers, hw.flight⟩
  · exact Calm.refl c

theorem mem_queueCredit (c : Connection) (id : Nat) : id ∈ (c.queueCredit id).creditPending := by
  unfold queueCredit
  split
  · rename_i h
    exact List.contains_iff_mem.mp h
  · exact List.mem_append_right _ (List.mem_singleton.mpr rfl)

theorem still_queueCredit (c : Connection) (id : Nat) : Still acked c (c.queueCredit id) := by
  unfold queueCredit
  split
  · exact .refl c
  · exact { (Still.refl c : Still acked c c) with
      pending := fun _ h => List.mem_append_left _ h
      recvs := fun {_ r'} h => ⟨r', Or.inl h, .refl r'⟩
      flight := fun _ h => Or.inl h }

variable (sp : Space)

theorem onFrameLost_calm (c : Connection) (f : SentFrame) : Calm acked c (c.onFrameLost sp f) := by
  cases f with
  | stream id offset len fin => exact (Calm.modifySend id _).trans (Calm.queueSend id)
  | crypto offset len =>
    exact .of_eq (accounts_modifySpace_of rfl rfl) (stock_modifySpace c fun _ => rfl)
  | maxData limit =>
    intro hw
    exact ⟨hw, { (Still.refl c : Still acked c c) with
      owed := fun _ => rfl, flight := fun _ h => Or.inl h }⟩
  | maxStreamData id limit =>
    intro hw
    exact ⟨accounts_queueCredit c id ▸ hw, still_queueCredit c id⟩
  | _ => exact .of_eq rfl rfl

theorem onFrameLost_requeued (c : Connection) (f : SentFrame) :
    (c.onFrameLost sp f).Requeued f := by
  cases f with
  | maxData limit => exact rfl
  | maxStreamData id limit => exact mem_queueCredit c id
  | _ => trivial

/-- What each turn of a loop owes again, is owed at its end. -/
theorem foldl_requeued {β : Type} (frames : β → List SentFrame) {g : Connection → β → Connection}
    (hcalm : ∀ c b, Calm acked c (g c b))
    (hturn : ∀ c b, c.accounts.Wf → ∀ f ∈ frames b, (g c b).Requeued f) :
    ∀ (bs : List β) (c : Connection), c.accounts.Wf →
      ∀ b ∈ bs, ∀ f ∈ frames b, (bs.foldl g c).Requeued f
  | [], _, _, _, hb, _, _ => absurd hb List.not_mem_nil
  | a :: bs, c, hw, b, hb, f, hf => by
    have hw' := (hcalm c a hw).1
    rcases List.mem_cons.mp hb with rfl | hb
    · exact ((Calm.composes.foldl (fun c b _ => hcalm c b) (g c b) hw').2).requeued
        (hturn c b hw f hf)
    · exact foldl_requeued frames hcalm hturn bs (g c a) hw' b hb f hf

theorem onLostPacket_calm (now : Nat) (c : Connection) (p : SentPacket) :
    Calm acked c (c.onLostPacket sp now p) := by
  refine Calm.trans ?_ (Calm.composes.foldl (fun c f _ => onFrameLost_calm sp c f) _)
  exact .of_eq rfl rfl

theorem onLostPacket_requeued (now : Nat) (c : Connection) (p : SentPacket)
    (hw : c.accounts.Wf) : ∀ f ∈ p.frames, (c.onLostPacket sp now p).Requeued f := by
  have hcalm : ∀ c f, Calm [] c (c.onFrameLost sp f) := onFrameLost_calm sp
  intro f hf
  refine foldl_requeued (fun f => [f]) hcalm (fun c f _ g hg => ?_)
    p.frames { c with congestion := c.congestion.onLoss p.timeSent now } hw f hf f
    (List.mem_singleton.mpr rfl)
  rw [List.mem_singleton.mp hg]
  exact onFrameLost_requeued sp c f

/-- A batch of lost packets: what they said of our limits is owed again. -/
theorem onLostPackets_calm (c : Connection) (sp : Space) (lost : List SentPacket) (now : Nat) :
    Calm acked c (c.onLostPackets sp lost now) ∧
    (c.accounts.Wf → ∀ p ∈ lost, ∀ f ∈ p.frames, (c.onLostPackets sp lost now).Requeued f) := by
  have hpacket : ∀ c p, Calm acked c (c.onLostPacket sp now p) := onLostPacket_calm sp now
  refine ⟨onLostPackets_composes Calm.composes (fun _ _ => .of_eq rfl rfl)
    (fun d _ _ f _ => onFrameLost_calm sp d f) c, fun hw p hp f hf => ?_⟩
  have hrequeued :=
    foldl_requeued SentPacket.frames hpacket (onLostPacket_requeued sp now) lost c hw p hp f hf
  unfold onLostPackets
  dsimp only
  split
  · exact hrequeued
  · split <;> exact hrequeued

theorem still_leaving {c c' : Connection} {sp : Space} {sent : SentPackets}
    (h : Still acked (c.modifySpace sp fun s => { s with sent := sent }) c')
    (hleft : sp = .data → ∀ p ∈ (c.space .data).sent.packets, p ∈ sent.packets ∨ p ∈ acked ∨
      ∀ f ∈ p.frames, c'.Requeued f) : Still acked c c' := by
  by_cases hsp : sp = .data
  · subst hsp
    exact .of_leaving h (hleft rfl)
  · exact .trans (.of_stock (stock_modifySpace c fun h => absurd h hsp)) h

theorem detectLost_calm (c : Connection) (sp : Space) (now lossDelay : Nat) :
    Calm acked c (c.detectLost sp now lossDelay).2 := by
  refine .of_does (detectLost_does c sp now lossDelay) fun hw => ?_
  have hkept := (SentPackets.detectLost_subset (c.space sp).sent now lossDelay).2
  have hor := fun p hp =>
    SentPackets.mem_or_detectLost (s := (c.space sp).sent) (p := p) hp now lossDelay
  rcases hd : (c.space sp).sent.detectLost now lossDelay with ⟨⟨lost, deadline⟩, sent⟩
  rw [hd] at hkept hor
  simp only [detectLost, hd]
  have hw₁ := hw.path (leave_does hkept hw)
  obtain ⟨hcalm, hrequeued⟩ : Calm acked _ _ ∧ _ :=
    onLostPackets_calm (c.modifySpace sp fun s => { s with sent := sent }) sp lost now
  generalize hc₂ : (c.modifySpace sp fun s => { s with sent := sent }).onLostPackets
    sp lost now = c₂ at hcalm hrequeued
  have hend : Still acked c₂ (c₂.modifySpace sp fun s => { s with lossDeadline := deadline }) :=
    .of_stock (stock_modifySpace c₂ fun _ => rfl)
  refine still_leaving ((hcalm hw₁).2.trans hend) fun hsp p hp => ?_
  subst hsp
  rcases hor p hp with hlost | hin
  · exact Or.inr (Or.inr fun f hf => hend.requeued (hrequeued hw₁ p hlost f hf))
  · exact Or.inl hin

/-- An ACK takes the packets it names out of flight. -/
theorem onAck_calm (c : Connection) (sp : Space) (largest delay firstRange : Nat)
    (ranges : Bytes) (now : Nat)
    (hacked : sp = .data → ∀ p ∈ c.acknowledged sp (ackRanges largest firstRange ranges),
      p ∈ acked) : Calm acked c (c.onAck sp largest delay firstRange ranges now) := by
  refine onAck_composes Calm.composes (fun h => .elsewhere h.elsewhere) ?_
    (fun d p _ => onPacketAcked_calm sp d p) (fun d lossDelay => detectLost_calm d sp now lossDelay)
  refine .of_does (leave_does fun p => SentPackets.drainAcked_subset) fun _ =>
    still_leaving (.refl _) fun hsp p hp => ?_
  subst hsp
  rcases SentPackets.mem_or_drainAcked hp (ackRanges largest firstRange ranges) with hp | hp
  · exact Or.inr (Or.inl (hacked rfl p hp))
  · exact Or.inl hp

end Recovery

/-! ## Arriving data -/

section Arriving

variable {acked : List SentPacket} {c : Connection}

theorem not_mem_of_findStream {α : Type} {id : Nat} {l : List (Nat × α)}
    (h : findStream id l = none) : id ∉ l.map (·.1) := by
  induction l with
  | nil => exact List.not_mem_nil
  | cons p l ih =>
    simp only [findStream] at h
    split at h
    · cases h
    · rename_i hne
      intro hmem
      rcases List.mem_cons.mp hmem with heq | hmem
      · exact hne heq.symm
      · exact ih h hmem

/-- The receive half of a stream the peer opened is replaced. -/
theorem still_peerUni {id : Nat} {r t : RecvStream} (hid : isClientInitiated id = false)
    (hr : findStream id c.peerUni = some r) (h : r.Follows c.streamWindow (id ∈ c.creditPending) t)
    :
    Still acked c { c with peerUni := modifyFirst id (fun _ => t) c.peerUni } := by
  obtain ⟨hheld, hacc⟩ := accounts_peerUni hid (t := t) hr
  refine .of_update rfl rfl (fun id' h' => ?_) (congrArg Accounts.recvs hacc) fun r' hr' => ?_
  · unfold Opened at h' ⊢
    rw [map_fst_modifyFirst]
    exact h'
  · cases hr'
    exact ⟨r, Or.inl hheld, h⟩

theorem still_peerOpened {id : Nat} {t : RecvStream} (hid : isClientInitiated id = false)
    (hr : findStream id c.peerUni = none)
    (h : (RecvStream.new c.streamWindow).Follows c.streamWindow (id ∈ c.creditPending) t) :
    Still acked c ({ c with peerUni := c.peerUni ++ [(id, t)] }.pushEvent (.opened id)) := by
  refine .of_update rfl rfl (fun id' h' => ?_)
    (congrArg Accounts.recvs (accounts_peerOpened hid (t := t) hr).2) fun r' hr' => ?_
  · rcases h' with hring | hpeer
    · exact Or.inl hring
    · refine Or.inr ?_
      show id' ∈ (c.peerUni ++ [(id, t)]).map (·.1)
      rw [List.map_append]
      exact List.mem_append_left _ hpeer
  · cases hr'
    refine ⟨_, Or.inr ⟨?_, rfl⟩, h⟩
    rintro (⟨hmod, -⟩ | hpeer)
    · exact isClient_false hid hmod
    · exact not_mem_of_findStream hr hpeer

theorem stock_counted (c : Connection) (id : Nat) (readable done : Bool) (new : Nat) :
    ((c.report id readable done).countReceived new).stock = c.stock :=
  (stock_countReceived _ new).trans (stock_report c id readable done)

theorem Reported.stock {id : Nat} {done : Bool} {d : Connection} (h : Reported id done c d) :
    d.stock = c.stock := by
  cases h with
  | data readable => exact stock_report ..
  | reset error =>
    split
    · exact (stock_pushEvent _ _).trans (stock_countAnswered _)
    · rfl

theorem Arrives.still {why : Prop} {id stop : Nat} {r : Except Fault Unit × Connection}
    (h : Arrives why c id stop r) : Still acked c r.2 := by
  cases h with
  | refused | dropped => exact .refl c
  | @request _ _ r _ done hi hp hr _ hd =>
    refine .trans (still_receive hi hp (f := fun pair =>
      { pair with recv := r, finished := pair.finished || done }) hr.follows) (.of_stock ?_)
    exact (stock_countReceived _ _).trans hd.stock
  | peer _ hid hf hr =>
    exact .trans (still_peerUni hid hf hr.follows) (.of_stock (stock_counted ..))
  | opened _ hid hf hr =>
    exact .trans (still_peerOpened hid hf hr.follows) (.of_stock (stock_counted ..))

theorem arrived_still {id stop : Nat} {r : Except Fault Unit × Connection} (h : Still acked c r.2) :
    Still acked c (arrived id stop r).2 := by
  unfold arrived
  split
  · exact h.trans (.of_stock (stock_note _ _))
  · exact h

end Arriving

/-! ## Frames -/

section Frames

variable {acked : List SentPacket}

/-- Acknowledgement by a frame: the 1-RTT packets that leave flight because of it. -/
def ackedBy (c : Connection) (sp : Space) : Frame → List SentPacket
  | .ack largest _ firstRange ranges _ =>
    if sp = .data then c.acknowledged sp (ackRanges largest firstRange ranges) else []
  | _ => []

theorem onStopSending_still (c : Connection) (id error : Nat) :
    Still acked c (c.onStopSending id error) := by
  unfold onStopSending
  split
  · exact .refl c
  · split
    · exact .refl c
    · exact (still_modifySend id _).trans (.of_stock rfl)

theorem onPathChallenge_still (c : Connection) (data : Bytes) :
    Still acked c (c.onPathChallenge data).2 := by
  unfold onPathChallenge
  split
  · rename_i hlen
    refine { (Still.refl c : Still acked c c) with response := fun data' h => ?_ }
    cases h
    exact Or.inr hlen
  · exact .refl c

theorem handleFrame_calm (c : Connection) (sp : Space) (f : Frame) (now : Nat)
    (hacked : ∀ p ∈ c.ackedBy sp f, p ∈ acked) : Calm acked c (c.handleFrame sp f now).2 := by
  refine .of_does (handleFrame_does c sp f now) fun hw => ?_
  cases f with
  | ack largest delay firstRange ranges ecn =>
    refine (onAck_calm c sp largest delay firstRange ranges now (fun hsp p hp => hacked p ?_) hw).2
    simp only [ackedBy, if_pos hsp]
    exact hp
  | crypto offset data => exact .of_stock (handshaking_stock.onCrypto c sp offset data)
  | handshakeDone =>
    exact .of_stock (stock_discardSpace { c with handshakeDone := true } (fun h => nomatch h))
  | stream id offset fin data => exact arrived_still (onStream_arrives ..).still
  | resetStream id error finalSize => exact arrived_still (onReset_arrives ..).still
  | stopSending id error => exact onStopSending_still c id error
  | maxStreamData id limit =>
    exact .trans (.of_stock (stock_note c _)) ((still_modifySend id _).trans (still_queueSend id))
  | maxStreams uni limit =>
    refine .of_stock ?_
    simp only [handleFrame]
    split <;> rfl
  | newConnectionId seq retirePriorTo cid token =>
    exact .of_stock (onNewConnectionId_readdressed c seq retirePriorTo cid token).elsewhere.stock
  | pathChallenge data => exact onPathChallenge_still c data
  | close app error reason => exact .of_stock (lose_elsewhere c _).stock
  | _ => exact .of_stock rfl

end Frames

/-! ## What the worker does -/

section Worker

variable {acked : List SentPacket}

theorem desk_modifyRecv (c : Connection) (id : Nat) (f : RecvStream → RecvStream) :
    (c.modifyRecv id f).desk = c.desk := by
  unfold modifyRecv
  split <;> rfl

theorem opened_modifyRecv (c : Connection) (id : Nat) (f : RecvStream → RecvStream) :
    (c.modifyRecv id f).Opened = c.Opened := by
  unfold modifyRecv
  split
  · exact opened_modifyPair c _ _
  · unfold Opened
    rw [map_fst_modifyFirst]

theorem space_modifyRecv (c : Connection) (id : Nat) (f : RecvStream → RecvStream) :
    (c.modifyRecv id f).space = c.space := by
  unfold modifyRecv
  split <;> rfl

theorem recvMut_modifyRecv {c : Connection} {id : Nat} {r : RecvStream} (hr : c.recvMut id = some r)
    (f : RecvStream → RecvStream) :
    (c.modifyRecv id f).recvMut = Function.update c.recvMut id (some (f r)) :=
  congrArg Accounts.recvs (accounts_modifyRecv hr f)

theorem still_modifyRecv {c : Connection} {id : Nat} {r r' : RecvStream}
    (hr : c.recvMut id = some r) (h : r.Follows c.streamWindow (id ∈ c.creditPending) r') :
    Still acked c (c.modifyRecv id fun _ => r') := by
  refine .of_update (desk_modifyRecv c id _) (by rw [space_modifyRecv])
    (fun id' h' => opened_modifyRecv c id _ ▸ h') (recvMut_modifyRecv hr _) fun t ht => ?_
  cases ht
  exact ⟨r, Or.inl hr, h⟩

theorem queueCredit_modifyRecv (c : Connection) (id : Nat) (f : RecvStream → RecvStream) :
    (c.modifyRecv id f).queueCredit id = (c.queueCredit id).modifyRecv id f := by
  have hpending : (c.modifyRecv id f).creditPending = c.creditPending :=
    congrArg Desk.creditPending (desk_modifyRecv c id f)
  unfold queueCredit
  rw [hpending]
  split
  · rfl
  · have hindex : ({ c with creditPending := c.creditPending ++ [id] } : Connection).streamIndex
      id = c.streamIndex id := rfl
    unfold modifyRecv
    rw [hindex]
    cases c.streamIndex id <;> rfl

theorem consume_still {ε : Type} (c : Connection) (id : Nat) (f : Bytes → Except ε Unit) :
    Still acked c (c.consume id f).2 := by
  unfold consume
  split
  · exact .refl c
  · rename_i recv hr
    have hread : recv.Follows c.streamWindow _ _ := recv.follows_consume f
    split
    · exact .refl c
    · rename_i n recv' heq
      rw [heq] at hread
      have hwindow : (c.modifyRecv id fun _ => recv').streamWindow = c.streamWindow :=
        congrArg Desk.streamWindow (desk_modifyRecv c id _)
      dsimp only
      rw [hwindow]
      split
      · -- queued, and then read
        have hqueue : Still acked c (c.queueCredit id) := still_queueCredit c id
        have hrecv : (c.queueCredit id).recvMut id = some recv := by
          rw [← hr]
          exact congrFun (congrArg Accounts.recvs (accounts_queueCredit c id)) id
        have hqueued : recv.Follows (c.queueCredit id).streamWindow
            (id ∈ (c.queueCredit id).creditPending) recv' := by
          rw [hqueue.window]
          exact hread.mono fun _ => mem_queueCredit c id
        rw [queueCredit_modifyRecv]
        exact (hqueue.trans (still_modifyRecv hrecv hqueued)).trans
          (.of_stock (Elsewhere.wake _).stock)
      · rename_i hwants
        exact still_modifyRecv hr (hread.mono fun h => absurd h hwants)

theorem retire_calm (c : Connection) (id cancel : Nat) : Calm acked c (c.retire id cancel) := by
  unfold retire
  split
  · exact Calm.refl c
  · rename_i i hi
    split
    · exact Calm.refl c
    · rename_i pair hp
      refine Calm.trans ?_ (Calm.settle id)
      have hcount : Calm acked c (if pair.finished then c else c.countAnswered) := by
        split
        · exact Calm.refl c
        · exact .of_eq (accounts_countAnswered c) (stock_countAnswered c)
      generalize (if pair.finished then c else c.countAnswered) = c₀ at hcount ⊢
      refine hcount.trans (Calm.trans (Calm.modifyPair (i := i)
        (f := fun pair => { pair with finished := true, retired := true }) fun _ _ => rfl) ?_)
      generalize (c₀.modifyPair i fun pair => { pair with finished := true, retired := true }) = c₁
      split
      · refine Calm.trans (Calm.modifyPair (i := i)
          (f := fun p => { p with send := pair.send.reset.2 }) fun _ _ => rfl) ?_
        exact .of_eq (accounts_queueReset ..) (stock_queueReset ..)
      · exact Calm.refl _

theorem sendOneshot_still {c : Connection} (hw : c.accounts.Wf) (data : Bytes) :
    Still acked c (c.sendOneshot data).2 := by
  have hopen : Still acked c c.openBi.2 := still_openBi hw
  unfold sendOneshot
  split
  all_goals
    rename_i heq
    rw [heq] at hopen
  · exact hopen
  · rename_i id c'
    refine hopen.trans (.trans (.of_stock (Elsewhere.wake c').stock) ?_)
    generalize c'.wake = c₁
    dsimp only
    split
    · exact .refl c₁
    · rename_i pair _
      generalize (if (pair.send.write data).1 = data.length then (pair.send.write data).2.finish
        else (pair.send.write data).2) = send
      refine Still.trans (still_modifyPair (i := c₁.streams.length - 1)
        (f := fun pair => { pair with send := send, queued := true }) fun _ _ => rfl) ?_
      exact .of_stock rfl

theorem write_still (c : Connection) (id : Nat) (data : Bytes) :
    Still acked c (c.write id data).2 := by
  unfold write
  refine .trans (.of_stock (Elsewhere.wake c).stock) ?_
  generalize c.wake = c₁
  dsimp only
  split
  · exact still_queueSend id
  · exact (still_modifySend id _).trans (still_queueSend id)

theorem handleTimeout_calm (c : Connection) (now : Nat) : Calm acked c (c.handleTimeout now) :=
  handleTimeout_composes Calm.composes Calm.elsewhere
    c fun d sp => detectLost_calm d sp now _

end Worker

end Connection

end Shb.Quic
