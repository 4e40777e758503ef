import Shb.Quic.Conn.Grants

/-!
# What is owed is written, or still owed

A payload is built against a budget, and what does not fit has to wait. `Honours` says that of
the six kinds of frame a connection sends of its own accord: whatever a call of `fill_payload`
takes off the books is in the payload, and nothing of the kind is put there without room for it.

Two of them are not handled like the rest. A PATH_RESPONSE is taken before the room is looked at,
and a close is written without looking; `Roomy` is what has to hold of the budget for neither to
matter.
-/

namespace Shb.Quic

open Lib

/-! ## Frames and their room -/

namespace Written

/-- What the packet's record says of a frame, if it is on it. -/
def sent? : Written → Option SentFrame
  | ping => some .ping
  | crypto offset data => some (.crypto offset data.length)
  | stream id offset fin data => some (.stream id offset data.length fin)
  | maxData limit => some (.maxData limit)
  | maxStreamData id limit => some (.maxStreamData id limit)
  | resetStream id error finalSize => some (.resetStream id error finalSize)
  | retireConnectionId seq => some (.retireConnectionId seq)
  | pathResponse _ | close _ _ | transportClose _ | ack _ _ => none

/-- The frames a connection sends of its own accord. -/
def owed : Written → Bool
  | maxData _ | maxStreamData _ _ | resetStream _ _ _ | retireConnectionId _ | pathResponse _
  | close _ _ | transportClose _ => true
  | ping | crypto _ _ | stream _ _ _ _ | ack _ _ => false

end Written

/-- Frames behind `n` bytes of a payload: those that were owed end within the budget. -/
def FitsIn (budget : Nat) : Nat → List Written → Prop
  | _, [] => True
  | n, w :: ws =>
    (w.owed = true → n + w.put.length ≤ budget) ∧ FitsIn budget (n + w.put.length) ws

theorem fitsIn_append {budget : Nat} {ws' : List Written} : ∀ {ws : List Written} {n : Nat},
    FitsIn budget n (ws ++ ws') ↔
      FitsIn budget n ws ∧ FitsIn budget (n + (ws.flatMap Written.put).length) ws'
  | [], n => by simp [FitsIn]
  | w :: ws, n => by
    simp only [List.cons_append, FitsIn, fitsIn_append, List.flatMap_cons, List.length_append,
      Nat.add_assoc, and_assoc]

theorem fitsIn_one {budget n : Nat} {w : Written} :
    FitsIn budget n [w] ↔ (w.owed = true → n + w.put.length ≤ budget) := by
  simp [FitsIn]

namespace Connection

/-- What a close says in a space. -/
def closeWritten (sp : Space) (close : Close) : Written :=
  match sp, close.app with
  | .data, true => .close close.code close.reason
  | _, true => .transportClose applicationError
  | _, false => .transportClose close.code

theorem put_closeWritten (sp : Space) (close : Close) :
    (closeWritten sp close).put = Filling.closeBytes sp close := by
  obtain ⟨code, reason, app⟩ := close
  cases sp <;> cases app <;> rfl

/-- `ws` is what a payload has behind its ACK, and it accounts for every obligation that is gone:
what a connection `c` owed and `c'` does not owe is among it, and had room. -/
structure Honours (c : Connection) (sp : Space) (now budget : Nat) (filled : Filled)
    (c' : Connection) (ws : List Written) : Prop where
  out : filled.out =
    (c.ackWritten sp now budget).flatMap Written.put ++ ws.flatMap Written.put
  frames : filled.frames = ws.filterMap Written.sent?
  pathResponse : ∀ data, c.pathResponse = some data →
    c'.pathResponse = some data ∨ ws.head? = some (.pathResponse data)
  retire : ∀ seq, c.retirePending.count seq ≤
    c'.retirePending.count seq + ws.count (.retireConnectionId seq)
  reset : ∀ id error finalSize, c.resetPending.count (id, error, finalSize) ≤
    c'.resetPending.count (id, error, finalSize) + ws.count (.resetStream id error finalSize)
  maxData : c.maxDataOwed = true → c'.maxDataOwed = true ∨ .maxData c'.maxDataLocal ∈ ws
  credit : ∀ id ∈ c.creditPending, ∀ r, c.recvMut id = some r → r.sizeKnown = false →
    id ∈ c'.creditPending ∨
    ∃ r', c'.recvMut id = some r' ∧ .maxStreamData id r'.maxData ∈ ws
  close : ∀ close, c.closePending = some close →
    c'.closePending = some close ∨ ws.getLast? = some (closeWritten sp close)
  room : FitsIn budget ((c.ackWritten sp now budget).flatMap Written.put).length ws

/-- The bytes of the PATH_RESPONSE a payload of a space would begin with, behind the ACK. -/
def responseLen (c : Connection) (sp : Space) : Nat :=
  if sp = .data ∧ c.pathResponse.isSome then 9 else 0

/-- There is room for a pending PATH_RESPONSE, to the byte more than it needs, and for a pending
close behind it. -/
def Roomy (c : Connection) (sp : Space) (now budget : Nat) : Prop :=
  (sp = .data → c.pathResponse.isSome = true →
    9 < budget - ((c.ackWritten sp now budget).flatMap Written.put).length) ∧
  (sp = c.highestSpace → ∀ close, c.closePending = some close →
    ((c.ackWritten sp now budget).flatMap Written.put).length + c.responseLen sp +
      (closeWritten sp close).put.length ≤ budget)

end Connection

/-! ## The moves -/

namespace Filling

open Connection

variable {sp : Space} {budget : Nat} {b b' : Filling} {ws ws' : List Written}

theorem Carries.sent {c : Connection} {room : Nat} {w : Written} {f : SentFrame}
    (h : Carries c sp room w f) : w.sent? = some f ∧ w.owed = false := by
  cases h <;> exact ⟨rfl, rfl⟩

theorem Carries.head {c : Connection} {room : Nat} {w : Written} {f : SentFrame}
    (h : Carries c sp room w f) : ∃ byte, w.put.head? = some byte ∧ byte ≠ 0x1b := by
  refine ⟨w.typeByte, Written.head?_put h.ne_ack, Written.typeByte_ne_pathResponse ?_⟩
  cases h <;> exact fun _ h => nomatch h

namespace Move

section

variable (h : Move sp budget b ws b')
include h

theorem frames_eq :
    b'.frames = b.frames ++ ws.filterMap Written.sent? := by
  cases h with
  | write _ hw =>
    rw [List.filterMap_cons_some hw.sent.1]
    rfl
  | between _ | forget _ _ _ | owe | pass _ _ | respond _ _ _ => exact (List.append_nil _).symm
  | _ => rfl

theorem closePending_eq :
    b'.conn.closePending = b.conn.closePending := by
  cases h with
  | between ha | write ha _ => exact congrArg Desk.closePending ha.desk
  | credit _ _ _ _ _ => exact congrArg Desk.closePending (desk_modifyRecv _ _ _)
  | _ => rfl

theorem retire_le (seq : Nat) :
    b.conn.retirePending.count seq ≤
      b'.conn.retirePending.count seq + ws.count (.retireConnectionId seq) := by
  have hkept : ∀ l : List Nat, l = b.conn.retirePending →
      b.conn.retirePending.count seq ≤ l.count seq + ws.count (.retireConnectionId seq) :=
    fun l hl => hl ▸ Nat.le_add_right _ _
  cases h with
  | between ha | write ha _ => exact hkept _ (congrArg Desk.retirePending ha.desk)
  | credit _ _ _ _ _ => exact hkept _ (congrArg Desk.retirePending (desk_modifyRecv _ _ _))
  | @retire seq' pending hlast _ =>
    rw [hlast, List.count_append]
    refine Nat.add_le_add_left ?_ _
    by_cases heq : seq' = seq
    · rw [heq, List.count_singleton_self, List.count_singleton_self]
    · rw [List.count_eq_zero.mpr fun hmem => heq (List.mem_singleton.mp hmem).symm]
      exact Nat.zero_le _
  | _ => exact hkept _ rfl

theorem reset_le (id error finalSize : Nat) :
    b.conn.resetPending.count (id, error, finalSize) ≤
      b'.conn.resetPending.count (id, error, finalSize) +
        ws.count (.resetStream id error finalSize) := by
  have hkept : ∀ l : List (Nat × Nat × Nat), l = b.conn.resetPending →
      b.conn.resetPending.count (id, error, finalSize) ≤
        l.count (id, error, finalSize) + ws.count (.resetStream id error finalSize) :=
    fun l hl => hl ▸ Nat.le_add_right _ _
  cases h with
  | between ha | write ha _ => exact hkept _ (congrArg Desk.resetPending ha.desk)
  | credit _ _ _ _ _ => exact hkept _ (congrArg Desk.resetPending (desk_modifyRecv _ _ _))
  | @reset id' error' finalSize' pending hlast _ =>
    rw [hlast, List.count_append]
    refine Nat.add_le_add_left ?_ _
    by_cases heq : (id', error', finalSize') = (id, error, finalSize)
    · cases heq
      rw [List.count_singleton_self, List.count_singleton_self]
    · rw [List.count_eq_zero.mpr fun hmem => heq (List.mem_singleton.mp hmem).symm]
      exact Nat.zero_le _
  | _ => exact hkept _ rfl

/-- The connection's limit changes only by being written. -/
theorem maxData_or :
    .maxData b'.conn.maxDataLocal ∈ ws ∨
    b'.conn.maxDataLocal = b.conn.maxDataLocal ∧
      (b.conn.maxDataOwed = true → b'.conn.maxDataOwed = true) := by
  cases h with
  | between ha | write ha _ =>
    exact Or.inr ⟨congrArg Desk.maxDataLocal ha.desk, (congrArg Desk.maxDataOwed ha.desk).trans⟩
  | credit _ _ _ _ _ =>
    exact Or.inr ⟨congrArg Desk.maxDataLocal (desk_modifyRecv _ _ _),
      fun h => (congrArg Desk.maxDataOwed (desk_modifyRecv _ _ _)).trans h⟩
  | extend _ _ _ _ => exact Or.inl List.mem_cons_self
  | owe => exact Or.inr ⟨rfl, fun _ => rfl⟩
  | _ => exact Or.inr ⟨rfl, fun h => h⟩

/-- A stream whose size is not known stays; what it is owed is written or still owed, and its
limit changes only by being written. -/
theorem credit_or {id : Nat} {r : RecvStream}
    (hr : b.conn.recvMut id = some r) (hopen : r.sizeKnown = false) :
    ∃ r', b'.conn.recvMut id = some r' ∧ r'.sizeKnown = false ∧
      (.maxStreamData id r'.maxData ∈ ws ∨ r'.maxData = r.maxData ∧
        (id ∈ b.conn.creditPending → id ∈ b'.conn.creditPending)) := by
  cases h with
  | between ha | write ha _ =>
    exact ⟨r, ha.recvs ▸ hr, hopen, Or.inr ⟨rfl, fun h =>
      (congrArg (id ∈ ·) (congrArg Desk.creditPending ha.desk)).mpr h⟩⟩
  | @pass id' pending hlast hgone =>
    refine ⟨r, hr, hopen, Or.inr ⟨rfl, fun hmem => ?_⟩⟩
    rw [hlast] at hmem
    refine (List.mem_append.mp hmem).resolve_right fun hone => ?_
    rw [List.mem_singleton.mp hone] at hr
    exact absurd (hgone r hr) (by rw [hopen]; decide)
  | @credit id' pending r₁ _ hlast hheld _ _ =>
    have hrecvs := recvMut_modifyRecv (c := { b.conn with creditPending := pending }) hheld fun _ =>
      (r₁.grant b.conn.streamWindow).2
    by_cases hid : id = id'
    · cases hid
      cases hheld.symm.trans hr
      refine ⟨(r.grant b.conn.streamWindow).2, ?_, hopen, Or.inl List.mem_cons_self⟩
      exact (congrFun hrecvs id).trans (Function.update_self _ _ _)
    · refine ⟨r, ?_, hopen, Or.inr ⟨rfl, fun hmem => ?_⟩⟩
      · exact (congrFun hrecvs id).trans ((Function.update_of_ne hid _ _).trans hr)
      · rw [hlast] at hmem
        have hpending := (List.mem_append.mp hmem).resolve_right fun hone =>
          hid (List.mem_singleton.mp hone)
        exact (congrArg (id ∈ ·) (congrArg Desk.creditPending (desk_modifyRecv _ _ _))).mpr hpending
  | _ => exact ⟨r, hr, hopen, Or.inr ⟨rfl, fun h => h⟩⟩

/-- Once a PATH_RESPONSE cannot be pending, none is written. -/
theorem no_response (hnone : sp = .data → b.conn.pathResponse = none) :
    b'.conn.pathResponse = b.conn.pathResponse ∧
      ∀ w ∈ ws, ∃ byte, w.put.head? = some byte ∧ byte ≠ 0x1b := by
  have hone : ∀ w : Written, (∀ ranges delay, w ≠ .ack ranges delay) →
      (∀ data, w ≠ .pathResponse data) →
      ∀ v ∈ [w], ∃ byte, v.put.head? = some byte ∧ byte ≠ 0x1b := by
    intro w hack hresponse v hv
    rw [List.mem_singleton.mp hv]
    exact ⟨w.typeByte, Written.head?_put fun delay => hack [] delay,
      Written.typeByte_ne_pathResponse hresponse⟩
  cases h with
  | between ha =>
    exact ⟨congrArg Desk.pathResponse ha.desk, nofun⟩
  | write ha hw =>
    refine ⟨congrArg Desk.pathResponse ha.desk, fun v hv => ?_⟩
    rw [List.mem_singleton.mp hv]
    exact hw.head
  | respond hsp h _ | forget hsp h _ => exact nomatch (hnone hsp).symm.trans h
  | owe | pass _ _ => exact ⟨rfl, nofun⟩
  | credit _ _ _ _ _ =>
    exact ⟨congrArg Desk.pathResponse (desk_modifyRecv _ _ _),
      hone _ (fun _ _ h => nomatch h) fun _ h => nomatch h⟩
  | _ => exact ⟨rfl, hone _ (fun _ _ h => nomatch h) fun _ h => nomatch h⟩

/-- What was owed is written only where it fits. -/
theorem fits (hnone : sp = .data → b.conn.pathResponse = none) : FitsIn budget b.out.length ws := by
  have hone : ∀ {w : Written} {most : Nat}, w.put.length ≤ most → most ≤ b.room budget → 0 < most →
      FitsIn budget b.out.length [w] := by
    intro w most hlen hroom hpos
    unfold room at hroom
    exact fitsIn_one.mpr fun _ => by omega
  cases h with
  | between _ => trivial
  | forget _ _ _ => trivial
  | owe => trivial
  | pass _ _ => trivial
  | write _ hw => exact fitsIn_one.mpr fun h => absurd h (by rw [hw.sent.2]; decide)
  | respond hsp h _ => exact nomatch (hnone hsp).symm.trans h
  | extend _ _ hroom _ => exact hone (length_putMaxData _) (by omega) (by omega)
  | credit _ _ _ _ hroom => exact hone (length_putMaxStreamData _ _) (by omega) (by omega)
  | retire _ hroom => exact hone (length_putRetireConnectionId _) (by omega) (by omega)
  | reset _ hroom => exact hone (length_putResetStream _ _ _) (by omega) (by omega)

end

end Move

/-- What was owed when the moves began is owed still, or among what they wrote. -/
structure Owing (sp : Space) (budget : Nat) (b₀ : Filling) (ws : List Written) (b : Filling) :
    Prop where
  out : b.out = b₀.out ++ ws.flatMap Written.put
  frames : b.frames = b₀.frames ++ ws.filterMap Written.sent?
  pathResponse : b.conn.pathResponse = b₀.conn.pathResponse
  heads : ∀ w ∈ ws, ∃ byte, w.put.head? = some byte ∧ byte ≠ 0x1b
  retire : ∀ seq, b₀.conn.retirePending.count seq ≤
    b.conn.retirePending.count seq + ws.count (.retireConnectionId seq)
  reset : ∀ id error finalSize, b₀.conn.resetPending.count (id, error, finalSize) ≤
    b.conn.resetPending.count (id, error, finalSize) + ws.count (.resetStream id error finalSize)
  maxData : b₀.conn.maxDataOwed = true →
    b.conn.maxDataOwed = true ∨ .maxData b.conn.maxDataLocal ∈ ws
  credit : ∀ id ∈ b₀.conn.creditPending, ∀ r, b₀.conn.recvMut id = some r → r.sizeKnown = false →
    ∃ r', b.conn.recvMut id = some r' ∧ r'.sizeKnown = false ∧
      (id ∈ b.conn.creditPending ∨ .maxStreamData id r'.maxData ∈ ws)
  close : b.conn.closePending = b₀.conn.closePending
  room : FitsIn budget b₀.out.length ws

theorem Owing.refl (sp : Space) (budget : Nat) (b : Filling) : Owing sp budget b [] b where
  out := (List.append_nil _).symm
  frames := (List.append_nil _).symm
  pathResponse := rfl
  heads _ h := absurd h List.not_mem_nil
  retire _ := Nat.le_add_right _ _
  reset _ _ _ := Nat.le_add_right _ _
  maxData h := Or.inl h
  credit _ hid r hr hopen := ⟨r, hr, hopen, Or.inl hid⟩
  close := rfl
  room := trivial

theorem Owing.move {b₀ : Filling} (hnone : sp = .data → b₀.conn.pathResponse = none)
    (h : Owing sp budget b₀ ws b) (hm : Move sp budget b ws' b') :
    Owing sp budget b₀ (ws ++ ws') b' := by
  have hnone' : sp = .data → b.conn.pathResponse = none := fun hsp =>
    h.pathResponse.trans (hnone hsp)
  obtain ⟨hresponse, hheads⟩ := hm.no_response hnone'
  refine ⟨?_, ?_, hresponse.trans h.pathResponse, fun w hw => ?_, fun seq => ?_,
    fun id error finalSize => ?_, fun howed => ?_, fun id hid r hr hopen => ?_,
    hm.closePending_eq.trans h.close, fitsIn_append.mpr ⟨h.room, ?_⟩⟩
  · rw [(Moved.of_move hm).out_eq, h.out, List.flatMap_append, List.append_assoc]
  · rw [hm.frames_eq, h.frames, List.filterMap_append, List.append_assoc]
  · exact (List.mem_append.mp hw).elim (h.heads w) (hheads w)
  · rw [List.count_append]
    exact (h.retire seq).trans (by have := hm.retire_le seq; omega)
  · rw [List.count_append]
    exact (h.reset id error finalSize).trans (by have := hm.reset_le id error finalSize; omega)
  · rcases hm.maxData_or with hin | ⟨hlimit, hkept⟩
    · exact Or.inr (List.mem_append_right _ hin)
    · rw [hlimit]
      exact (h.maxData howed).imp hkept (List.mem_append_left _)
  · obtain ⟨r₁, hr₁, hopen₁, hsaid⟩ := h.credit id hid r hr hopen
    obtain ⟨r₂, hr₂, hopen₂, hin | ⟨hmax, hkept⟩⟩ := hm.credit_or hr₁ hopen₁
    · exact ⟨r₂, hr₂, hopen₂, Or.inr (List.mem_append_right _ hin)⟩
    · refine ⟨r₂, hr₂, hopen₂, ?_⟩
      rw [hmax]
      exact hsaid.imp hkept (List.mem_append_left _)
  · have hlen : b₀.out.length + (ws.flatMap Written.put).length = b.out.length := by
      rw [h.out, List.length_append]
    rw [hlen]
    exact hm.fits hnone'

theorem Fill.owing {b₀ : Filling} (hnone : sp = .data → b₀.conn.pathResponse = none)
    (h : Fill sp budget b₀ b) : ∃ ws, Owing sp budget b₀ ws b := by
  obtain ⟨ws, h⟩ := h
  exact ⟨ws, h.invariant (P := Owing sp budget b₀) (fun h hm => h.move hnone hm)
    (Owing.refl sp budget b₀)⟩

end Filling

namespace Connection

open Filling

variable {c c' : Connection} {sp : Space} {now budget : Nat} {congested : Bool} {filled : Filled}

theorem owed_closeWritten (sp : Space) (close : Close) :
    (closeWritten sp close).owed = true ∧ (closeWritten sp close).sent? = none := by
  obtain ⟨code, reason, app⟩ := close
  cases sp <;> cases app <;> exact ⟨rfl, rfl⟩

theorem head?_closeWritten (sp : Space) (close : Close) :
    ∃ byte, (closeWritten sp close).put.head? = some byte ∧ byte ≠ 0x1b := by
  obtain ⟨code, reason, app⟩ := close
  cases sp <;> cases app <;> exact ⟨_, rfl, by decide⟩

theorem pathResponse_none {b : Filling} (h : sp = .data → b.conn.pathResponse = none) :
    b.pathResponse sp budget = b := by
  cases sp with
  | data => simp only [Filling.pathResponse, h rfl]
  | _ => rfl

/-- The stage of the PATH_RESPONSE, where it finds room. -/
theorem pathResponse_roomy {b : Filling}
    (hroom : sp = .data → b.conn.pathResponse.isSome = true → 9 < b.room budget)
    (height : ∀ data, b.conn.pathResponse = some data → data.length = 8) :
    ∃ ws, (b.pathResponse sp budget).out = b.out ++ ws.flatMap Written.put ∧
      (b.pathResponse sp budget).frames = b.frames ∧ ws.filterMap Written.sent? = [] ∧
      (sp = .data → (b.pathResponse sp budget).conn.pathResponse = none) ∧
      (∀ data, b.conn.pathResponse = some data →
        (b.pathResponse sp budget).conn.pathResponse = some data ∨
        ws.head? = some (.pathResponse data)) ∧
      (ws.flatMap Written.put).length = b.conn.responseLen sp ∧ FitsIn budget b.out.length ws ∧
      (b.pathResponse sp budget).conn.desk =
        { b.conn.desk with pathResponse := (b.pathResponse sp budget).conn.pathResponse } ∧
      (b.pathResponse sp budget).conn.recvMut = b.conn.recvMut := by
  by_cases hdue : sp = .data ∧ b.conn.pathResponse.isSome = true
  · obtain ⟨rfl, hsome⟩ := hdue
    obtain ⟨data, hdata⟩ := Option.isSome_iff_exists.mp hsome
    have h9 := hroom rfl hsome
    have hlen : ((Written.pathResponse data).put).length = 9 := by
      rw [Written.put, length_putPathResponse, height data hdata]
    have hstage : b.pathResponse .data budget =
        { b with
          conn := { b.conn with pathResponse := none }
          out := b.out ++ putPathResponse data
          ackEliciting := true } := by
      simp only [Filling.pathResponse, hdata, if_pos h9]
    rw [hstage]
    refine ⟨[.pathResponse data], ?_, rfl, rfl, fun _ => rfl, fun data' hdata' => ?_,
      ?_, ?_, rfl, rfl⟩
    · rw [List.flatMap_singleton]
      rfl
    · cases hdata.symm.trans hdata'
      exact Or.inr rfl
    · rw [List.flatMap_singleton, hlen]
      unfold responseLen
      rw [if_pos ⟨rfl, hsome⟩]
    · refine fitsIn_one.mpr fun _ => ?_
      unfold room at h9
      omega
  · have hnone : sp = .data → b.conn.pathResponse = none := fun hsp =>
      Option.not_isSome_iff_eq_none.mp fun hsome => hdue ⟨hsp, hsome⟩
    have hstage : b.pathResponse sp budget = b := pathResponse_none hnone
    rw [hstage]
    refine ⟨[], (List.append_nil _).symm, rfl, rfl, hnone, fun data hdata => Or.inl hdata, ?_,
      trivial, rfl, rfl⟩
    unfold responseLen
    rw [if_neg hdue]
    rfl

/-- With room for both, every obligation that is gone is in the payload. -/
theorem honours_of_roomy (height : ∀ data, c.pathResponse = some data → data.length = 8)
    (hroomy : c.Roomy sp now budget)
    (h : c.fillPayload sp now budget congested = (.ok filled, c')) :
    ∃ ws, c.Honours sp now budget filled c' ws := by
  obtain ⟨b, hout, hframes, haside, hrest⟩ := fillPayload_parts h
  have hdesk := haside.desk
  have hpath : b.conn.pathResponse = c.pathResponse := congrArg Desk.pathResponse hdesk
  have hlen : b.conn.responseLen sp = c.responseLen sp := by
    unfold responseLen
    rw [hpath]
  have hroom : sp = .data → b.conn.pathResponse.isSome = true → 9 < b.room budget := by
    unfold room
    rw [hpath, hout]
    exact hroomy.1
  have height' : ∀ data, b.conn.pathResponse = some data → data.length = 8 := by
    rw [hpath]
    exact height
  obtain ⟨ws₀, hout₀, hframes₀, hsent₀, hnone₀, hresponse₀, hlen₀, hfits₀, hdesk₀, hrecvs₀⟩ :=
    pathResponse_roomy (b := b) hroom height'
  rw [hpath] at hresponse₀
  rw [hlen] at hlen₀
  rw [hdesk] at hdesk₀
  rw [haside.recvs] at hrecvs₀
  rw [hout] at hout₀ hfits₀
  rw [hframes] at hframes₀
  generalize b.pathResponse sp budget = b₁ at hrest hout₀ hframes₀ hnone₀ hresponse₀ hdesk₀ hrecvs₀
  have hclose₀ : b₁.conn.closePending = c.closePending := congrArg Desk.closePending hdesk₀
  have hretire₀ : b₁.conn.retirePending = c.retirePending := congrArg Desk.retirePending hdesk₀
  have hreset₀ : b₁.conn.resetPending = c.resetPending := congrArg Desk.resetPending hdesk₀
  have hcredit₀ : b₁.conn.creditPending = c.creditPending := congrArg Desk.creditPending hdesk₀
  have howed₀ : b₁.conn.maxDataOwed = c.maxDataOwed := congrArg Desk.maxDataOwed hdesk₀
  rcases hrest with ⟨close, hsp, hpending, hfilled, hframes₁, rfl⟩ |
    ⟨hno, hfilled, hframes₁, rfl⟩
  · refine ⟨ws₀ ++ [closeWritten sp close], ?_, ?_, fun data hdata => ?_, fun seq => ?_,
      fun id error finalSize => ?_, fun h => ?_, fun id hid r hr hopen => ?_,
      fun close' hclose' => ?_, fitsIn_append.mpr ⟨hfits₀, fitsIn_one.mpr fun _ => ?_⟩⟩
    · rw [hfilled, hout₀, List.flatMap_append, List.flatMap_singleton, put_closeWritten,
        List.append_assoc]
    · rw [hframes₁, hframes₀, List.filterMap_append, hsent₀, List.nil_append,
        List.filterMap_cons_none (owed_closeWritten sp close).2]
      rfl
    · exact (hresponse₀ data hdata).imp_right fun hhead => by rw [List.head?_append, hhead]; rfl
    · exact hretire₀ ▸ Nat.le_add_right _ _
    · exact hreset₀ ▸ Nat.le_add_right _ _
    · exact Or.inl (howed₀.trans h)
    · exact Or.inl (hcredit₀ ▸ hid)
    · cases hpending.symm.trans hclose'
      exact Or.inr List.getLast?_concat
    · rw [hlen₀]
      exact hroomy.2 hsp close hpending
  · obtain ⟨ws₁, howing⟩ := (fillRest_fill b₁ sp budget congested).owing hnone₀
    refine ⟨ws₀ ++ ws₁, ?_, ?_, fun data hdata => ?_, fun seq => ?_, fun id error finalSize => ?_,
      fun h => ?_, fun id hid r hr hopen => ?_, fun close hclose => ?_,
      fitsIn_append.mpr ⟨hfits₀, ?_⟩⟩
    · rw [hfilled, howing.out, hout₀, List.flatMap_append, List.append_assoc]
    · rw [hframes₁, howing.frames, hframes₀, List.filterMap_append, hsent₀]
    · rw [howing.pathResponse]
      exact (hresponse₀ data hdata).imp_right fun hhead => by rw [List.head?_append, hhead]; rfl
    · have hcount := howing.retire seq
      rw [hretire₀] at hcount
      rw [List.count_append]
      omega
    · have hcount := howing.reset id error finalSize
      rw [hreset₀] at hcount
      rw [List.count_append]
      omega
    · exact (howing.maxData (howed₀.trans h)).imp_right (List.mem_append_right _)
    · obtain ⟨r', hr', -, hsaid⟩ := howing.credit id (hcredit₀ ▸ hid) r (hrecvs₀ ▸ hr) hopen
      exact hsaid.imp_right fun hin => ⟨r', hr', List.mem_append_right _ hin⟩
    · exact Or.inl (howing.close.trans (hclose₀.trans hclose))
    · have hroom₁ := howing.room
      rw [hout₀, List.length_append] at hroom₁
      exact hroom₁

theorem head?_flatMap_put {ws : List Written}
    (h : ∀ w ∈ ws, ∃ byte, w.put.head? = some byte ∧ byte ≠ 0x1b) :
    (ws.flatMap Written.put).head? ≠ some 0x1b := by
  cases ws with
  | nil => exact fun h => nomatch h
  | cons w ws =>
    obtain ⟨byte, hhead, hne⟩ := h w List.mem_cons_self
    rw [List.flatMap_cons, List.head?_append, hhead]
    exact fun h => hne (Option.some.inj h)

/-- A PATH_RESPONSE that finds no room is forgotten, and no frame stands in its place. -/
theorem not_honours_of_crowded {data : Bytes} (hdata : c.pathResponse = some data)
    (hcrowded : budget - ((c.ackWritten .data now budget).flatMap Written.put).length ≤ 9)
    (h : c.fillPayload .data now budget congested = (.ok filled, c')) {ws : List Written} :
    ¬ c.Honours .data now budget filled c' ws := by
  intro hws
  obtain ⟨b, hout, -, haside, hrest⟩ := fillPayload_parts h
  have hpath : b.conn.pathResponse = some data :=
    (congrArg Desk.pathResponse haside.desk).trans hdata
  have hstage : b.pathResponse .data budget =
      { b with conn := { b.conn with pathResponse := none } } := by
    have hroom : ¬ 9 < b.room budget := by
      unfold room
      rw [hout]
      omega
    simp only [Filling.pathResponse, hpath, if_neg hroom]
  rw [hstage] at hrest
  -- what stands behind the ACK, whichever way the payload goes on
  obtain ⟨rest, hfilled, hhead, hgone⟩ : ∃ rest,
      filled.out = (c.ackWritten .data now budget).flatMap Written.put ++ rest ∧
      rest.head? ≠ some 0x1b ∧ c'.pathResponse = none := by
    rcases hrest with ⟨close, -, -, hfilled, -, rfl⟩ | ⟨-, hfilled, -, rfl⟩
    · refine ⟨_, by rw [hfilled, hout], ?_, rfl⟩
      obtain ⟨byte, hbyte, hne⟩ := head?_closeWritten .data close
      rw [← put_closeWritten, hbyte]
      exact fun h => hne (Option.some.inj h)
    · obtain ⟨ws₁, howing⟩ := (fillRest_fill { b with conn := { b.conn with pathResponse := none } }
        .data budget congested).owing fun _ => rfl
      exact ⟨_, by rw [hfilled, howing.out, hout], head?_flatMap_put howing.heads,
        howing.pathResponse⟩
  have hrest : rest = ws.flatMap Written.put := List.append_cancel_left (hfilled.symm.trans hws.out)
  rcases hws.pathResponse data hdata with hkept | hfirst
  · exact nomatch hgone.symm.trans hkept
  · obtain ⟨ws', rfl⟩ : ∃ ws', ws = .pathResponse data :: ws' := by
      cases ws with
      | nil => exact nomatch hfirst
      | cons w ws' => exact ⟨ws', congrArg (· :: ws') (Option.some.inj hfirst)⟩
    rw [hrest] at hhead
    exact hhead rfl

/-- A close is written whether or not there is room. -/
theorem length_of_closing (height : ∀ data, c.pathResponse = some data → data.length = 8)
    (hroom : sp = .data → c.pathResponse.isSome = true →
      9 < budget - ((c.ackWritten sp now budget).flatMap Written.put).length)
    {close : Close} (hsp : sp = c.highestSpace) (hclose : c.closePending = some close)
    (h : c.fillPayload sp now budget congested = (.ok filled, c')) :
    c'.closePending = none ∧ filled.out.length =
      ((c.ackWritten sp now budget).flatMap Written.put).length + c.responseLen sp +
        (closeWritten sp close).put.length := by
  obtain ⟨b, hout, -, haside, hrest⟩ := fillPayload_parts h
  have hpath : b.conn.pathResponse = c.pathResponse := congrArg Desk.pathResponse haside.desk
  rcases hrest with ⟨close', -, hpending, hfilled, -, rfl⟩ | ⟨hno, -, -, -⟩
  · cases hclose.symm.trans hpending
    have hroom' : sp = .data → b.conn.pathResponse.isSome = true → 9 < b.room budget := by
      unfold room
      rw [hpath, hout]
      exact hroom
    have height' : ∀ data, b.conn.pathResponse = some data → data.length = 8 := by
      rw [hpath]
      exact height
    obtain ⟨ws, hout₀, -, -, -, -, hlen, -, -, -⟩ := pathResponse_roomy (b := b) hroom' height'
    refine ⟨rfl, ?_⟩
    unfold responseLen at hlen ⊢
    rw [hpath] at hlen
    rw [hfilled, hout₀, hout, List.length_append, List.length_append, hlen, put_closeWritten]
  · exact nomatch (hno hsp).symm.trans hclose

theorem roomy_of_honours (height : ∀ data, c.pathResponse = some data → data.length = 8)
    (h : c.fillPayload sp now budget congested = (.ok filled, c')) {ws : List Written}
    (hws : c.Honours sp now budget filled c' ws) : c.Roomy sp now budget := by
  have hroom : sp = .data → c.pathResponse.isSome = true →
      9 < budget - ((c.ackWritten sp now budget).flatMap Written.put).length := by
    rintro rfl hsome
    obtain ⟨data, hdata⟩ := Option.isSome_iff_exists.mp hsome
    by_contra hcrowded
    exact not_honours_of_crowded hdata (Nat.not_lt.mp hcrowded) h hws
  refine ⟨hroom, fun hsp close hclose => ?_⟩
  obtain ⟨hgone, hlen⟩ := length_of_closing height hroom hsp hclose h
  rcases hws.close close hclose with hkept | hlast
  · exact nomatch hgone.symm.trans hkept
  · obtain ⟨pre, rfl⟩ := List.getLast?_eq_some_iff.mp hlast
    have hfits := fitsIn_one.mp (fitsIn_append.mp hws.room).2 (owed_closeWritten sp close).1
    rw [hws.out, List.flatMap_append, List.flatMap_singleton, List.length_append,
      List.length_append] at hlen
    omega

end Connection

open Connection

/-- **Owed frames are never dropped**, given room for two of them. In every state a connection
reaches and for every budget, what a call of `fill_payload` takes off the books (the PATH_RESPONSE,
RETIRE_CONNECTION_ID, RESET_STREAM, MAX_DATA, the MAX_STREAM_DATA of a stream that still wants one,
the close) is in the payload and had room there, if and only if a pending PATH_RESPONSE has a byte
more than it needs behind the ACK and a pending close fits behind both. -/
theorem owed_frames_are_written_or_kept {input : LocalParamsInput}
    {localCid initialDcid : ConnectionId} {tls : Tls} {ops : List Op} {c c' : Connection}
    {sp : Space} {now budget : Nat} {congested : Bool} {filled : Filled}
    (hrun : run Op.step (connect input localCid initialDcid tls) ops = some c)
    (hfill : c.fillPayload sp now budget congested = (.ok filled, c')) :
    (∃ ws, c.Honours sp now budget filled c' ws) ↔ c.Roomy sp now budget := by
  have hstart : Op.Keeps (Op.ackedIn (connect input localCid initialDcid tls) ops)
      (connect input localCid initialDcid tls) (connect input localCid initialDcid tls) := by
    refine ⟨?_, .connected input localCid initialDcid tls⟩
    rw [accounts_connect]
    exact Accounts.Wf.start _
  have hkeeps := (Op.Keeps.run hstart (fun _ hp => hp) hrun).1
  have height : ∀ data, c.pathResponse = some data → data.length = 8 :=
    fun _ h => hkeeps.credited.response h
  constructor
  · rintro ⟨ws, hws⟩
    exact roomy_of_honours height hfill hws
  · intro hroomy
    exact honours_of_roomy height hroomy hfill

/-- The peer asks for a PATH_RESPONSE. -/
def challengeOps : List Op :=
  handshakeOps ++ [oneRttDatagram 2 0 (0x1a :: [1, 2, 3, 4, 5, 6, 7, 8])]

def challenged : Connection := (run Op.step newConnection challengeOps).getD newConnection

theorem owed_frames_are_written_or_kept_challenged :
    run Op.step newConnection challengeOps = some challenged ∧
    challenged.pathResponse = some [1, 2, 3, 4, 5, 6, 7, 8] ∧
    ∃ filled c', challenged.fillPayload .data 3 1000 false = (.ok filled, c') ∧
      c'.pathResponse = none ∧ ∃ ws, challenged.Honours .data 3 1000 filled c' ws := by
  have hrun : run Op.step newConnection challengeOps = some challenged := by decide +kernel
  refine ⟨hrun, by decide +kernel, ?_⟩
  have hok : (challenged.fillPayload .data 3 1000 false).1.toOption.isSome = true := by
    decide +kernel
  rcases hfill : challenged.fillPayload .data 3 1000 false with ⟨_ | filled, c'⟩
  · rw [hfill] at hok
    cases hok
  · refine ⟨filled, c', rfl, ?_, (owed_frames_are_written_or_kept hrun hfill).mpr ⟨?_, ?_⟩⟩
    · rw [show c' = (challenged.fillPayload .data 3 1000 false).2 by rw [hfill]]
      decide +kernel
    · decide +kernel
    · intro _ close hclose
      exact absurd hclose (by rw [show challenged.closePending = none by decide +kernel]; simp)

/-- Nine bytes are room for the frame, and not for it to be written: it is gone, and the payload
is empty. -/
theorem path_response_dropped :
    run Op.step newConnection challengeOps = some challenged ∧
    challenged.pathResponse = some [1, 2, 3, 4, 5, 6, 7, 8] ∧
    ∃ filled c', challenged.fillPayload .data 3 9 false = (.ok filled, c') ∧
      c'.pathResponse = none ∧ filled.out = [] ∧
      ¬ ∃ ws, challenged.Honours .data 3 9 filled c' ws := by
  have hdata : challenged.pathResponse = some [1, 2, 3, 4, 5, 6, 7, 8] := by decide +kernel
  have hout : (challenged.fillPayload .data 3 9 false).1.toOption.map Filled.out = some [] := by
    decide +kernel
  have hgone : (challenged.fillPayload .data 3 9 false).2.pathResponse = none := by decide +kernel
  refine ⟨by decide +kernel, hdata, ?_⟩
  rcases hfill : challenged.fillPayload .data 3 9 false with ⟨_ | filled, c'⟩
  all_goals rw [hfill] at hout hgone
  · cases hout
  · refine ⟨filled, c', rfl, hgone, Option.some.inj hout, ?_⟩
    rintro ⟨ws, hws⟩
    exact not_honours_of_crowded hdata (Nat.sub_le _ _) hfill hws

end Shb.Quic
