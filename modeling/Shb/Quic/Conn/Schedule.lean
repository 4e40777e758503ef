import Shb.Quic.Conn.Board
import Shb.Quic.Conn.Elsewhere
import Shb.Quic.Conn.Turns

/-!
# The board is exact in every run

Each function that touches request streams makes moves on the board; the rest of the
connection leaves it alone. A packet that is built lets the streams at the head of the queue
have their turns, and between a turn's end and the decision about another one the stream is
due.
-/

namespace Shb.Quic

open Lib

namespace Connection

variable {polled : List Event} {c : Connection}

/-- The bookkeeping of request streams is exact. -/
def Exact (polled : List Event) (c : Connection) : Prop := (c.board polled).Exact none

variable {d : Connection} {id : Nat} {s : SendStream}

theorem Exact.of_eq (h : c.Exact polled) (hd : d.board polled = c.board polled) :
    d.Exact polled := by
  unfold Exact
  rw [hd]
  exact h

/-! ## What leaves the board alone -/

variable (c)

@[simp] theorem board_modifySpace (sp : Space) (f : SpaceState → SpaceState) :
    (c.modifySpace sp f).board polled = c.board polled := rfl

@[simp] theorem board_wake : c.wake.board polled = c.board polled := rfl

@[simp] theorem board_discardSpace (sp : Space) :
    (c.discardSpace sp).board polled = c.board polled := rfl

@[simp] theorem board_countReceived (new : Nat) :
    (c.countReceived new).board polled = c.board polled := rfl

@[simp] theorem board_queueReset (id error finalSize : Nat) :
    (c.queueReset id error finalSize).board polled = c.board polled := rfl

@[simp] theorem board_queueCredit (id : Nat) :
    (c.queueCredit id).board polled = c.board polled := by
  unfold queueCredit
  split <;> rfl

/-- An event is a report if it says that a stream has finished. -/
theorem board_pushEvent (e : Event) :
    (c.pushEvent e).board polled = { c.board polled with
      reported := (c.board polled).reported ++ finishedIds [e] } := by
  simp only [board, pushEvent, finishedIds, ← List.append_assoc, List.filterMap_append]
  rfl

theorem board_pushEvent_other {e : Event} (he : finishedIds [e] = []) :
    (c.pushEvent e).board polled = c.board polled := by
  rw [board_pushEvent, he, List.append_nil]

variable {c}

theorem Elsewhere.board (h : Elsewhere c d) : d.board polled = c.board polled := by
  obtain ⟨es, hes, hnone⟩ := h.events
  have hreported : finishedIds (polled ++ d.events) = finishedIds (polled ++ c.events) := by
    have hquiet : finishedIds es = [] := by
      refine List.filterMap_eq_nil_iff.mpr fun e he => ?_
      cases e with
      | finished id reset => exact absurd he (hnone id reset)
      | _ => rfl
    rw [hes, ← List.append_assoc, finishedIds, List.filterMap_append]
    exact (congrArg _ hquiet).trans (List.append_nil _)
  unfold Connection.board
  rw [hreported, h.same]
  rfl

theorem handshaking_exact : Handshaking fun c d => c.Exact polled → d.Exact polled :=
  ⟨.keeps _, fun he h => h.of_eq he.board, fun _ _ h => h⟩

@[simp] theorem board_pushReadable (c : Connection) (id : Nat) :
    (c.pushReadable id).board polled = c.board polled := by
  unfold pushReadable
  split
  · rfl
  · exact board_pushEvent_other c rfl

/-! ## One stream -/

/-- A change of a send half, which may leave the stream due a place in the queue. -/
theorem Exact.modifySend_due (h : c.Exact polled) (id : Nat) (f : SendStream → SendStream) :
    ((c.modifySend id f).board polled).Exact (some id) := by
  unfold modifySend
  split
  · rename_i i hi
    cases hp : c.pairAt i with
    | none =>
      rw [modifyPair_none hp]
      exact h.owe id
    | some pair =>
      rw [board_modifyPair_same hi hp rfl]
      exact (Board.Exact.owe h id).change (pair_of_pairAt hi hp) rfl rfl Or.inl fun _ => Or.inr rfl
  · exact Board.Exact.owe h id

/-- `queue_send` gives the due stream its place. -/
theorem exact_queueSend (h : (c.board polled).Exact (some id)) : (c.queueSend id).Exact polled := by
  unfold queueSend
  split
  · rename_i hi
    exact h.settled fun p hp => by rw [pair_eq_none (Or.inl hi)] at hp; cases hp
  · rename_i i hi
    split
    · rename_i hp
      exact h.settled fun p hp' => by rw [pair_eq_none (Or.inr ⟨i, hi, hp⟩)] at hp'; cases hp'
    · rename_i pair hp
      have hpair : (c.board polled).pair id = some pair := pair_of_pairAt hi hp
      cases hq : pair.queued with
      | true =>
        refine h.settled fun p hp' _ => ?_
        cases hpair.symm.trans hp'
        exact hq
      | false =>
        have hqueue : ({ c.modifyPair i fun pair => { pair with queued := true } with
            sendQueue := c.sendQueue ++ [id] } : Connection).board polled =
            { (c.modifyPair i fun pair => { pair with queued := true }).board polled with
              queue := (c.board polled).queue ++ [id] } := rfl
        unfold Exact
        rw [if_neg (by simp), hqueue, board_modifyPair_same hi hp rfl]
        exact h.enqueue hpair hq rfl rfl Or.inl

/-- A change of a send half that leaves it nothing more to send than before. -/
theorem Exact.modifySend (h : c.Exact polled) (id : Nat) {f : SendStream → SendStream}
    (hf : ∀ s, (f s).hasPending = true → s.hasPending = true) :
    (c.modifySend id f).Exact polled := by
  unfold Connection.modifySend
  split
  · rename_i i hi
    cases hp : c.pairAt i with
    | none =>
      rw [modifyPair_none hp]
      exact h
    | some pair =>
      unfold Exact
      rw [board_modifyPair_same hi hp rfl]
      exact Board.Exact.change h (pair_of_pairAt hi hp) rfl rfl Or.inl fun hw => Or.inl (hf _ hw)
  · exact h

theorem Exact.modifyRecv (h : c.Exact polled) (id : Nat) (f : RecvStream → RecvStream) :
    (c.modifyRecv id f).Exact polled := by
  unfold Connection.modifyRecv
  split
  · rename_i i hi
    cases hp : c.pairAt i with
    | none =>
      rw [modifyPair_none hp]
      exact h
    | some pair =>
      unfold Exact
      rw [board_modifyPair_same hi hp rfl]
      exact Board.Exact.change h (pair_of_pairAt hi hp) rfl rfl Or.inl Or.inl
  · exact h

theorem Exact.settle (h : c.Exact polled) (id : Nat) : (c.settle id).Exact polled := by
  cases hi : c.streamIndex id with
  | none =>
    unfold Connection.settle
    rw [hi]
    exact h
  | some i =>
    cases hp : c.pairAt i with
    | none =>
      unfold Connection.settle
      simp only [hi, hp, Option.any_none]
      exact h
    | some pair =>
      cases hdone : pair.retired && pair.send.isSettled with
      | false =>
        unfold Connection.settle
        simp only [hi, hp, Option.any_some, hdone]
        exact h
      | true =>
        have hret : pair.retired = true := (Bool.and_eq_true_iff.mp hdone).1
        unfold Exact
        rw [board_settle hi hp (Board.Tracked.retired h.toTracked
          (pair_of_pairAt hi hp) hret) hdone]
        exact Board.Exact.gone h id

/-- A RESET_STREAM takes the place of what there was to send. -/
theorem hasPending_reset (s : SendStream) : s.reset.2.hasPending = false := rfl

/-- Nothing to send: no lost range, every byte sent, and the FIN if there is one. -/
theorem hasPending_eq_false (hreset : s.wasReset = false) :
    s.hasPending = false ↔
      s.lost = [] ∧ s.buf.length - s.bufStart ≤ s.sent ∧ (s.fin = true → s.finSent = true) := by
  unfold SendStream.hasPending
  rw [hreset]
  simp [and_assoc]

theorem hasPending_release {drop : Nat} (hreset : s.wasReset = false)
    (hdrop : drop ≤ s.buf.length - s.bufStart) (h : s.hasPending = false) :
    (s.release drop).hasPending = false := by
  obtain ⟨hlost, hsent, hfin⟩ := (hasPending_eq_false hreset).mp h
  refine (hasPending_eq_false (s := s.release drop) hreset).mpr ⟨?_, ?_, hfin⟩
  · simp [SendStream.release, hlost]
  · simp only [SendStream.release]
    split
    · exact Nat.zero_le _
    · omega

/-- What the peer has acknowledged needs no sending. -/
theorem hasPending_onAcked {offset len : Nat} {fin : Bool} (h : s.hasPending = false) :
    (s.onAcked offset len fin).hasPending = false := by
  unfold SendStream.onAcked
  split
  · exact h
  rename_i hreset
  rw [Bool.not_eq_true] at hreset
  simp only
  generalize hs₁ : (if fin then { s with finAcked := true, finSent := true } else s) = s₁
  have h₁ : s₁.hasPending = false ∧ s₁.wasReset = false := by
    rw [← hs₁]
    split
    · obtain ⟨hlost, hsent, -⟩ := (hasPending_eq_false hreset).mp h
      have hnone := (hasPending_eq_false
        (s := { s with finAcked := true, finSent := true }) hreset).mpr
        ⟨hlost, hsent, fun _ => rfl⟩
      exact ⟨hnone, hreset⟩
    · exact ⟨h, hreset⟩
  split
  · exact h₁.1
  split
  · exact hasPending_release (s := { s₁ with acked := _ }) h₁.2 (Nat.min_le_right _ _) h₁.1
  · obtain ⟨hlost, hsent, hfin⟩ := (hasPending_eq_false h₁.2).mp h₁.1
    refine (hasPending_eq_false (s := SendStream.acknowledgeLost
      { s₁ with acked := _ } _ _) h₁.2).mpr
      ⟨?_, hsent, hfin⟩
    simp [SendStream.acknowledgeLost, hlost, SendStream.sortRanges]

theorem Exact.retire (h : c.Exact polled) (id cancel : Nat) :
    (c.retire id cancel).Exact polled := by
  unfold Connection.retire
  split
  · exact h
  rename_i i hi
  split
  · exact h
  rename_i pair hp
  have hpair : (c.board polled).pair id = some pair := pair_of_pairAt hi hp
  simp only
  refine Exact.settle ?_ id
  -- the stream is marked, whether it had been or not
  generalize hd : (if pair.finished then c else c.countAnswered).modifyPair i
    (fun pair => { pair with finished := true, retired := true }) = d
  have hmarked : d.Exact polled := by
    rw [← hd]
    unfold Exact
    cases hf : pair.finished with
    | true =>
      rw [if_pos rfl, board_modifyPair_same hi hp (by simp [hf])]
      exact Board.Exact.change h hpair rfl (by simp [hf]) (fun _ => Or.inr hf) Or.inl
    | false =>
      have hcount : c.countAnswered.board polled = { c.board polled with
        unanswered := (c.board polled).unanswered - 1 } := rfl
      rw [if_neg (by simp), board_modifyPair_marked (c := c.countAnswered) hi hp hf rfl, hcount]
      have hnew := Board.Exact.answered h hpair hf
        (r := { pair with finished := true, retired := true }) rfl rfl Or.inl (Or.inl rfl)
      simpa only [List.append_nil] using hnew
  have hi' : d.streamIndex id = some i := by
    rw [← hd, streamIndex_modifyPair]
    split <;> exact hi
  split
  · cases hp' : d.pairAt i with
    | none =>
      rw [modifyPair_none hp']
      exact hmarked
    | some pair' =>
      unfold Exact
      rw [board_queueReset, board_modifyPair_same hi' hp' rfl]
      exact Board.Exact.change hmarked (pair_of_pairAt hi' hp') rfl rfl Or.inl
        fun hw => by rw [hasPending_reset] at hw; cases hw
  · exact hmarked

/-- Of what is reported of a stream only the end of its response counts. -/
theorem board_reported {done : Bool} {d : Connection} (h : Reported id done c d) :
    d.board polled = if done then { c.board polled with
      unanswered := (c.board polled).unanswered - 1
      reported := (c.board polled).reported ++ [id] } else c.board polled := by
  cases h with
  | data readable =>
    unfold report
    cases done
    · simp only [Bool.false_eq_true, if_false]
      split
      · exact board_pushReadable c id
      · rfl
    · simp only [if_true]
      rw [board_pushEvent]
      split
      · rw [board_pushReadable]
        rfl
      · rfl
  | reset error =>
    cases done
    · rfl
    · simp only [if_true]
      rw [board_pushEvent]
      rfl

section

variable (h : c.Exact polled)
include h

/-- What arrives for a request stream may end the response. -/
theorem Exact.arrives {why : Prop} {stop : Nat}
    {r : Except Fault Unit × Connection} (ha : Arrives why c id stop r) : r.2.Exact polled := by
  cases ha with
  | refused | dropped => exact h
  | @request _ pair r _ done hi hp hr hdone hd =>
    have hpair : (c.board polled).pair id = some pair := pair_of_pairAt hi hp
    unfold Exact
    rw [board_countReceived, board_reported hd]
    cases done with
    | false =>
      rw [if_neg (by simp), board_modifyPair_same hi hp (by simp)]
      exact Board.Exact.change h hpair rfl (by simp) Or.inl Or.inl
    | true =>
      rw [if_pos rfl, board_modifyPair_marked hi hp (hdone rfl) (f := fun pair =>
        { pair with recv := r, finished := pair.finished || true }) (Bool.or_true _)]
      exact Board.Exact.answered h hpair (hdone rfl)
        (r := { pair with recv := r, finished := pair.finished || true }) (Bool.or_true _) rfl
        Or.inl (Or.inr rfl)
  | peer readable =>
    unfold Exact
    rw [board_countReceived, board_reported (.data readable)]
    exact h
  | opened readable =>
    unfold Exact
    rw [board_countReceived, board_reported (.data readable), if_neg (by simp),
      board_pushEvent_other _ rfl]
    exact h

/-! ## What the worker does -/

theorem Exact.ring : c.baseStream + c.streams.length = c.nextBidi :=
  Board.Tracked.ring h.toTracked

theorem Exact.push {p : StreamPair} (hstreams : d.streams = c.streams ++ [some p])
    (hbase : d.baseStream = c.baseStream) (hnext : d.nextBidi = c.nextBidi + 1)
    (hunanswered : d.unanswered = c.unanswered + 1) (hqueue : d.sendQueue = c.sendQueue)
    (hevents : d.events = c.events) (hf : p.finished = false) (hr : p.retired = false)
    (hq : p.queued = false) (hw : p.send.hasPending = false) : d.Exact polled := by
  unfold Exact
  rw [board_push h.ring hf hstreams hbase hnext hunanswered hqueue hevents]
  exact Board.Exact.opened h (Nat.mul_div_cancel_left _ (by decide)) hr hq hw

theorem Exact.openBi : c.openBi.2.Exact polled := by
  unfold Connection.openBi
  split
  · exact h
  · exact h.push rfl rfl rfl rfl rfl rfl rfl rfl rfl rfl

/-- The stream that was opened is the last of the ring, and not in the queue. -/
theorem openBi_last (hopen : c.openBi = (some id, d)) :
    d.streamIndex id = some (d.streams.length - 1) ∧
      ∃ pair, d.pairAt (d.streams.length - 1) = some pair ∧ pair.queued = false := by
  have hlast : ∃ pair, d.streams = c.streams ++ [some pair] ∧ pair.queued = false ∧
      d.baseStream = c.baseStream ∧ id = 4 * c.nextBidi := by
    unfold Connection.openBi at hopen
    split at hopen
    · simp at hopen
    · cases hopen
      exact ⟨_, rfl, rfl, rfl, Nat.mul_comm _ _⟩
  obtain ⟨pair, hstreams, hq, hbase, rfl⟩ := hlast
  have hring := h.ring
  have hlen : d.streams.length - 1 = c.streams.length := by simp [hstreams]
  rw [hlen]
  refine ⟨streamIndex_eq_some.mpr ⟨?_, by simp [hstreams]⟩, pair, by simp [pairAt, hstreams], hq⟩
  rw [hbase, hring]

theorem Exact.sendOneshot (data : Bytes) : (c.sendOneshot data).2.Exact polled := by
  unfold Connection.sendOneshot
  have hopen := h.openBi
  split
  · rename_i heq
    rw [heq] at hopen
    exact hopen
  · rename_i id d heq
    rw [heq] at hopen
    obtain ⟨hi, pair, hp, hq⟩ := openBi_last h heq
    have hi' : d.wake.streamIndex id = some (d.wake.streams.length - 1) := hi
    have hp' : d.wake.pairAt (d.wake.streams.length - 1) = some pair := hp
    have hwake : d.wake.Exact polled := hopen
    generalize d.wake = d at hi' hp' hwake
    simp only
    rw [hp']
    simp only
    generalize (if (pair.send.write data).1 = data.length then _ else _ : SendStream) = send
    unfold Exact
    have hqueue : ({ d.modifyPair (d.streams.length - 1) fun pair =>
        { pair with send := send, queued := true } with
        sendQueue := d.sendQueue ++ [id] } : Connection).board polled =
        { (d.modifyPair (d.streams.length - 1) fun pair =>
            { pair with send := send, queued := true }).board polled with
          queue := (d.board polled).queue ++ [id] } := rfl
    rw [show (d.modifyPair (d.streams.length - 1) fun pair =>
      { pair with send := send, queued := true }).sendQueue = d.sendQueue from rfl, hqueue,
      board_modifyPair_same hi' hp' rfl]
    exact (Board.Exact.owe hwake id).enqueue (pair_of_pairAt hi' hp') hq rfl rfl Or.inl

theorem Exact.write (id : Nat) (data : Bytes) : (c.write id data).2.Exact polled := by
  unfold Connection.write
  have hwake : c.wake.Exact polled := h
  simp only
  split
  · exact exact_queueSend (Board.Exact.owe hwake id)
  · exact exact_queueSend (hwake.modifySend_due id _)

theorem Exact.finish (id : Nat) : (c.finish id).Exact polled :=
  exact_queueSend (Exact.modifySend_due (c := c.wake) h id _)

theorem Exact.consume {ε : Type} (id : Nat) (f : Bytes → Except ε Unit) :
    (c.consume id f).2.Exact polled := by
  unfold Connection.consume
  split
  · exact h
  · split
    · exact h
    · rename_i n recv _
      have hread := h.modifyRecv id fun _ => recv
      simp only
      unfold Exact at hread ⊢
      split
      · rwa [board_wake, board_queueCredit]
      · exact hread

/-! ## Acknowledgement and loss -/

theorem Exact.onFrameAcked (f : SentFrame) : (c.onFrameAcked f).Exact polled := by
  cases f with
  | stream id offset len fin =>
    refine (h.modifySend id fun s hs => ?_).settle id
    by_contra hnone
    rw [hasPending_onAcked (by simpa using hnone)] at hs
    cases hs
  | resetStream id error finalSize =>
    exact (h.modifySend id (f := SendStream.onResetAcked) fun s hs => hs).settle id
  | _ => exact h

theorem Exact.onFrameLost (sp : Space) (f : SentFrame) : (c.onFrameLost sp f).Exact polled := by
  cases f with
  | stream id offset len fin => exact exact_queueSend (h.modifySend_due id _)
  | maxStreamData id limit =>
    unfold Exact
    rw [Connection.onFrameLost, board_queueCredit]
    exact h
  | _ => exact h

theorem Exact.detectLost (sp : Space) (now lossDelay : Nat) :
    (c.detectLost sp now lossDelay).2.Exact polled :=
  detectLost_composes (.keeps (Exact polled)) (fun _ _ h => h) (fun h => h)
    (fun _ _ _ f _ h => h.onFrameLost sp f) (fun _ _ h => h) h

theorem Exact.onPacketAcked (sp : Space) (p : SentPacket) :
    (c.onPacketAcked sp p).Exact polled := by
  refine (Composes.keeps (Exact polled)).foldl (fun c f _ h => h.onFrameAcked f) _ ?_
  split <;> exact h

theorem Exact.onAck (sp : Space) (largest delay firstRange : Nat)
    (ranges : Bytes) (now : Nat) : (c.onAck sp largest delay firstRange ranges now).Exact polled :=
  onAck_composes (.keeps (Exact polled)) (fun hm h => h.of_eq hm.elsewhere.board) (fun h => h)
    (fun _ p _ h => h.onPacketAcked sp p) (fun _ lossDelay h => h.detectLost sp now lossDelay) h

theorem Exact.handleTimeout (now : Nat) : (c.handleTimeout now).Exact polled :=
  handleTimeout_composes (.keeps (Exact polled)) (fun he h => h.of_eq he.board)
    c (fun _ sp h => h.detectLost sp now _) h

/-! ## Frames -/

theorem Exact.onStopSending (id error : Nat) : (c.onStopSending id error).Exact polled := by
  unfold Connection.onStopSending
  split
  · exact h
  · split
    · exact h
    · unfold Exact
      rw [board_pushEvent_other _ rfl, board_queueReset]
      exact h.modifySend id fun s hs => by rw [hasPending_reset] at hs; cases hs

theorem Exact.handleFrame (sp : Space) (f : Frame) (now : Nat) :
    (c.handleFrame sp f now).2.Exact polled := by
  have harrived : ∀ (id stop : Nat) (r : Except Fault Unit × Connection), r.2.Exact polled →
      (arrived id stop r).2.Exact polled := by
    rintro id stop ⟨_ | _, d⟩ hd <;> exact hd
  cases f with
  | ack largest delay firstRange ranges count =>
    exact h.onAck sp largest delay firstRange ranges now
  | crypto offset data => exact handshaking_exact.onCrypto c sp offset data h
  | stream id offset fin data => exact harrived _ _ _ (h.arrives (onStream_arrives ..))
  | resetStream id error finalSize => exact harrived _ _ _ (h.arrives (onReset_arrives ..))
  | stopSending id error => exact h.onStopSending id error
  | maxStreamData id limit =>
    exact exact_queueSend (Exact.modifySend_due (c := c.note (.grantedStream id limit)) h id _)
  | newConnectionId seq retirePriorTo cid token =>
    exact h.of_eq (onNewConnectionId_readdressed c seq retirePriorTo cid token).elsewhere.board
  | maxStreams uni limit => cases uni <;> exact h
  | pathChallenge data =>
    simp only [Connection.handleFrame, onPathChallenge]
    split <;> exact h
  | close app error reason =>
    unfold Exact
    simp only [Connection.handleFrame, onClose, (lose_elsewhere _ _).board]
    exact h
  | _ => exact h

end

end Connection

/-! ## Sending -/

namespace Filling

open Connection

variable {polled : List Event}

variable {b : Filling}

/-- The decision about another turn. -/
theorem another_turn {id : Nat} (h : (b.conn.board polled).Exact (some id)) :
    (if b.conn.wantsTurn id then { b with conn := b.conn.queueSend id }
      else b).conn.Exact polled := by
  split
  · exact exact_queueSend h
  · rename_i hwants
    refine h.settled fun p hp hpending => absurd ?_ hwants
    unfold wantsTurn
    cases hi : b.conn.streamIndex id with
    | none =>
      rw [pair_eq_none (Or.inl hi)] at hp
      cases hp
    | some i =>
      cases hp' : b.conn.pairAt i with
      | none =>
        rw [pair_eq_none (Or.inr ⟨i, hi, hp'⟩)] at hp
        cases hp
      | some q =>
        rw [pair_of_pairAt hi hp'] at hp
        cases hp
        simpa [hp'] using hpending

/-- The stream at the head of the queue has its turn. -/
theorem streamTurn_exact (h : b.conn.Exact polled) {id : Nat} {queue : List Nat}
    (hqueue : b.conn.sendQueue = id :: queue) {i : Nat} {pair : StreamPair}
    (hi : b.conn.streamIndex id = some i) (hp : b.conn.pairAt i = some pair) (budget : Nat) :
    (streamTurn { b with conn := { b.conn with sendQueue := queue } } budget id i pair).conn.Exact
      polled := by
  have hturn : (({ b.conn with sendQueue := queue }.modifyPair i fun pair =>
      { pair with queued := false }).board polled).Exact (some id) := by
    rw [board_modifyPair_same (c := { b.conn with sendQueue := queue }) hi hp rfl]
    exact Board.Exact.dequeue (b := b.conn.board polled)
      (r := { pair with queued := false }) h hqueue
      (pair_of_pairAt hi hp) rfl rfl Or.inl
  have hi' := (streamIndex_modifyPair { b.conn with sendQueue := queue } i id
    fun pair => { pair with queued := false }).trans hi
  have hp' := pairAt_modifyPair { b.conn with sendQueue := queue } i i
    fun pair => { pair with queued := false }
  rw [if_pos rfl, show pairAt { b.conn with sendQueue := queue } i = some pair from hp] at hp'
  unfold streamTurn
  generalize ({ b.conn with sendQueue := queue }.modifyPair i fun pair =>
    { pair with queued := false }) = d at hturn hi' hp'
  simp only
  split
  · exact another_turn (b := { b with conn := d }) hturn
  · rename_i offset data fin _
    refine another_turn ?_
    have hsent := hturn.change (r := { pair with
      queued := false, send := (pair.send.onSent offset data.length fin).2 })
      (pair_of_pairAt hi' hp') rfl rfl Or.inl fun _ => Or.inr rfl
    rw [← board_modifyPair_same hi' hp' (f := fun pair' => { pair' with
      send := (pair.send.onSent offset data.length fin).2 }) rfl] at hsent
    exact hsent

theorem turn_exact {sp : Space} {budget : Nat} {b' : Filling} (hturn : b.Turn sp budget b')
    (h : b.conn.Exact polled) : b'.conn.Exact polled := by
  cases hturn with
  | answered _ _ _ =>
    unfold ping
    split <;> exact h.of_eq rfl
  | @credit id pending _ _ _ _ _ _ =>
    refine Exact.of_eq (Exact.modifyRecv (h.of_eq (d := { b.conn with creditPending := pending })
      ?_) id _) rfl
    rfl
  | skip _ hqueue hgone => exact Board.Exact.skip h hqueue (pair_eq_none hgone)
  | stream _ hqueue hi hp _ => exact streamTurn_exact h hqueue hi hp budget
  | _ => exact h.of_eq rfl

end Filling

namespace Connection

variable {polled : List Event} {c : Connection}

theorem Exact.emit (h : c.Exact polled) (sp : Space) (p : SentPacket) (now : Nat) :
    (c.emit sp p now).Exact polled := by
  unfold Connection.emit
  split
  · exact h.of_eq (by rw [(noteSent_elsewhere _ _).board, board_modifySpace])
  · exact h.of_eq (board_modifySpace ..)

theorem Exact.writePacket (h : c.Exact polled) (sp : Space) (key : Key) (now written : Nat)
    (congested : Bool) (pad : Option Nat) :
    (c.writePacket sp key now written congested pad).2.Exact polled :=
  writePacket_turns (.keeps _)
    (fun c _ congested => fillPayload_turns (.keeps (Exact polled)) (fun _ h => h.of_eq rfl)
      (fun _ h => h.of_eq rfl) Filling.turn_exact c congested)
    (fun _ p h => h.emit sp p now) c key written congested pad h

theorem Exact.pollTransmit (h : c.Exact polled) (now : Nat) (pad : Option Nat) :
    (c.pollTransmit now pad).2.Exact polled :=
  pollTransmit_invariant h (handshaking_exact.pumpLoop _ _ h)
    (fun sp key written congested pad h => h.writePacket sp key now written congested pad)
    (fun h => h.of_eq (board_discardSpace ..)) (fun h => h.of_eq (armIdle_elsewhere _ _).board) pad

/-! ## Datagrams -/

theorem Exact.handlePacket (h : c.Exact polled) (now : Nat) (p : Packet) :
    (c.handlePacket now p).2.Exact polled :=
  (handlePacket_invariant (I := Exact polled) (J := Exact polled) (Q := fun _ _ => True)
    (fun h => h) (fun _ => h.of_eq (board_modifySpace ..))
    (fun pn generation received _ _ =>
      h.of_eq (acceptPacket_elsewhere c p pn generation received).board)
    (fun h _ => h.handleFrame p.space _ now)
    (fun _ h => h.of_eq rfl) h fun _ _ => trivial).1

theorem exact_around : Around (Exact polled) :=
  Elsewhere.around (fun he h => h.of_eq he.board) fun dcid scid token tag h => by
    unfold onRetry
    repeat' split
    all_goals exact h

/-- Polling hands an event over; none is lost or repeated. -/
theorem Exact.pollEvent (h : c.Exact polled) :
    c.pollEvent.2.Exact (polled ++ c.pollEvent.1.toList) := by
  unfold Connection.pollEvent
  split
  · rwa [Option.toList_none, List.append_nil]
  · rename_i e events heq
    have hboard : board (polled ++ [e]) { c with events := events } = c.board polled := by
      simp only [board, heq, List.append_assoc, List.singleton_append]
      rfl
    unfold Exact
    rw [Option.toList_some, hboard]
    exact h

end Connection

/-! ## Runs -/

namespace Op

open Connection

/-- The event an operation hands to the worker, if it is the poll for one. -/
def polled (c : Connection) : Op → List Event
  | pollEvent => c.pollEvent.1.toList
  | _ => []

/-- An operation, with the events polled so far. -/
def stepPolled (s : Connection × List Event) (op : Op) : Option (Connection × List Event) :=
  (op.step s.1).map fun c => (c, s.2 ++ op.polled s.1)

theorem stepPolled_exact {s s' : Connection × List Event} {op : Op} (h : s.1.Exact s.2)
    (hstep : stepPolled s op = some s') : s'.1.Exact s'.2 := by
  obtain ⟨c, hc, rfl⟩ := Option.map_eq_some_iff.mp hstep
  cases op with
  | pollEvent =>
    cases hc
    exact h.pollEvent
  | transmit now pad =>
    simp only [polled, List.append_nil]
    rw [← step_transmit hc]
    exact h.pollTransmit now pad
  | datagram now d =>
    cases hc
    simp only [polled, List.append_nil]
    exact (datagram_invariant (P := fun _ => True) exact_around
      (fun h _ => h.handlePacket _ _) h now d fun _ _ => trivial).1
  | openUni =>
    cases hc
    simp only [polled, List.append_nil]
    refine h.of_eq ?_
    unfold Connection.openUni
    split <;> rfl
  | timeout now =>
    cases hc
    simpa only [polled, List.append_nil] using h.handleTimeout now
  | openBi =>
    cases hc
    simpa only [polled, List.append_nil] using h.openBi
  | sendOneshot data =>
    cases hc
    simpa only [polled, List.append_nil] using h.sendOneshot data
  | write id data =>
    cases hc
    simpa only [polled, List.append_nil] using h.write id data
  | finish id =>
    cases hc
    simpa only [polled, List.append_nil] using h.finish id
  | consume id f =>
    cases hc
    simpa only [polled, List.append_nil] using h.consume id f
  | retire id cancel =>
    cases hc
    simpa only [polled, List.append_nil] using h.retire id cancel
  | close code reason =>
    cases hc
    simpa only [polled, List.append_nil] using h.of_eq (close_elsewhere _ _ _).board

end Op

open Connection

theorem connect_exact (input : LocalParamsInput) (localCid initialDcid : ConnectionId) (tls : Tls) :
    (connect input localCid initialDcid tls).Exact [] := by
  have hpair : ∀ id, ((connect input localCid initialDcid tls).board []).pair id = none := by
    intro id
    refine pair_eq_none ?_
    cases hi : (connect input localCid initialDcid tls).streamIndex id with
    | none => exact Or.inl rfl
    | some i => exact Or.inr ⟨i, rfl, rfl⟩
  have hnone : ∀ {id p}, ((connect input localCid initialDcid tls).board []).pair id ≠ some p := by
    intro id p hp
    rw [hpair] at hp
    cases hp
  exact
    { ring := rfl
      live := fun hp => absurd hp hnone
      queued := nofun
      unanswered := rfl
      retired := fun hp => absurd hp hnone
      once := List.nodup_nil
      done := nofun
      scheduled :=
        { mem := fun hp => absurd hp hnone
          once := fun hp => absurd hp hnone
          turn := fun hp => absurd hp hnone } }

/-- The bookkeeping of request streams, wherever a run has got to: the flag of a stream says
whether it stands in the queue, once; none with something to send is left out; the ring ends at
the next id; the unanswered streams are counted; and a stream is reported as finished once. -/
theorem request_streams_scheduled {input : LocalParamsInput} {localCid initialDcid : ConnectionId}
    {tls : Tls} {ops : List Op} {c : Connection} {polled : List Event}
    (hrun : run Op.stepPolled (connect input localCid initialDcid tls, []) ops = some (c, polled)) :
    (∀ {id i pair}, c.streamIndex id = some i → c.pairAt i = some pair →
      (pair.queued = true ↔ id ∈ c.sendQueue) ∧ c.sendQueue.count id ≤ 1 ∧
      (pair.send.hasPending = true → pair.queued = true) ∧
      (pair.finished = false → 0 < c.unanswered)) ∧
    c.baseStream + c.streams.length = c.nextBidi ∧
    c.unanswered = unfinishedIn c.streams ∧
    ∀ id, (finishedIds (polled ++ c.events)).count id ≤ 1 := by
  have h : c.Exact polled := run_invariant (P := fun s : Connection × List Event => s.1.Exact s.2)
    (fun h hs => Op.stepPolled_exact h hs) (connect_exact input localCid initialDcid tls) hrun
  refine ⟨fun {id i pair} hi hp => ?_, h.ring, h.unanswered, List.nodup_iff_count_le_one.mp h.once⟩
  have hpair : (c.board polled).pair id = some pair := pair_of_pairAt hi hp
  refine ⟨h.scheduled.mem hpair, h.scheduled.once hpair, fun hpending => ?_, fun hfin => ?_⟩
  · exact (h.scheduled.turn hpair hpending).resolve_right nofun
  · rw [show c.unanswered = unfinishedIn c.streams from h.unanswered]
    exact unfinishedIn_pos (getElem?_of_pairAt hp) hfin

/-- A request on an established connection, not sent yet. -/
def asked : Connection × List Event :=
  (run Op.stepPolled (newConnection, []) (handshakeOps ++ [.sendOneshot [7], .pollEvent])).getD
    (newConnection, [])

/-- Its stream stands in the queue once, and counts as unanswered. -/
theorem request_streams_scheduled_asked :
    asked.1.pairAt 0 ≠ none ∧ 0 ∈ asked.1.sendQueue ∧ asked.1.sendQueue.count 0 ≤ 1 ∧
    0 < asked.1.unanswered := by
  obtain ⟨pair, hp⟩ : ∃ pair, asked.1.pairAt 0 = some pair :=
    Option.isSome_iff_exists.mp (by decide +kernel)
  have hpending : (asked.1.pairAt 0).any (fun p => p.send.hasPending && !p.finished) = true := by
    decide +kernel
  rw [hp, Option.any_some, Bool.and_eq_true, Bool.not_eq_true'] at hpending
  have hrun : run Op.stepPolled (newConnection, [])
      (handshakeOps ++ [.sendOneshot [7], .pollEvent]) = some asked := by decide +kernel
  have hi : asked.1.streamIndex 0 = some 0 := by decide +kernel
  obtain ⟨hmem, honce, hturn, hpos⟩ := (request_streams_scheduled hrun).1 hi hp
  exact ⟨by rw [hp]; exact Option.some_ne_none pair, hmem.mp (hturn hpending.1), honce,
    hpos hpending.2⟩

end Shb.Quic
