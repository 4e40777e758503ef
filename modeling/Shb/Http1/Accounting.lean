import Shb.Lib.Run
import Shb.Lib.Sums
import Shb.Http1.Worker

/-!
# Every HTTP/1.1 request is accounted for

A connection has at most one request, and `active` says that it still owes the answer:

`started = completed + errors + active connections`.

A failed connect is charged without a look at `active`. That is sound because a socket is
opened for a request that is waiting for it, so a connection that is still connecting owes
one (`Conn.Ok`).
-/

namespace Shb.Http1

open Lib

variable {cfg : Config} {c c' : Conn} {stats stats' : Stats}

/-- What the connection still owes. -/
def Conn.owed (c : Conn) : Nat := c.active.toNat

/-- A socket is opened for a request. -/
def Conn.Ok (c : Conn) : Prop := c.fd = true → c.connected = false → c.active = true

/-! ## One connection -/

namespace Conn

variable (c)

@[simp] theorem owed_beginRequest (timeout : Option Nat) (now : Nat) :
    (c.beginRequest timeout now).owed = 1 := rfl

/-- What concerns a request and its socket, without the bytes of either. -/
def standing : Bool × Bool × Bool := (c.fd, c.connected, c.active)

@[simp] theorem standing_markSent (now : Nat) : (c.markSent now).standing = c.standing := by
  unfold markSent
  split <;> rfl

@[simp] theorem standing_queueRequest : c.queueRequest.standing = c.standing := by
  unfold queueRequest
  repeat' split
  all_goals rfl

@[simp] theorem standing_submitTlsOutput (tls : TlsSession) (now : Nat) :
    (c.submitTlsOutput tls now).standing = c.standing := by
  unfold submitTlsOutput
  split
  · rfl
  · dsimp only
    split
    · rfl
    · exact standing_markSent c now

@[simp] theorem standing_flush (request sealed : Bytes) (now : Nat) :
    (c.flush request sealed now).standing = c.standing := by
  unfold flush
  split
  · rfl
  split
  · rw [standing_submitTlsOutput]
    rfl
  split
  · exact standing_markSent c now
  · rfl

@[simp] theorem standing_queueAndFlushRequest (request sealed : Bytes) (now : Nat) :
    (c.queueAndFlushRequest request sealed now).standing = c.standing := by
  unfold queueAndFlushRequest
  split
  · rw [standing_submitTlsOutput]
    rfl
  · rw [standing_flush, standing_queueRequest]

variable {c}

theorem owed_of_standing (h : c'.standing = c.standing) : c'.owed = c.owed :=
  congrArg (fun s => s.2.2.toNat) h

theorem Ok.of_standing (h : c'.standing = c.standing) (hc : c.Ok) : c'.Ok := by
  simp only [standing, Prod.mk.injEq] at h
  obtain ⟨hfd, hcon, ha⟩ := h
  unfold Conn.Ok
  rw [hfd, hcon, ha]
  exact hc

theorem Ok.of_active (h : c.active = true) : c.Ok := fun _ _ => h

theorem Ok.of_connected (h : c.connected = true) : c.Ok :=
  fun _ hnot => absurd (h.symm.trans hnot) (by simp)

theorem Ok.close (c : Conn) : c.close.Ok := fun h => absurd h (by simp [Conn.close])

/-- A connection is settled if its request, if it had one, has been counted. -/
theorem failRequest_spec (c : Conn) (stats : Stats) :
    (c.failRequest stats).1.owed = 0 ∧
      (c.failRequest stats).2.finished = stats.finished + c.owed := by
  unfold failRequest owed
  cases ha : c.active with
  | true => exact ⟨rfl, rfl⟩
  | false => exact ⟨by simp [ha], rfl⟩

theorem finishAtEof_spec (c : Conn) (stats : Stats) :
    (c.finishAtEof stats).2.finished = stats.finished + c.owed := by
  unfold finishAtEof owed
  cases ha : c.active with
  | true =>
    simp only [Bool.not_true, Bool.false_eq_true, if_false]
    split
    · simp only [Stats.finished, Stats.recordSuccess, Bool.toNat_true]
      omega
    · rfl
  | false => rfl

end Conn

/-! ## The worker -/

namespace Worker

/-- Every connection is well formed, and every started request is accounted for. -/
structure Inv (cfg : Config) (w : Worker) : Prop where
  conns : ∀ c ∈ w.conns, c.Ok
  balance : w.started = w.stats.finished + sumOf Conn.owed w.conns
  covers : cfg.budget.Covers w.started

variable {w w' : Worker} {i now : Nat} {sealed : Bytes} {reconnects : Bool}

section

variable (h : w.Inv cfg)
include h

/-- Whether the loop goes on is not in the books. -/
theorem Inv.of_eq (hc : w'.conns = w.conns) (hs : w'.stats = w.stats)
    (hn : w'.started = w.started) : w'.Inv cfg := by
  refine ⟨hc ▸ h.conns, ?_, hn ▸ h.covers⟩
  rw [hn, hs, hc]
  exact h.balance

theorem Inv.put (hi : w.conns[i]? = some c) (hc : c'.Ok) (hconns : w'.conns = w.conns.set i c')
    (hbal : w'.started + w.stats.finished + c.owed = w.started + w'.stats.finished + c'.owed)
    (hcov : cfg.budget.Covers w'.started) : w'.Inv cfg := by
  refine ⟨hconns ▸ forall_mem_set h.conns hc, ?_, hcov⟩
  have hsum := sumOf_set Conn.owed hi c'
  have hall := h.balance
  rw [hconns]
  omega

theorem Inv.keep (hi : w.conns[i]? = some c) (hs : c'.standing = c.standing) :
    (w.set i c' w.stats).Inv cfg := by
  have hc := h.conns c (List.mem_of_getElem? hi)
  refine h.put hi (hc.of_standing hs) rfl ?_ h.covers
  rw [Conn.owed_of_standing hs]
  rfl

/-- A socket is opened for a request that was just started. -/
theorem reconnect_inv (hi : w.conns[i]? = some c) (ha : c'.active = true)
    (hdone : stats.finished = w.stats.finished + c.owed)
    (hmay : cfg.budget.mayStart w.started = true) :
    ({ w with started := w.started + 1 }.reconnect i c' stats reconnects).Inv cfg := by
  have howed : ∀ d : Conn, d.active = true → d.owed = 1 := fun d hd => by simp [Conn.owed, hd]
  have hbal : ∀ d : Conn, d.active = true →
      w.started + 1 + w.stats.finished + c.owed = w.started + stats.finished + d.owed := by
    intro d hd
    rw [howed d hd]
    omega
  unfold reconnect
  split
  · have hok : ({ c' with fd := true } : Conn).Ok := Conn.Ok.of_active ha
    exact h.put hi hok rfl (hbal { c' with fd := true } ha) (Budget.covers_of_mayStart hmay)
  · exact h.put hi (Conn.Ok.of_active ha) rfl (hbal c' ha) (Budget.covers_of_mayStart hmay)

/-- A request has ended and was counted: the next one begins, or the connection idles. -/
theorem requestFinished_inv (hi : w.conns[i]? = some c) {keep : Bool}
    (hdone : stats.finished = w.stats.finished + c.owed)
    (hkeep : keep = true → c'.connected = true) :
    (w.requestFinished cfg i c' stats keep now sealed reconnects).Inv cfg := by
  unfold requestFinished
  split
  · rename_i hgo
    have hmay : cfg.budget.mayStart w.started = true := (Bool.and_eq_true_iff.mp hgo).2
    split
    · have hs := Conn.standing_queueAndFlushRequest (c'.endRequest.beginRequest cfg.timeout now)
        cfg.requestBytes sealed now
      have howed := Conn.owed_of_standing hs
      refine h.put hi (Conn.Ok.of_standing hs (Conn.Ok.of_active rfl)) rfl ?_
        (Budget.covers_of_mayStart hmay)
      rw [howed, Conn.owed_beginRequest]
      show w.started + 1 + w.stats.finished + c.owed = w.started + stats.finished + 1
      omega
    · exact reconnect_inv h hi rfl hdone hmay
  · have howed : (if keep = true then c'.endRequest else c'.endRequest.close).owed = 0 := by
      split <;> rfl
    refine h.put hi ?_ rfl ?_ h.covers
    · split
      · rename_i hk
        exact Conn.Ok.of_connected (hkeep hk)
      · exact Conn.Ok.close _
    · rw [howed]
      show w.started + w.stats.finished + c.owed = w.started + stats.finished + 0
      omega

theorem onCheck_inv (hi : w.conns[i]? = some c) : (w.onCheck cfg i c now reconnects).Inv cfg := by
  obtain ⟨hzero, hdone⟩ := c.failRequest_spec w.stats
  unfold onCheck
  split
  · exact h
  dsimp only
  split
  · refine h.put hi (fun hfd => absurd hfd (by simp [Conn.close])) rfl ?_ h.covers
    show w.started + w.stats.finished + c.owed =
      w.started + (c.failRequest w.stats).2.finished + (c.failRequest w.stats).1.owed
    omega
  · rename_i hgo
    have hmay : cfg.budget.mayStart w.started = true := by
      by_contra hnot
      exact hgo (by simp [hnot])
    exact reconnect_inv h hi rfl hdone hmay

theorem onConnect_inv (hi : w.conns[i]? = some c) (hfd : c.fd = true) (hnot : c.connected = false)
    (ok : Bool) : (w.onConnect cfg i c now ok sealed reconnects).Inv cfg := by
  have ha : c.owed = 1 := by
    simp [Conn.owed, h.conns c (List.mem_of_getElem? hi) hfd hnot]
  unfold onConnect
  split
  · refine requestFinished_inv h hi ?_ fun hk => absurd hk (by simp)
    rw [ha]
    rfl
  · have hs := Conn.standing_queueAndFlushRequest
      (({ c with connected := true
                 tls :=
                   if cfg.tls then some { handshaking := true, peerClosed := false } else none } :
        Conn).beginRequest cfg.timeout now) cfg.requestBytes sealed now
    refine h.put hi (Conn.Ok.of_standing hs (Conn.Ok.of_active rfl)) rfl ?_ h.covers
    rw [Conn.owed_of_standing hs, Conn.owed_beginRequest, ha]
    rfl

/-- A request that fails, on a connection that is lost with it. -/
theorem fail_inv (hi : w.conns[i]? = some c) (ho : c'.owed = c.owed) :
    (w.requestFinished cfg i (c'.failRequest w.stats).1 (c'.failRequest w.stats).2 false now sealed
      reconnects).Inv cfg := by
  refine requestFinished_inv h hi ?_ fun hk => absurd hk (by simp)
  rw [(c'.failRequest_spec w.stats).2, ho]

theorem eof_inv (hi : w.conns[i]? = some c) (ho : c'.owed = c.owed) :
    (w.requestFinished cfg i (c'.finishAtEof w.stats).1 (c'.finishAtEof w.stats).2 false now sealed
      reconnects).Inv cfg := by
  refine requestFinished_inv h hi ?_ fun hk => absurd hk (by simp)
  rw [c'.finishAtEof_spec w.stats, ho]

theorem onSend_inv (hi : w.conns[i]? = some c) (result : Sent) :
    (w.onSend cfg i c now result sealed reconnects).Inv cfg := by
  cases result with
  | failed => exact fail_inv h hi rfl
  | bytes n =>
    unfold onSend
    dsimp only
    split
    · exact h.keep hi rfl
    · refine h.keep hi ?_
      rw [Conn.standing_flush]
      split <;> rfl

theorem onFed_inv (hi : w.conns[i]? = some c) (hcon : c.connected = true)
    (parser : Parser) (tls : Option TlsSession) (done : Option Nat) :
    (w.onFed cfg i { c with parser := parser, tls := tls } done now sealed reconnects).Inv cfg := by
  unfold onFed
  split
  · exact fail_inv h hi rfl
  · split
    · exact eof_inv h hi rfl
    · refine h.keep hi ?_
      rw [Conn.standing_flush]
      rfl
  · refine requestFinished_inv h hi ?_ fun _ => hcon
    unfold Conn.owed
    cases c.active with
    | true =>
      simp only [if_true, Stats.finished, Stats.recordSuccess, Bool.toNat_true]
      omega
    | false => rfl

theorem onRecv_inv (hi : w.conns[i]? = some c) (hcon : c.connected = true)
    {r : Recv} (hs : w.onRecv cfg i c now r sealed reconnects = some w') : w'.Inv cfg := by
  unfold onRecv at hs
  split at hs
  · cases hs
    exact h
  · cases hs
    exact fail_inv h hi rfl
  · cases hs
    exact eof_inv h hi rfl
  · cases hs
    exact onFed_inv h hi hcon _ c.tls _
  · cases hs
    exact onFed_inv h hi hcon _ _ _
  · exact absurd hs (by simp)

theorem step_inv {e : Ev} (hs : w.step cfg e = some w') : w'.Inv cfg := by
  unfold step at hs
  split at hs
  · exact absurd hs (by simp)
  cases e with
  | turn shutdown | fault => cases hs; exact h.of_eq rfl rfl rfl
  | deadline =>
    simp only at hs
    split at hs
    · cases hs; exact h.of_eq rfl rfl rfl
    · exact absurd hs (by simp)
  | check i now reconnects =>
    simp only at hs
    split at hs
    · rename_i hi
      cases hs
      exact onCheck_inv h hi
    · exact absurd hs (by simp)
  | connect i generation now ok sealed reconnects =>
    simp only at hs
    split at hs
    · exact absurd hs (by simp)
    · rename_i hi
      split at hs
      · cases hs; exact h
      · split at hs
        · rename_i hcon
          cases hs
          simp only [Bool.and_eq_true, Bool.not_eq_true'] at hcon
          exact onConnect_inv h hi hcon.1 hcon.2 ok
        · exact absurd hs (by simp)
  | send i generation now result sealed reconnects =>
    simp only at hs
    split at hs
    · exact absurd hs (by simp)
    · rename_i hi
      split at hs
      · cases hs; exact h
      · split at hs
        · cases hs
          exact onSend_inv h hi result
        · exact absurd hs (by simp)
  | recv i generation now r sealed reconnects =>
    simp only at hs
    split at hs
    · exact absurd hs (by simp)
    · rename_i hi
      split at hs
      · cases hs; exact h
      · split at hs
        · rename_i hcon
          exact onRecv_inv h hi hcon hs
        · exact absurd hs (by simp)

end

theorem init_inv (cfg : Config) (now : Nat) : (init cfg now).Inv cfg := by
  have hsum : ∀ l : List Nat, sumOf Conn.owed (l.map fun i =>
      if cfg.budget.mayStart i then
        { ({ Conn.new now with parser := Parser.new.setHeadRequest cfg.isHead } :
          Conn).beginRequest cfg.timeout now with fd := true }
      else { Conn.new now with parser := Parser.new.setHeadRequest cfg.isHead }) =
      (l.filter fun i => cfg.budget.mayStart i).length := by
    intro l
    induction l with
    | nil => rfl
    | cons i l ih =>
      rw [List.map_cons, sumOf_cons, ih, List.filter_cons]
      split
      · simp only [List.length_cons, Conn.owed, Conn.beginRequest, Bool.toNat_true]
        omega
      · simp only [Conn.owed, Conn.new, Bool.toNat_false, Nat.zero_add]
  refine ⟨fun c hc => ?_, ?_, ?_⟩
  · simp only [init, List.mem_map] at hc
    obtain ⟨i, _, rfl⟩ := hc
    split
    · exact Conn.Ok.of_active rfl
    · exact fun hfd => absurd hfd (by simp [Conn.new])
  · show _ = 0 + 0 + _
    rw [Nat.zero_add]
    exact (hsum (List.range cfg.connections)).symm
  · exact cfg.budget.covers_opening cfg.connections

end Worker

end Shb.Http1
