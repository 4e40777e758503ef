import Shb.Http1.Accounting
import Shb.Http2.Stuck
import Shb.Http3.Books

/-!
# Requests are conserved

Each of the three workers keeps the same books: what was started is completed, an error, or
still owed. What is owed differs: HTTP/1.1 has one request on a connection at a time, HTTP/2
holds what the peer gave back until the first answer, and HTTP/3 waits for a verdict.
-/

namespace Shb

open Lib

theorem Budget.Covers.le {n started : Nat} (h : (requests n).Covers started) : started ≤ n := h

theorem requests_conserved :
    (∀ (cfg : Http1.Config) (now : Nat) (es : List Http1.Ev) (w : Http1.Worker),
      run (Http1.Worker.step cfg) (Http1.Worker.init cfg now) es = some w →
      w.started = w.stats.completed + w.stats.errors + w.conns.countP (·.active) ∧
      ∀ n, cfg.budget = .requests n → w.started ≤ n ∧ w.stats.completed + w.stats.errors ≤ n) ∧
    (∀ (cfg : Http2.Config) (now : Nat) (es : List Http2.Ev) (w : Http2.Worker),
      run (Http2.Worker.step cfg) (Http2.Worker.init cfg now) es = some w →
      w.started = w.stats.completed + w.stats.errors +
        sumOf (fun c => c.streams.len + c.held) w.conns ∧
      ∀ n, cfg.budget = .requests n → w.started ≤ n ∧ w.stats.completed + w.stats.errors ≤ n) ∧
    (∀ (cfg : Http3.Config) (now : Nat) (sessions : Nat → Http3.Session) (es : List Http3.Ev)
      (w : Http3.Worker),
      run (Http3.Worker.step cfg) (Http3.Worker.init cfg now sessions) es = some w →
      w.counts.started = w.counts.stats.completed + w.counts.stats.errors +
        sumOf (fun c => c.streams.len + c.giveBacks.unjudged) w.conns ∧
      ∀ n, cfg.budget = .requests n →
        w.counts.started ≤ n ∧ w.counts.stats.completed + w.counts.stats.errors ≤ n) ∧
    (∀ n threads : Nat, 0 < threads →
      (((Budget.requests n).split threads).filterMap Budget.expectedRequests).sum = n) := by
  refine ⟨fun cfg now es w h => ?_, fun cfg now es w h => ?_, fun cfg now sessions es w h => ?_,
    Budget.sum_split⟩
  · have hinv := run_invariant (P := Http1.Worker.Inv cfg)
      (fun hw hs => Http1.Worker.step_inv hw hs) (Http1.Worker.init_inv cfg now) h
    have hbal : w.started = w.stats.finished + w.conns.countP (·.active) := by
      rw [countP_eq_sumOf]
      exact hinv.balance
    refine ⟨hbal, fun n hn => ?_⟩
    have hle : w.started ≤ n := (hn ▸ hinv.covers).le
    exact ⟨hle, Nat.le_trans (Nat.le_trans (Nat.le_add_right _ _) (Nat.le_of_eq hbal.symm)) hle⟩
  · have hinv := run_invariant (P := Http2.Worker.Inv) Http2.Worker.Inv.step
      (Http2.Worker.Inv.init cfg now) h
    have hcov := run_invariant (P := fun w => cfg.budget.Covers w.started) Http2.Worker.step_covers
      cfg.budget.covers_zero h
    refine ⟨hinv.balance, fun n hn => ?_⟩
    have hle : w.started ≤ n := (hn ▸ hcov).le
    exact ⟨hle, Nat.le_trans (Nat.le_trans (Nat.le_add_right _ _)
      (Nat.le_of_eq hinv.balance.symm)) hle⟩
  · have hinv := run_invariant (P := Http3.Worker.Inv cfg)
      (fun hw hs => Http3.Worker.step_inv hw hs) (Http3.Worker.init_inv now sessions) h
    refine ⟨hinv.balance, fun n hn => ?_⟩
    have hle := hinv.within n hn
    exact ⟨hle, Nat.le_trans (Nat.le_trans (Nat.le_add_right _ _)
      (Nat.le_of_eq hinv.balance.symm)) hle⟩

/-- One slot, two requests, and a server that refuses the first connect. -/
def refusedConfig : Http1.Config where
  tls := false
  connections := 1
  budget := .requests 2
  timeout := none
  isHead := false
  disableKeepalive := false
  requestBytes := []

def refusedRun : List Http1.Ev := [.connect 0 0 0 false [] true]

/-- Over HTTP/1.1 the failed connect is an error, and the second request is owed. Over HTTP/2 the
first of two requests was refused and is held, and the other is in flight. Over HTTP/3 the one
request was rejected. -/
theorem requests_conserved_refused :
    (∃ w, run (Http1.Worker.step refusedConfig) (Http1.Worker.init refusedConfig 0) refusedRun =
        some w ∧ w.stats.errors = 1 ∧ w.conns.countP (·.active) = 1 ∧
      w.started = w.stats.completed + w.stats.errors + w.conns.countP (·.active) ∧
        w.started ≤ 2) ∧
    (sumOf (fun c => c.streams.len + c.held) (Http2.Worker.refusedAfter 2).conns = 2 ∧
      (Http2.Worker.refusedAfter 2).started = (Http2.Worker.refusedAfter 2).stats.completed +
        (Http2.Worker.refusedAfter 2).stats.errors +
        sumOf (fun c => c.streams.len + c.held) (Http2.Worker.refusedAfter 2).conns) ∧
    Http3.rejectedEnd.counts.stats.errors = 1 ∧
      Http3.rejectedEnd.counts.started = Http3.rejectedEnd.counts.stats.completed +
        Http3.rejectedEnd.counts.stats.errors +
        sumOf (fun c => c.streams.len + c.giveBacks.unjudged) Http3.rejectedEnd.conns := by
  obtain ⟨w, hw⟩ : ∃ w, run (Http1.Worker.step refusedConfig) (Http1.Worker.init refusedConfig 0)
      refusedRun = some w := ⟨_, rfl⟩
  have h := requests_conserved.1 refusedConfig 0 refusedRun w hw
  have h₂ := requests_conserved.2.1 Http2.Worker.twoRequests 0 Http2.Worker.refusedRun
    (Http2.Worker.refusedAfter 2) (by decide +kernel)
  have h₃ := requests_conserved.2.2.1 (Http3.smallConfig 1) 0 (fun _ => Http3.smallSession 2)
    Http3.rejectedRun Http3.rejectedEnd (by decide +kernel)
  cases hw
  exact ⟨⟨_, rfl, rfl, rfl, h.1, (h.2 2 rfl).1⟩, ⟨by decide +kernel, h₂.1⟩, by decide +kernel, h₃.1⟩

end Shb
