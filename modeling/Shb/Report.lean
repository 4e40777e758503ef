import Shb.Conservation

/-!
# `main.rs`, `stats.rs` — many workers, one report

A run with `-n` divides its requests over the workers, waits for each of them, and adds up what
they hand back. Each worker conserves its requests, nothing is lost in the division, and adding up
loses nothing either: so the report is about exactly as many requests as were asked for, whichever
protocol the workers speak and however they failed (`report_totals_requests`).
-/

namespace Shb

open Lib

/-- All of `Stats`: what a worker decides by, and what only the report reads. -/
structure WorkerStats extends Stats where
  bytesReceived : Nat
  bytesSent : Nat
  latenciesNs : List Nat
  /-- One slot per three-digit status. -/
  statusCounts : Fin 1000 → Nat

namespace WorkerStats

def default : WorkerStats :=
  { Stats.zero with
    bytesReceived := 0, bytesSent := 0, latenciesNs := [], statusCounts := fun _ => 0 }

def merge (a b : WorkerStats) : WorkerStats where
  completed := a.completed + b.completed
  errors := a.errors + b.errors
  connectErrors := a.connectErrors + b.connectErrors
  bytesReceived := a.bytesReceived + b.bytesReceived
  bytesSent := a.bytesSent + b.bytesSent
  latenciesNs := a.latenciesNs ++ b.latenciesNs
  statusCounts i := a.statusCounts i + b.statusCounts i

/-- The workers' results, added up in their order; the first error is the run's. A sole worker's
result is handed on as it is. -/
def mergeWorkers {ε : Type} : List (Except ε WorkerStats) → Except ε WorkerStats
  | [result] => result
  | results => results.foldlM (fun stats result => stats.merge <$> result) default

/-- The sole worker is no exception. -/
theorem mergeWorkers_eq {ε : Type} (results : List (Except ε WorkerStats)) :
    mergeWorkers results = results.foldlM (fun stats result => stats.merge <$> result) default := by
  unfold mergeWorkers
  split
  · rename_i result
    cases result with
    | error e => rfl
    | ok s => exact congrArg Except.ok (by simp [merge, default, Stats.zero])
  · rfl

theorem mergeWorkers_ok {ε : Type} (ws : List WorkerStats) :
    mergeWorkers (ws.map (.ok (ε := ε))) = .ok (ws.foldl merge default) := by
  rw [mergeWorkers_eq]
  generalize default = s
  induction ws generalizing s with
  | nil => rfl
  | cons w ws ih => exact ih (s.merge w)

theorem finished_foldl (ws : List WorkerStats) (s : WorkerStats) :
    (ws.foldl merge s).finished = s.finished + (ws.map (·.finished)).sum := by
  induction ws generalizing s with
  | nil => rfl
  | cons w ws ih =>
    rw [List.foldl_cons, ih, List.map_cons, List.sum_cons]
    simp only [merge, Stats.finished]
    omega

end WorkerStats

/-- A worker has left its loop because its budget was met, and this is what it had counted. -/
inductive Finished (b : Budget) : Stats → Prop
  | http1 {cfg : Http1.Config} {now : Nat} {es : List Http1.Ev} {w : Http1.Worker} :
      run (Http1.Worker.step cfg) (Http1.Worker.init cfg now) es = some w → cfg.budget = b →
      b.isMet w.stats.finished = true → Finished b w.stats
  | http2 {cfg : Http2.Config} {now : Nat} {es : List Http2.Ev} {w : Http2.Worker} :
      run (Http2.Worker.step cfg) (Http2.Worker.init cfg now) es = some w → cfg.budget = b →
      b.isMet w.stats.finished = true → Finished b w.stats
  | http3 {cfg : Http3.Config} {now : Nat} {sessions : Nat → Http3.Session} {es : List Http3.Ev}
      {w : Http3.Worker} :
      run (Http3.Worker.step cfg) (Http3.Worker.init cfg now sessions) es = some w →
      cfg.budget = b → b.isMet w.counts.stats.finished = true → Finished b w.counts.stats

/-- What is started is within the budget, and the budget is met: nothing is owed any more. -/
theorem finished_eq {n started finished owed : Nat} (hle : started ≤ n)
    (hbal : started = finished + owed) (hmet : (Budget.requests n).isMet finished = true) :
    finished = n :=
  Nat.le_antisymm (Nat.le_of_add_right_le (hbal ▸ hle)) (of_decide_eq_true hmet)

theorem Finished.eq {n : Nat} {stats : Stats} (h : Finished (.requests n) stats) :
    stats.finished = n := by
  cases h with
  | http1 hrun hb hmet =>
    have hinv := run_invariant (P := Http1.Worker.Inv _) (fun hw hs => Http1.Worker.step_inv hw hs)
      (Http1.Worker.init_inv _ _) hrun
    exact finished_eq (hb ▸ hinv.covers).le hinv.balance hmet
  | http2 hrun hb hmet =>
    have hinv := run_invariant (P := Http2.Worker.Inv) Http2.Worker.Inv.step
      (Http2.Worker.Inv.init _ _) hrun
    have hcov := run_invariant (P := fun w => Budget.Covers _ w.started) Http2.Worker.step_covers
      (Budget.covers_zero _) hrun
    exact finished_eq (hb ▸ hcov).le hinv.balance hmet
  | http3 hrun hb hmet =>
    have hinv := run_invariant (P := Http3.Worker.Inv _) (fun hw hs => Http3.Worker.step_inv hw hs)
      (Http3.Worker.init_inv _ _) hrun
    exact finished_eq (hinv.within n hb) hinv.balance hmet

theorem sum_finished {bs : List Budget} {ws : List WorkerStats}
    (h : List.Forall₂ (fun b w => Finished b w.toStats) bs ws)
    (hbs : ∀ b ∈ bs, ∃ m, b = .requests m) :
    (ws.map (·.finished)).sum = (bs.filterMap Budget.expectedRequests).sum := by
  induction h with
  | nil => rfl
  | cons hw _ ih =>
    obtain ⟨m, rfl⟩ := hbs _ List.mem_cons_self
    rw [List.map_cons, List.sum_cons, hw.eq, ih fun b hb => hbs b (List.mem_cons_of_mem _ hb)]
    rfl

/-- **A counted run reports the requests it was asked for**, neither more nor fewer: divided over
any number of workers, of any protocol, each of which ends when its share is done. -/
theorem report_totals_requests {ε : Type} {n threads : Nat} {ws : List WorkerStats}
    (hthreads : 0 < threads)
    (h : List.Forall₂ (fun b w => Finished b w.toStats) ((Budget.requests n).split threads) ws) :
    ∃ s, WorkerStats.mergeWorkers (ws.map (.ok (ε := ε))) = .ok s ∧ s.completed + s.errors = n := by
  refine ⟨_, WorkerStats.mergeWorkers_ok ws, ?_⟩
  have hsum := sum_finished h (by simp [Budget.split])
  rw [Budget.sum_split n threads hthreads] at hsum
  have htotal := WorkerStats.finished_foldl ws .default
  rw [hsum] at htotal
  exact htotal.trans (Nat.zero_add n)

/-- A worker with one request and a server that refuses it. -/
def refusedOnce : WorkerStats := { WorkerStats.default with errors := 1, connectErrors := 1 }

theorem report_totals_requests_refused :
    ∃ s, WorkerStats.mergeWorkers ([refusedOnce, refusedOnce].map (.ok (ε := Unit))) = .ok s ∧
      s.completed + s.errors = 2 := by
  have h : Finished (.requests 1) refusedOnce.toStats :=
    @Finished.http1 _ { refusedConfig with budget := .requests 1 } 0 refusedRun _ rfl rfl rfl
  exact report_totals_requests (Nat.succ_pos 1) (.cons h (.cons h .nil))

end Shb
