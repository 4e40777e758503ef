import Shb.Http2.Reconnect
import Shb.Http3.Reconnect

/-!
# Reconnects are paid for

The two workers that carry several requests on a connection, side by side: in every run in
which no connection is lost before it carried a request, each connection that was replaced
without an answer cost an error, so there are no more connections than slots, answers and
errors together.

For both the exception is real: a server that lets a handshake through and then hangs up is
connected to again and again, with nothing counted.
-/

namespace Shb

open Lib

theorem reconnects_are_paid (cfg₂ : Http2.Config) (es₂ : List Http2.Ev) (s : Http2.Booked)
    (cfg₃ : Http3.Config) (sessions : Nat → Http3.Session) (es₃ : List Http3.Ev) (w : Http3.Worker)
    (now : Nat) :
    (Meets (Http2.Booked.step cfg₂) (Http2.CarriesFirst cfg₂) (Http2.Booked.init cfg₂ now) es₂ →
      run (Http2.Booked.step cfg₂) (Http2.Booked.init cfg₂ now) es₂ = some s →
      (∀ entry ∈ s.ledger.replaced, entry.completed = 0 → 1 ≤ entry.errors) ∧
        s.worker.opened ≤ cfg₂.connections + (s.worker.stats.completed + s.worker.stats.errors)) ∧
    (Meets (Http3.Worker.step cfg₃) (Http3.CarriesFirst cfg₃)
        (Http3.Worker.init cfg₃ now sessions) es₃ →
      run (Http3.Worker.step cfg₃) (Http3.Worker.init cfg₃ now sessions) es₃ = some w →
      (∀ p ∈ w.past, p.replaced = true → p.conn.giveBacks.completed = 0 → 1 ≤ p.conn.errors) ∧
        w.opened ≤ cfg₃.connections + (w.counts.stats.completed + w.counts.stats.errors)) := by
  refine ⟨fun hm h => Http2.Booked.paid_of_carriesFirst hm h, fun hm h => ?_⟩
  have hfair := Http3.paid_of_carriesFirst hm h
  exact ⟨hfair.past, hfair.opened_le⟩

namespace Http2.Booked

/-- Two requests on one connection, without TLS. -/
def twoPlain : Config := { oneSecure with tls := false, budget := .requests 2 }

/-- The server hangs up with the first of them in flight. -/
def hangUpRun : List Ev := [.connect 0 0 0 true true, .recv 0 0 1 .eof true]

def hangUpAfter (k : Nat) : Booked :=
  (run (step twoPlain) (init twoPlain 0) (hangUpRun.take k)).getD (init twoPlain 0)

theorem carriesFirst_hangUp :
    Meets (step twoPlain) (CarriesFirst twoPlain) (init twoPlain 0) hangUpRun := by
  refine Meets.cons (t := hangUpAfter 1) (by decide +kernel) (fun _ _ _ _ _ hd => nomatch hd)
    (Meets.cons (t := hangUpAfter 2) (by decide +kernel) ?_ trivial)
  intro i c h2 hi hh2 hd
  -- the connection has opened a stream
  have hused : ((hangUpAfter 1).worker.conns[0]?.bind (·.h2)).all (!·.unused) = true := by
    decide +kernel
  have hslot : (Ev.recv 0 0 1 .eof true).slot = some i := by
    generalize Ev.recv 0 0 1 .eof true = e at hd
    cases hd <;> rfl
  obtain rfl : 0 = i := Option.some.inj hslot
  rw [hi, Option.bind_some, hh2, Option.all_some] at hused
  exact Or.inl (by simpa using hused)

end Http2.Booked

namespace Http3

/-- The socket fails before the handshake is done, with nothing being sent. -/
def unreachableRun : List Ev :=
  [.send 0 0 0 .sent none, .recv 0 0 1 .failed (some (smallSession 0))]

def unreachableAfter (k : Nat) : Worker :=
  (run (Worker.step (smallConfig 2)) (smallInit 2 0) (unreachableRun.take k)).getD (smallInit 2 0)

theorem carriesFirst_unreachable :
    Meets (Worker.step (smallConfig 2)) (CarriesFirst (smallConfig 2)) (smallInit 2 0)
      unreachableRun := by
  refine Meets.cons (t := unreachableAfter 1) (by decide +kernel)
    (fun c n hg => nomatch hg) (Meets.cons (t := unreachableAfter 2) (by decide +kernel) ?_ trivial)
  intro c n hg _
  cases hg with
  | recv hi _ =>
    have hc : (unreachableAfter 1).conns.head? = some c := by rw [← hi, List.head?_eq_getElem?]
    have hstate : ∀ d, (unreachableAfter 1).conns.head? = some d → d.h3Ready = false := by
      decide +kernel
    refine Or.inl ?_
    rw [Conn.Chargeable, hstate c hc, if_neg (by decide)]
    decide +kernel

end Http3

/-- The request that is lost with its connection, and the failed connect, each pay for the
connection after them. -/
theorem reconnects_are_paid_unreachable :
    (Http2.Booked.hangUpAfter 2).worker.opened = 2 ∧
      (Http2.Booked.hangUpAfter 2).worker.opened ≤ Http2.Booked.twoPlain.connections +
        ((Http2.Booked.hangUpAfter 2).worker.stats.completed +
          (Http2.Booked.hangUpAfter 2).worker.stats.errors) ∧
    (Http3.unreachableAfter 2).opened = 2 ∧
      (Http3.unreachableAfter 2).opened ≤ (Http3.smallConfig 2).connections +
        ((Http3.unreachableAfter 2).counts.stats.completed +
          (Http3.unreachableAfter 2).counts.stats.errors) := by
  have hrun₂ : run (Http2.Booked.step Http2.Booked.twoPlain)
    (Http2.Booked.init Http2.Booked.twoPlain 0)
      Http2.Booked.hangUpRun = some (Http2.Booked.hangUpAfter 2) := by decide +kernel
  have hrun₃ : run (Http3.Worker.step (Http3.smallConfig 2)) (Http3.smallInit 2 0)
      Http3.unreachableRun = some (Http3.unreachableAfter 2) := by decide +kernel
  have hpaid := reconnects_are_paid Http2.Booked.twoPlain Http2.Booked.hangUpRun
    (Http2.Booked.hangUpAfter 2) (Http3.smallConfig 2) (fun _ => Http3.smallSession 0)
    Http3.unreachableRun (Http3.unreachableAfter 2) 0
  exact ⟨by decide +kernel, (hpaid.1 Http2.Booked.carriesFirst_hangUp hrun₂).2, by decide +kernel,
    (hpaid.2 Http3.carriesFirst_unreachable hrun₃).2⟩

namespace Http3

/-- A server that allows no request stream, and closes the connection once it is set up. -/
def unusedRun : List Ev :=
  [ .send 0 0 0 .sent none,
    .recv 0 0 1 (.datagrams [serverHello]) none,
    .pass 0 1 none,
    .send 0 0 1 .sent none,
    .recv 0 0 2 (.datagrams [oneRttDatagram 0 [0x1d, 0x41, 0, 0]]) none,
    .pass 0 2 (some (smallSession 0)) ]

def unusedEnd : Worker :=
  (run (Worker.step (smallConfig 1)) (smallInit 1 0) unusedRun).getD (smallInit 1 0)

end Http3

/-- Each worker has replaced a connection, and has neither an answer nor an error to show. -/
theorem reconnects_for_nothing :
    (run (Http2.Booked.step Http2.Booked.oneSecure)
        (Http2.Booked.init Http2.Booked.oneSecure 0) Http2.Booked.goodbyeRun).map
        (fun s => (s.worker.opened, s.ledger.replaced, s.worker.stats.finished)) =
      some (2, [⟨0, 0⟩], 0) ∧
    run (Http3.Worker.step (Http3.smallConfig 1)) (Http3.smallInit 1 0) Http3.unusedRun =
      some Http3.unusedEnd ∧
    Http3.unusedEnd.opened = 2 ∧
    (∀ p ∈ Http3.unusedEnd.past,
      p.replaced = true ∧ p.conn.giveBacks.completed = 0 ∧ p.conn.errors = 0) ∧
    Http3.unusedEnd.counts.stats.finished = 0 := by
  refine ⟨by decide +kernel, by decide +kernel, by decide +kernel, by decide +kernel,
    by decide +kernel⟩

end Shb
