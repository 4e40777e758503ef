import Shb.Http3.Worker
import Shb.Quic.Conn.Deadlines

/-!
# The loop over expired timers

The worker calls `handle_timeout` for as long as `poll_timeout` is not past the instant it looked
at the clock. **The loop ends with nothing due** (`timer_loop_ends`) wherever the last probe that
the backoff can put off is still to come: the idle timer and the keepalive take a turn each, a loss
check another, and a probe as many as the backoff has doublings.

The condition is strict, and has to be: behind the last doubling a probe is due again as soon as it
has been, and at the very instant of it the loop does not end (`saturated_probe_spins`).
-/

namespace Shb.Http3

open Quic Connection

/-- With a turn for each that is left and one for the end, the loop ends. -/
theorem expire_ends {now : Nat} : ∀ {rounds : Nat} {quic : Connection} (expired : Bool),
    quic.InReach now → quic.turns now + 1 < rounds →
      ∃ ended quic', expire now rounds expired quic = some (ended, quic') ∧
        ∀ deadline, quic'.pollTimeout = some deadline → now < deadline
  | 0, _, _, _, h => absurd h (Nat.not_lt_zero _)
  | rounds + 1, quic, expired, hreach, hrounds => by
    simp only [expire]
    cases hpoll : quic.pollTimeout with
    | none => exact ⟨expired, quic, rfl, fun _ h => nomatch hpoll.symm.trans h⟩
    | some deadline =>
      by_cases hdue : deadline ≤ now
      · simp only [if_pos hdue]
        rcases handleTimeout_turns hreach hpoll hdue with hclosed | ⟨hreach', hturns⟩
        · -- over: one more look finds nothing to wait for
          have hnone : (quic.handleTimeout now).pollTimeout = none := by
            rw [pollTimeout, if_pos hclosed]
          cases rounds with
          | zero => omega
          | succ rounds =>
            refine ⟨true, quic.handleTimeout now, ?_, fun _ h => nomatch hnone.symm.trans h⟩
            simp only [expire, hnone]
        · exact expire_ends true hreach' (by omega)
      · simp only [if_neg hdue]
        refine ⟨expired, quic, rfl, fun deadline' h => ?_⟩
        rw [hpoll] at h
        cases h
        exact Nat.lt_of_not_le hdue

/-- **The loop over expired timers ends with nothing due**, after at most so many turns. -/
theorem timer_loop_ends {quic : Connection} {now : Nat} (hreach : quic.InReach now) (expired : Bool)
    :
    ∃ ended quic', expire now 36 expired quic = some (ended, quic') ∧
      ∀ deadline, quic'.pollTimeout = some deadline → now < deadline := by
  have hturns := turns_le quic now
  exact expire_ends expired hreach (by omega)

/-- A ClientHello in flight since the beginning of time, and nothing else to wait for: not even the
idle deadline, which `poll_transmit` sets with every packet it builds. So this is a state that the
timer functions can be given, and none that a worker's connection gets to. -/
def helloInFlight : Connection :=
  newConnection.emit .initial
    { ackLargest := none, number := 0, timeSent := 0, size := 1200, ackEliciting := true,
      frames := [.crypto 0 3] } 0

/-- An hour later it has been probed. -/
theorem timer_loop_ends_hour :
    ∃ ended quic', expire (millis 3600000) 36 false helloInFlight = some (ended, quic') ∧
      ∀ deadline, quic'.pollTimeout = some deadline → millis 3600000 < deadline := by
  refine timer_loop_ends ⟨fun sp last hany hlast => ?_, fun _ last hlast => ?_⟩ false
  · cases sp with
    | initial =>
      cases hlast
      decide +kernel
    | handshake => cases hany
    | data => cases hany
  · have hzero : latest helloInFlight.sents = some 0 := by decide +kernel
    rw [hzero] at hlast
    cases hlast
    decide +kernel

/-! ## Behind the last doubling -/

/-- It after some probe timeouts. -/
def helloProbed (ptoCount ptoProbes : Nat) (ptoSpace : Space) (needsSend : Bool) : Connection :=
  { helloInFlight with ptoCount, ptoProbes, ptoSpace, needsSend }

/-- A probe is due again however often it has been: the loop does not end. -/
theorem expire_spins {now : Nat} (hnow : helloInFlight.rtt.pto 0 * (2 ^ 32 - 1) ≤ now) :
    ∀ (rounds : Nat) (expired : Bool) (ptoCount ptoProbes : Nat) (ptoSpace : Space)
      (needsSend : Bool),
      expire now rounds expired (helloProbed ptoCount ptoProbes ptoSpace needsSend) = none
  | 0, _, _, _, _, _ => rfl
  | rounds + 1, _, ptoCount, ptoProbes, ptoSpace, needsSend => by
    have hdue : (helloProbed ptoCount ptoProbes ptoSpace needsSend).ptoDue =
        some (.initial, 0 + helloInFlight.rtt.pto 0 * backoff ptoCount) := by
      rw [ptoDue, ptoDeadline_eq]
      rfl
    have hle : 0 + helloInFlight.rtt.pto 0 * backoff ptoCount ≤ now := by
      rw [Nat.zero_add]
      exact Nat.le_trans (Nat.mul_le_mul_left _ (Nat.min_le_right _ _)) hnow
    have hloss : (helloProbed ptoCount ptoProbes ptoSpace needsSend).lossDeadline = none := rfl
    have hturn : (helloProbed ptoCount ptoProbes ptoSpace needsSend).handleTimeout now =
        helloProbed (ptoCount + 1) 2 .initial true := by
      simp only [handleTimeout, hloss, hdue, if_pos hle]
      rfl
    have hpoll : (helloProbed ptoCount ptoProbes ptoSpace needsSend).pollTimeout =
        some (0 + helloInFlight.rtt.pto 0 * backoff ptoCount) := by
      simp only [pollTimeout, hloss, hdue]
      rfl
    simp only [expire, hpoll, if_pos hle, hturn]
    exact expire_spins hnow rounds true _ _ _ _

/-- A probe timeout times the most the backoff can be, behind the last ack-eliciting packet and
not a moment more: however many turns there are, the loop has not ended. -/
theorem saturated_probe_spins :
    latest helloInFlight.sents = some 0 ∧
      ∀ rounds, expire (0 + helloInFlight.rtt.pto 0 * (2 ^ 32 - 1)) rounds false helloInFlight =
        none := by
  refine ⟨by decide +kernel, fun rounds => ?_⟩
  exact expire_spins (Nat.le_of_eq (Nat.zero_add _).symm) rounds false 0 0 .initial _

end Shb.Http3
