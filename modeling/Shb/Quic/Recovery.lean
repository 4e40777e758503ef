import Shb.Quic.Packet

/-!
# `quic/recovery.rs` — loss detection and congestion control

Instants and durations are natural numbers of nanoseconds. Subtraction of an earlier instant
saturates in the source as it does here.
-/

namespace Shb.Quic

def reorderThreshold : Nat := 3
def millis (ms : Nat) : Nat := ms * 1000000
def timerGranularity : Nat := millis 1
def persistentCongestionThreshold : Nat := 3
/-- The value to use before the first RTT sample. -/
def initialRtt : Nat := millis 333

/-- The parts of a packet that have to be recovered if it is lost. -/
inductive SentFrame where
  | crypto (offset len : Nat)
  | stream (id offset len : Nat) (fin : Bool)
  | ping
  | retireConnectionId (seq : Nat)
  | resetStream (id error finalSize : Nat)
  | maxData (limit : Nat)
  | maxStreamData (id limit : Nat)
  deriving DecidableEq, Repr

/-- A packet we have sent and not yet heard about. -/
structure SentPacket where
  /-- What the ACK in this packet acknowledged, if it carried one. -/
  ackLargest : Option Nat
  number : Nat
  timeSent : Nat
  size : Nat
  ackEliciting : Bool
  frames : List SentFrame
  deriving DecidableEq, Repr

/-! ## Round-trip time -/

structure Rtt where
  latest : Nat := 0
  smoothed : Option Nat := none
  var : Nat := 0
  min : Option Nat := none
  deriving DecidableEq, Repr

namespace Rtt

variable (r : Rtt)

def update (sample ackDelay maxAckDelay : Nat) : Rtt :=
  let min := match r.min with
    | some min => Nat.min min sample
    | none => sample
  match r.smoothed with
  | none => { latest := sample, smoothed := some sample, var := sample / 2, min := some min }
  | some smoothed =>
    -- the reported delay only comes out of a sample above the minimum
    let adjusted := if min < sample then sample - Nat.min ackDelay maxAckDelay else sample
    let adjusted := max adjusted min
    let varSample := max smoothed adjusted - Nat.min smoothed adjusted
    { latest := sample
      smoothed := some ((smoothed * 7 + adjusted) / 8)
      var := (r.var * 3 + varSample) / 4
      min := some min }

def smoothedOrInitial : Nat := r.smoothed.getD initialRtt

def pto (maxAckDelay : Nat) : Nat :=
  r.smoothedOrInitial + max (r.var * 4) timerGranularity + maxAckDelay

def persistentCongestionDuration (maxAckDelay : Nat) : Nat :=
  r.pto maxAckDelay * persistentCongestionThreshold

def lossDelay : Nat :=
  max (max r.latest r.smoothedOrInitial * 9 / 8) timerGranularity

end Rtt

/-! ## Packets in flight -/

/-- Sent packets of one packet number space, ascending by number. -/
structure SentPackets where
  packets : List SentPacket := []
  largestAcked : Option Nat := none
  /-- When the most recent ack-eliciting packet went out. -/
  lastAckEliciting : Option Nat := none
  deriving DecidableEq, Repr

/-- Whether one of the ranges holds the number. -/
def inRanges (ranges : List (Nat × Nat)) (n : Nat) : Bool :=
  ranges.any fun r => decide (r.1 ≤ n) && decide (n ≤ r.2)

/-- The smaller of an optional instant and another one. -/
def earliest (deadline : Option Nat) (at_ : Nat) : Option Nat :=
  some (match deadline with
    | some d => min d at_
    | none => at_)

namespace SentPackets

variable (s : SentPackets)

def push (p : SentPacket) : SentPackets :=
  { s with
    packets := s.packets ++ [p]
    lastAckEliciting := if p.ackEliciting then some p.timeSent else s.lastAckEliciting }

def anyAckEliciting : Bool := s.packets.any (·.ackEliciting)

/-- The packets the peer has acknowledged, and the rest. -/
def drainAcked (ranges : List (Nat × Nat)) : List SentPacket × SentPackets :=
  let acked := s.packets.filter fun p => inRanges ranges p.number
  let largest := acked.foldl (fun m p => some (max (m.getD 0) p.number)) none
  (acked,
    { s with
      packets := s.packets.filter fun p => !inRanges ranges p.number
      largestAcked := match largest, s.largestAcked with
        | some n, some prev => some (max prev n)
        | some n, none => some n
        | none, prev => prev })

/-- Lost now: behind by packets, or by time. -/
def isLost (largestAcked now lossDelay : Nat) (p : SentPacket) : Bool :=
  decide (p.number ≤ largestAcked) &&
    (decide (p.number + reorderThreshold ≤ largestAcked) || decide (p.timeSent + lossDelay ≤ now))

/-- The packets that count as lost now, and when the next one would by time alone. -/
def detectLost (now lossDelay : Nat) : (List SentPacket × Option Nat) × SentPackets :=
  match s.largestAcked with
  | none => (([], none), s)
  | some largestAcked =>
    let lost := s.packets.filter (isLost largestAcked now lossDelay)
    let kept := s.packets.filter fun p => !isLost largestAcked now lossDelay p
    let deadline := (kept.filter fun p => p.number ≤ largestAcked).foldl
      (fun d p => earliest d (p.timeSent + lossDelay)) none
    ((lost, deadline), { s with packets := kept })

/-- Only ack-eliciting packets count. -/
def bytesInFlight : Nat :=
  ((s.packets.filter (·.ackEliciting)).map (·.size)).sum

variable {s : SentPackets} {p : SentPacket}

theorem mem_drainAcked {ranges : List (Nat × Nat)} :
    p ∈ (s.drainAcked ranges).1 ↔ p ∈ s.packets ∧ inRanges ranges p.number = true := by
  simp [drainAcked]

theorem drainAcked_subset {ranges : List (Nat × Nat)} (h : p ∈ (s.drainAcked ranges).2.packets) :
    p ∈ s.packets :=
  (List.mem_filter.mp h).1

theorem detectLost_subset (s : SentPackets) (now lossDelay : Nat) :
    (∀ p ∈ (s.detectLost now lossDelay).1.1, p ∈ s.packets) ∧
    ∀ p ∈ (s.detectLost now lossDelay).2.packets, p ∈ s.packets := by
  unfold detectLost
  split
  · exact ⟨nofun, fun p hp => hp⟩
  · exact ⟨fun p hp => (List.mem_filter.mp hp).1, fun p hp => (List.mem_filter.mp hp).1⟩

/-- Every packet in flight is acknowledged by the ranges or still in flight. -/
theorem mem_or_drainAcked (h : p ∈ s.packets) (ranges : List (Nat × Nat)) :
    p ∈ (s.drainAcked ranges).1 ∨ p ∈ (s.drainAcked ranges).2.packets := by
  cases hin : inRanges ranges p.number with
  | true => exact Or.inl (mem_drainAcked.mpr ⟨h, hin⟩)
  | false => exact Or.inr (List.mem_filter.mpr ⟨h, congrArg (!·) hin⟩)

theorem mem_or_detectLost (h : p ∈ s.packets) (now lossDelay : Nat) :
    p ∈ (s.detectLost now lossDelay).1.1 ∨ p ∈ (s.detectLost now lossDelay).2.packets := by
  unfold detectLost
  split
  · exact Or.inr h
  · rename_i largestAcked _
    cases hlost : isLost largestAcked now lossDelay p with
    | true => exact Or.inl (List.mem_filter.mpr ⟨h, hlost⟩)
    | false => exact Or.inr (List.mem_filter.mpr ⟨h, congrArg (!·) hlost⟩)

end SentPackets

/-! ## Congestion -/

def initialWindow : Nat := 4 * 1024 * 1024
def minWindow : Nat := 2 * 1200
/-- `usize::MAX`. -/
def usizeMax : Nat := 2 ^ 64 - 1

structure Congestion where
  window : Nat := initialWindow
  ssthresh : Nat := usizeMax
  /-- When the current recovery period began. -/
  recoveryStart : Option Nat := none
  ackedSinceIncrease : Nat := 0
  deriving DecidableEq, Repr

namespace Congestion

variable (c : Congestion)

/-- Sent at or before the recovery period began. -/
def inRecovery (sent : Nat) : Bool := c.recoveryStart.any fun t => sent ≤ t

def onAck (bytes sent : Nat) : Congestion :=
  if c.inRecovery sent then c
  else if c.window < c.ssthresh then { c with window := c.window + bytes }
  else
    let acked := c.ackedSinceIncrease + bytes
    if c.window ≤ acked then
      { c with ackedSinceIncrease := acked - c.window, window := c.window + 1200 }
    else { c with ackedSinceIncrease := acked }

def onLoss (sent now : Nat) : Congestion :=
  if c.inRecovery sent then c
  else
    let window := max (c.window / 2) minWindow
    { window := window, ssthresh := window, recoveryStart := some now, ackedSinceIncrease := 0 }

def onPersistentCongestion (_ : Congestion) : Congestion :=
  { window := minWindow, ssthresh := usizeMax, recoveryStart := none, ackedSinceIncrease := 0 }

def canSend (inFlight : Nat) : Bool := inFlight < c.window

end Congestion

/-! ## Probes -/

/-- `2u32.saturating_pow(n)`. -/
def backoff (ptoCount : Nat) : Nat := min (2 ^ ptoCount) (2 ^ 32 - 1)

/-- Which space needs a probe next, and when. -/
def ptoDeadline (spaces : Spaces SentPackets) (rtt : Rtt) (maxAckDelay ptoCount : Nat)
    (unackedHandshake : Option Space) : Option (Space × Nat) :=
  let candidate (space : Space) (best : Option (Space × Nat)) : Option (Space × Nat) :=
    let sent := spaces.get space
    match sent.anyAckEliciting, sent.lastAckEliciting with
    | true, some last =>
      let delay := if space = .data then maxAckDelay else 0
      let at_ := last + rtt.pto delay * backoff ptoCount
      if best.all fun b => at_ < b.2 then some (space, at_) else best
    | _, _ => best
  let best := candidate .data (candidate .handshake (candidate .initial none))
  match best, unackedHandshake with
  | none, some space =>
    let last := [spaces.initial, spaces.handshake, spaces.data].foldl
      (fun m s => match s.lastAckEliciting with
        | some t => some (max (m.getD 0) t)
        | none => m) none
    last.map fun last => (space, last + rtt.pto 0 * backoff ptoCount)
  | best, _ => best

end Shb.Quic
