import Shb.Quic.Conn.Flights

/-!
# When a connection wants to be woken

`poll_timeout` is the earliest of four deadlines: of a loss check, of a probe, of the idle timer
and of a keepalive, the probe only while no loss check is pending. Here is what each is and what
becomes of it when `handle_timeout` acts on it. The idle timer ends the connection; a keepalive is
due again half an idle timeout later; after a loss check no packet is left that was due, so nor is
its deadline; and a probe doubles the time to the next, up to a bound.

The bound is `2u32.saturating_pow`: behind it the next probe is no later than this one. A
connection is `InReach` of an instant if the last probe the backoff can put off is still to come.
-/

namespace Shb.Quic

/-! ## Probes -/

/-- The peer's ack delay counts in the data space only. -/
def probeDelay (maxAckDelay : Nat) (sp : Space) : Nat := if sp = .data then maxAckDelay else 0

/-- When a space is probed because of what it has in flight. -/
def probeAt (s : SentPackets) (rtt : Rtt) (delay ptoCount : Nat) : Option Nat :=
  if s.anyAckEliciting then s.lastAckEliciting.map (· + rtt.pto delay * backoff ptoCount) else none

/-- The sooner of two probes, the first of them if they tie. -/
def sooner (best : Option (Space × Nat)) (sp : Space) (at_ : Option Nat) : Option (Space × Nat) :=
  match at_ with
  | none => best
  | some at_ => if best.all fun b => at_ < b.2 then some (sp, at_) else best

variable (spaces : Spaces SentPackets)

/-- The last ack-eliciting packet of all. -/
def latest : Option Nat :=
  [spaces.initial, spaces.handshake, spaces.data].foldl
    (fun m s => match s.lastAckEliciting with
      | some t => some (max (m.getD 0) t)
      | none => m) none

/-- The probe of the spaces that have something in flight. -/
def soonest (rtt : Rtt) (maxAckDelay ptoCount : Nat) : Option (Space × Nat) :=
  let at_ sp := probeAt (spaces.get sp) rtt (probeDelay maxAckDelay sp) ptoCount
  sooner (sooner (sooner none .initial (at_ .initial)) .handshake (at_ .handshake))
    .data (at_ .data)

/-- What `pto_deadline` makes of one space is the sooner of two probes. -/
theorem candidate_eq (rtt : Rtt) (maxAckDelay ptoCount : Nat) (sp : Space)
    (best : Option (Space × Nat)) :
    (match (spaces.get sp).anyAckEliciting, (spaces.get sp).lastAckEliciting with
      | true, some last =>
        let at_ := last + rtt.pto (if sp = .data then maxAckDelay else 0) * backoff ptoCount
        if best.all fun b => at_ < b.2 then some (sp, at_) else best
      | _, _ => best) =
      sooner best sp (probeAt (spaces.get sp) rtt (probeDelay maxAckDelay sp) ptoCount) := by
  unfold probeAt
  cases (spaces.get sp).anyAckEliciting with
  | false => rfl
  | true =>
    cases (spaces.get sp).lastAckEliciting with
    | none => rfl
    | some last => rfl

theorem ptoDeadline_eq (rtt : Rtt) (maxAckDelay ptoCount : Nat) (fallback : Option Space) :
    ptoDeadline spaces rtt maxAckDelay ptoCount fallback =
      match soonest spaces rtt maxAckDelay ptoCount, fallback with
      | none, some sp => (latest spaces).map fun last => (sp, last + rtt.pto 0 * backoff ptoCount)
      | best, _ => best := by
  have hcandidate := candidate_eq spaces rtt maxAckDelay ptoCount
  have hbest : soonest spaces rtt maxAckDelay ptoCount = _ :=
    (congrArg (fun best => sooner best .data _)
      ((congrArg (fun best => sooner best .handshake _) (hcandidate .initial none).symm).trans
        (hcandidate .handshake _).symm)).trans (hcandidate .data _).symm
  rw [hbest]
  rfl

theorem sooner_eq_some {best : Option (Space × Nat)} {at_ : Option Nat} {sp : Space}
    {b : Space × Nat} (h : sooner best sp at_ = some b) :
    best = some b ∨ b.1 = sp ∧ at_ = some b.2 := by
  cases at_ with
  | none => exact .inl h
  | some at_ =>
    simp only [sooner] at h
    split at h
    · cases h
      exact .inr ⟨rfl, rfl⟩
    · exact .inl h

variable {ptoCount : Nat}

/-- It is the probe of one of the spaces. -/
theorem soonest_eq_some {spaces : Spaces SentPackets} {rtt : Rtt} {maxAckDelay : Nat}
    {b : Space × Nat} (h : soonest spaces rtt maxAckDelay ptoCount = some b) :
    probeAt (spaces.get b.1) rtt (probeDelay maxAckDelay b.1) ptoCount = some b.2 := by
  rcases sooner_eq_some h with h | ⟨hsp, hat⟩
  · rcases sooner_eq_some h with h | ⟨hsp, hat⟩
    · rcases sooner_eq_some h with h | ⟨hsp, hat⟩
      · cases h
      · rw [hsp]
        exact hat
    · rw [hsp]
      exact hat
  · rw [hsp]
    exact hat

/-- Only so often can the time to the next probe double. -/
theorem backoff_lt (h : backoff ptoCount < 2 ^ 32 - 1) : ptoCount < 32 := by
  rcases Nat.lt_or_ge ptoCount 32 with hlt | hge
  · exact hlt
  · have hpow : 2 ^ 32 ≤ 2 ^ ptoCount := Nat.pow_le_pow_right (by decide) hge
    unfold backoff at h
    omega

theorem pto_pos (rtt : Rtt) (maxAckDelay : Nat) : 0 < rtt.pto maxAckDelay := by
  have hgranularity : 0 < timerGranularity := by decide
  have hmax := Nat.le_max_right (rtt.var * 4) timerGranularity
  unfold Rtt.pto
  omega

namespace Connection

variable (c : Connection)

/-- What has been sent, space by space. -/
def sents : Spaces SentPackets where
  initial := (c.space .initial).sent
  handshake := (c.space .handshake).sent
  data := (c.space .data).sent

theorem get_sents (sp : Space) : c.sents.get sp = (c.space sp).sent := by
  cases sp <;> rfl

theorem ptoDue_eq :
    c.ptoDue = ptoDeadline c.sents c.rtt (millis c.params.maxAckDelayMs) c.ptoCount c.ptoFallback :=
  rfl

theorem alarms_detectLostAll (now lossDelay : Nat) :
    (c.detectLostAll now lossDelay).alarms = c.alarms := by
  unfold detectLostAll
  simp only [alarms_detectLost]

/-- A loss check of every space checks every space. -/
theorem flights_detectLostAll (now lossDelay : Nat) (sp : Space) :
    (c.detectLostAll now lossDelay).flights sp = (c.flights sp).check now lossDelay := by
  unfold detectLostAll
  simp only [flights_detectLost]
  cases sp <;> simp [Function.update_of_ne]

end Connection

/-! ## After a loss check -/

/-- What it leaves has not been due. -/
theorem SentPackets.detectLost_later {s : SentPackets} {now lossDelay d : Nat}
    (h : (s.detectLost now lossDelay).1.2 = some d) : now < d := by
  have hfold : ∀ (ps : List SentPacket) (m : Option Nat), (∀ t, m = some t → now < t) →
      (∀ p ∈ ps, now < p.timeSent + lossDelay) →
      ∀ t, ps.foldl (fun d p => earliest d (p.timeSent + lossDelay)) m = some t → now < t := by
    intro ps
    induction ps with
    | nil => exact fun m hm _ => hm
    | cons p ps ih =>
      intro m hm hps
      refine ih _ (fun t ht => ?_) fun q hq => hps q (List.mem_cons_of_mem _ hq)
      have hp := hps p List.mem_cons_self
      cases m with
      | none =>
        cases ht
        exact hp
      | some k =>
        cases ht
        exact Nat.lt_min.mpr ⟨hm k rfl, hp⟩
  unfold detectLost at h
  split at h
  · cases h
  · rename_i largestAcked _
    refine hfold _ none (fun _ ht => nomatch ht) (fun p hp => ?_) d h
    obtain ⟨hkept, hle⟩ := List.mem_filter.mp hp
    have hnot := (List.mem_filter.mp hkept).2
    simp only [isLost, hle, Bool.true_and, Bool.not_eq_true', Bool.or_eq_false_iff,
      decide_eq_false_iff_not] at hnot
    exact Nat.lt_of_not_le hnot.2

/-- Packets leave flight, and nothing else changes. -/
theorem SentPackets.detectLost_any {s : SentPackets} {now lossDelay : Nat}
    (h : (s.detectLost now lossDelay).2.anyAckEliciting = true) : s.anyAckEliciting = true := by
  obtain ⟨p, hp, he⟩ := List.any_eq_true.mp h
  exact List.any_eq_true.mpr ⟨p, (detectLost_subset s now lossDelay).2 p hp, he⟩

theorem SentPackets.detectLost_last (s : SentPackets) (now lossDelay : Nat) :
    (s.detectLost now lossDelay).2.lastAckEliciting = s.lastAckEliciting := by
  unfold detectLost
  split <;> rfl

namespace Connection

/-! ## One turn of the timers -/

/-- The probe that the backoff puts off for longest is still to come, of every space with
something in flight and, while the handshake may have to be probed, of the connection. -/
structure InReach (c : Connection) (now : Nat) : Prop where
  probes : ∀ sp last, (c.space sp).sent.anyAckEliciting = true →
    (c.space sp).sent.lastAckEliciting = some last →
    now < last + c.rtt.pto (probeDelay (millis c.params.maxAckDelayMs) sp) * (2 ^ 32 - 1)
  fallback : c.ptoFallback.isSome = true → ∀ last, latest c.sents = some last →
    now < last + c.rtt.pto 0 * (2 ^ 32 - 1)

/-- A deadline that has come. -/
def Past (deadline : Option Nat) (now : Nat) : Prop := deadline.any (· ≤ now) = true

instance (deadline : Option Nat) (now : Nat) : Decidable (Past deadline now) :=
  inferInstanceAs (Decidable (_ = _))

variable {now : Nat} {c c' : Connection}

theorem past_iff {deadline : Option Nat} :
    Past deadline now ↔ ∃ d, deadline = some d ∧ d ≤ now := by
  cases deadline with
  | none => simp only [Past, Option.any_none, Bool.false_eq_true, reduceCtorEq, false_and,
      exists_false]
  | some d => simp only [Past, Option.any_some, decide_eq_true_eq, Option.some.injEq,
      exists_eq_left']

theorem past_earlier {a b : Option Nat} : Past (earlier a b) now ↔ Past a now ∨ Past b now := by
  cases a with
  | none => simp only [earlier, Past, Option.any_none, Bool.false_eq_true, false_or]
  | some a =>
    cases b with
    | none => simp only [earlier, Past, Option.any_none, Bool.false_eq_true, or_false]
    | some b =>
      simp only [earlier, Past, Option.any_some, decide_eq_true_eq]
      omega

variable (c)

/-- How many turns are left at most, that of the idle timer apart. -/
def turns (now : Nat) : Nat :=
  (if Past c.keepaliveDeadline now then 1 else 0) + (if Past c.lossDeadline now then 1 else 0) +
    (32 - c.ptoCount)

theorem turns_le (now : Nat) : c.turns now ≤ 34 := by
  have hkeep : (if Past c.keepaliveDeadline now then 1 else 0) ≤ 1 := by split <;> decide
  have hloss : (if Past c.lossDeadline now then 1 else 0) ≤ 1 := by split <;> decide
  unfold turns
  omega

theorem lossDeadline_eq :
    c.lossDeadline = earlier (earlier (c.flights .initial).lossDeadline
      (c.flights .handshake).lossDeadline) (c.flights .data).lossDeadline := rfl

theorem closed_lose (why : Loss) : (c.lose why).closed.isSome = true := by
  unfold lose
  split
  · rfl
  · rename_i h
    rwa [Option.isNone_iff_eq_none, ← ne_eq, Option.ne_none_iff_isSome] at h

variable {c}

theorem idleTimeout_pos (hconnected : c.connected = true) {t : Nat} (h : c.idleTimeout = some t) :
    2 ≤ t := by
  have hpto := pto_pos c.rtt (millis c.params.maxAckDelayMs)
  simp only [idleTimeout, hconnected, Bool.not_true, Bool.false_eq_true, if_false] at h
  obtain ⟨ms, -, rfl⟩ := Option.map_eq_some_iff.mp h
  have := Nat.le_max_right (millis ms) (c.rtt.pto (millis c.params.maxAckDelayMs) * 3)
  omega

/-- A probe that is due is not the last that can be put off. -/
theorem ptoCount_lt (h : c.InReach now) {sp : Space} {at_ : Nat}
    (hdue : c.ptoDue = some (sp, at_)) (hle : at_ ≤ now) : c.ptoCount < 32 := by
  have hbound : ∀ {last pto : Nat}, 0 < pto → last + pto * backoff c.ptoCount ≤ now →
      now < last + pto * (2 ^ 32 - 1) → c.ptoCount < 32 := by
    intro last pto hpos hprobe hreach
    refine backoff_lt ?_
    have hmul : pto * backoff c.ptoCount < pto * (2 ^ 32 - 1) := by omega
    exact Nat.lt_of_mul_lt_mul_left hmul
  rw [ptoDue_eq, ptoDeadline_eq] at hdue
  split at hdue
  · rename_i fallback hnone hfallback
    obtain ⟨last, hlast, hat⟩ := Option.map_eq_some_iff.mp hdue
    cases hat
    exact hbound (pto_pos _ _) hle (h.fallback (by rw [hfallback]; rfl) last hlast)
  · have hprobe := soonest_eq_some hdue
    rw [get_sents] at hprobe
    simp only [probeAt] at hprobe
    split at hprobe
    · rename_i hany
      obtain ⟨last, hlast, hat⟩ := Option.map_eq_some_iff.mp hprobe
      refine hbound (pto_pos _ _) ?_ (h.probes sp last hany hlast)
      exact Nat.le_trans (Nat.le_of_eq hat) hle
    · cases hprobe

/-- What is in reach depends on the alarms and the flights. -/
theorem InReach.of_alarms (h : c.InReach now) (halarms : c'.alarms = c.alarms)
    (hany : ∀ sp, (c'.space sp).sent.anyAckEliciting = true →
      (c.space sp).sent.anyAckEliciting = true)
    (hlast : ∀ sp, (c'.space sp).sent.lastAckEliciting = (c.space sp).sent.lastAckEliciting) :
    c'.InReach now := by
  have hrtt : c'.rtt = c.rtt := congrArg Alarms.rtt halarms
  have hparams : c'.params = c.params := congrArg Alarms.params halarms
  have hfallback : c'.ptoFallback = c.ptoFallback := congrArg Alarms.ptoFallback halarms
  have hlatest : latest c'.sents = latest c.sents := by
    simp only [latest, sents, List.foldl_cons, List.foldl_nil, hlast]
  refine ⟨fun sp last ha hl => ?_, fun hf last hl => ?_⟩
  · rw [hrtt, hparams]
    exact h.probes sp last (hany sp ha) ((hlast sp).symm.trans hl)
  · rw [hrtt]
    exact h.fallback (hfallback ▸ hf) last (hlatest.symm.trans hl)

/-- The next keepalive is half an idle timeout away. -/
theorem keepalive_turns (h : c.InReach now) (hkeep : Past c.keepaliveDeadline now)
    (hc' : c' = { c with
      keepalivePending := true
      nextKeepalive := c.idleTimeout.map (now + · / 2)
      needsSend := true }) : c'.InReach now ∧ c'.turns now < c.turns now := by
  have hconnected : c.connected = true := by
    cases hcon : c.connected with
    | true => rfl
    | false =>
      simp only [Past, keepaliveDeadline, hcon, Bool.not_false, Bool.true_or, if_true,
        Option.any_none] at hkeep
      cases hkeep
  have hlater : ¬ Past c'.keepaliveDeadline now := by
    intro hpast
    obtain ⟨d, hd, hle⟩ := past_iff.mp hpast
    rw [hc', keepaliveDeadline] at hd
    split at hd
    · cases hd
    · obtain ⟨t, ht, rfl⟩ := Option.map_eq_some_iff.mp hd
      have := idleTimeout_pos hconnected ht
      omega
  have hloss : c'.lossDeadline = c.lossDeadline := by rw [hc']; rfl
  have hcount : c'.ptoCount = c.ptoCount := by rw [hc']
  refine ⟨by rw [hc']; exact ⟨h.probes, h.fallback⟩, ?_⟩
  unfold turns
  rw [if_neg hlater, if_pos hkeep, hloss, hcount]
  omega

theorem InReach.wake (h : c.InReach now) : c.wake.InReach now :=
  ⟨h.probes, h.fallback⟩

theorem turns_wake (c : Connection) (now : Nat) : c.wake.turns now = c.turns now := rfl

/-- Behind a loss check no deadline of one has come. -/
theorem lossCheck_turns (h : c.InReach now) (hloss : Past c.lossDeadline now)
    (hc' : c' = c.detectLostAll now c.rtt.lossDelay) :
    c'.InReach now ∧ c'.turns now < c.turns now := by
  have halarms : c'.alarms = c.alarms := by rw [hc', alarms_detectLostAll]
  have hflights : ∀ sp, c'.flights sp = (c.flights sp).check now c.rtt.lossDelay := by
    intro sp
    rw [hc', flights_detectLostAll]
  have hsent : ∀ sp, (c'.space sp).sent = ((c.space sp).sent.detectLost now c.rtt.lossDelay).2 :=
    fun sp => congrArg Flight.sent (hflights sp)
  have hspace : ∀ sp, ¬ Past (c'.flights sp).lossDeadline now := by
    intro sp hpast
    rw [hflights sp] at hpast
    obtain ⟨d, hd, hle⟩ := past_iff.mp hpast
    exact absurd (SentPackets.detectLost_later hd) (Nat.not_lt.mpr hle)
  have hlater : ¬ Past c'.lossDeadline now := by
    rw [lossDeadline_eq, past_earlier, past_earlier]
    rintro ((hpast | hpast) | hpast)
    · exact hspace _ hpast
    · exact hspace _ hpast
    · exact hspace _ hpast
  have hkeep : c'.keepaliveDeadline = c.keepaliveDeadline :=
    congrArg Alarms.keepaliveDeadline halarms
  have hcount : c'.ptoCount = c.ptoCount := congrArg Alarms.ptoCount halarms
  refine ⟨h.of_alarms halarms (fun sp hany => ?_) fun sp => ?_, ?_⟩
  · rw [hsent] at hany
    exact SentPackets.detectLost_any hany
  · rw [hsent]
    exact SentPackets.detectLost_last _ _ _
  · unfold turns
    rw [if_neg hlater, if_pos hloss, hkeep, hcount]
    omega

theorem startProbe_turns (h : c.InReach now) (hcount : c.ptoCount < 32) (sp : Space) :
    (c.startProbe sp).InReach now ∧ (c.startProbe sp).turns now < c.turns now := by
  generalize hc : (c.modifySpace sp fun s => { s with cryptoSent := 0 }) = c₁
  have halarms : c₁.alarms = c.alarms := by
    rw [← hc]
    exact alarms_modifySpace (by intro s; rfl) c sp
  have hflights : c₁.flights = c.flights := by
    rw [← hc]
    exact flights_modifySpace_of (by intro s; rfl) c sp
  have hsent : ∀ sp, (c₁.space sp).sent = (c.space sp).sent :=
    fun sp => congrArg Flight.sent (congrFun hflights sp)
  have hreach : c₁.InReach now :=
    h.of_alarms halarms (fun sp => by rw [hsent]; exact id) fun sp => by rw [hsent]
  have hkeep : c₁.keepaliveDeadline = c.keepaliveDeadline :=
    congrArg Alarms.keepaliveDeadline halarms
  have hloss : c₁.lossDeadline = c.lossDeadline := by
    rw [lossDeadline_eq, hflights]
    rfl
  unfold startProbe
  rw [hc]
  refine ⟨⟨hreach.probes, hreach.fallback⟩, ?_⟩
  show (if Past c₁.keepaliveDeadline now then 1 else 0) +
    (if Past c₁.lossDeadline now then 1 else 0) + (32 - (c.ptoCount + 1)) < c.turns now
  unfold turns
  rw [hkeep, hloss]
  omega

theorem due_of_pollTimeout {d : Nat} (hpoll : c.pollTimeout = some d) (hdue : d ≤ now) :
    Past c.idleDeadline now ∨ Past c.keepaliveDeadline now ∨ Past c.lossDeadline now ∨
      c.lossDeadline = none ∧ ∃ sp at_, c.ptoDue = some (sp, at_) ∧ at_ ≤ now := by
  have hopen : ¬ c.closed.isSome = true := by
    intro hclosed
    rw [pollTimeout, if_pos hclosed] at hpoll
    cases hpoll
  have hpast := past_iff.mpr ⟨d, hpoll, hdue⟩
  rw [pollTimeout, if_neg hopen, past_earlier, past_earlier] at hpast
  rcases hpast with (hrecovery | hidle) | hkeep
  · cases hloss : c.lossDeadline with
    | some at_ =>
      rw [hloss] at hrecovery
      exact .inr (.inr (.inl hrecovery))
    | none =>
      rw [hloss] at hrecovery
      obtain ⟨at_, hat, hle⟩ := past_iff.mp hrecovery
      obtain ⟨⟨sp, at_⟩, hprobe, rfl⟩ := Option.map_eq_some_iff.mp hat
      exact .inr (.inr (.inr ⟨rfl, sp, at_, hprobe, hle⟩))
  · exact .inl hidle
  · exact .inr (.inl hkeep)

/-- **One turn.** While something is due, a turn ends the connection or leaves fewer. -/
theorem handleTimeout_turns (h : c.InReach now) {d : Nat} (hpoll : c.pollTimeout = some d)
    (hdue : d ≤ now) :
    (c.handleTimeout now).closed.isSome = true ∨
      (c.handleTimeout now).InReach now ∧ (c.handleTimeout now).turns now < c.turns now := by
  unfold handleTimeout
  split
  · exact .inl (closed_lose _ _)
  rename_i hidle
  split
  · rename_i hkeep
    exact .inr (keepalive_turns h hkeep rfl)
  rename_i hkeep
  right
  rcases due_of_pollTimeout hpoll hdue with hidle' | hkeep' | hloss | ⟨hloss, sp, at_, hprobe, hle⟩
  · exact absurd hidle' hidle
  · exact absurd hkeep' hkeep
  · obtain ⟨at_, hat, hle⟩ := past_iff.mp hloss
    obtain ⟨hreach, hturns⟩ := lossCheck_turns h hloss rfl
    simp only [hat, if_neg (Nat.not_lt.mpr hle)]
    rw [turns_wake]
    exact ⟨hreach.wake, hturns⟩
  · simp only [hloss, hprobe, if_pos hle]
    exact startProbe_turns h (ptoCount_lt h hprobe hle) sp

end Connection

end Shb.Quic
