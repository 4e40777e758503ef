import Shb.Quic.Conn.AckCoverage
import Shb.Quic.Conn.Deadlines

/-!
# What becomes of a packet

A `Track` is a flight with the books of it: every packet ever sent in the space, and those that
have left flight, under what they left it for. The books are kept by the same changes as the
flight (`Track.step`), so a run of a connection has them too, and what they say of the run is an
invariant of one change (`Settled`).

Two things hold between changes only. An ACK takes packets out and is followed by the loss check
in the same breath, and it is the check that sets the deadline of what it leaves behind; so the
invariant without its last clause (`Accounted`) is what the ACK alone keeps.
-/

namespace Shb.Quic

open Lib

/-! ## Folds over packets -/

namespace SentPackets

/-- The earliest of some instants is at or before each. -/
theorem foldl_earliest_le (at_ : SentPacket → Nat) : ∀ (ps : List SentPacket) (d : Option Nat),
    (∀ t, d = some t → ∃ t', ps.foldl (fun d p => earliest d (at_ p)) d = some t' ∧ t' ≤ t) ∧
      ∀ p ∈ ps, ∃ t, ps.foldl (fun d p => earliest d (at_ p)) d = some t ∧ t ≤ at_ p
  | [], d => ⟨fun t ht => ⟨t, ht, Nat.le_refl t⟩, nofun⟩
  | p :: ps, d => by
    obtain ⟨hinit, hrest⟩ := foldl_earliest_le at_ ps (earliest d (at_ p))
    refine ⟨fun t ht => ?_, fun q hq => ?_⟩
    · obtain ⟨t', heq, hle⟩ := hinit (min t (at_ p)) (by rw [ht]; rfl)
      exact ⟨t', heq, Nat.le_trans hle (Nat.min_le_left _ _)⟩
    · rcases List.mem_cons.mp hq with rfl | hq
      · cases d with
        | none => exact hinit (at_ q) rfl
        | some t =>
          obtain ⟨t', heq, hle⟩ := hinit (min t (at_ q)) rfl
          exact ⟨t', heq, Nat.le_trans hle (Nat.min_le_right _ _)⟩
      · exact hrest q hq

theorem foldl_largest {n : Nat} : ∀ (ps : List SentPacket) (m : Option Nat),
    ps.foldl (fun m p => some (max (m.getD 0) p.number)) m = some n →
      m = some n ∨ ∃ p ∈ ps, p.number = n
  | [], m, h => .inl h
  | p :: ps, m, h => by
    rcases foldl_largest ps _ h with h | ⟨q, hq, hn⟩
    · simp only at h
      rcases Nat.le_total (m.getD 0) p.number with hle | hle
      · rw [Nat.max_eq_right hle] at h
        exact .inr ⟨p, List.mem_cons_self, Option.some.inj h⟩
      · rw [Nat.max_eq_left hle] at h
        cases m with
        | none =>
          have hzero : p.number = 0 := Nat.le_zero.mp hle
          exact .inr ⟨p, List.mem_cons_self, hzero.trans (Option.some.inj h)⟩
        | some k => exact .inl h
    · exact .inr ⟨q, List.mem_cons_of_mem _ hq, hn⟩

/-- The largest number acknowledged is that of a packet which was in flight. -/
theorem largestAcked_drainAcked {s : SentPackets} {ranges : List (Nat × Nat)} {n : Nat}
    (h : (s.drainAcked ranges).2.largestAcked = some n) :
    s.largestAcked = some n ∨ ∃ p ∈ s.packets, p.number = n := by
  simp only [drainAcked] at h
  generalize hl : (s.packets.filter fun p => inRanges ranges p.number).foldl
    (fun m p => some (max (m.getD 0) p.number)) none = largest at h
  have hfold : ∀ k, largest = some k → ∃ p ∈ s.packets, p.number = k := by
    intro k hk
    rcases foldl_largest _ _ (hl.trans hk) with hnone | ⟨p, hp, hn⟩
    · cases hnone
    · exact ⟨p, (List.mem_filter.mp hp).1, hn⟩
  split at h
  · rename_i k prev hprev
    rcases Nat.le_total prev k with hle | hle
    · rw [Nat.max_eq_right hle] at h
      exact .inr (hfold n h)
    · rw [Nat.max_eq_left hle] at h
      exact .inl (hprev.trans h)
  · exact .inr (hfold n h)
  · exact .inl h

variable (s : SentPackets)

theorem drainAcked_perm (ranges : List (Nat × Nat)) :
    ((s.drainAcked ranges).1 ++ (s.drainAcked ranges).2.packets).Perm s.packets :=
  List.filter_append_perm (fun p : SentPacket => inRanges ranges p.number) s.packets

theorem detectLost_perm (now lossDelay : Nat) :
    ((s.detectLost now lossDelay).1.1 ++
      (s.detectLost now lossDelay).2.packets).Perm s.packets := by
  unfold detectLost
  split
  · exact .refl _
  · exact List.filter_append_perm _ s.packets

/-- What a loss check leaves behind the largest number has a deadline. -/
theorem detectLost_deadline {s : SentPackets} {now lossDelay n : Nat} {p : SentPacket}
    (hn : s.largestAcked = some n) (hp : p ∈ (s.detectLost now lossDelay).2.packets)
    (hle : p.number ≤ n) :
    ∃ t, (s.detectLost now lossDelay).1.2 = some t ∧ t ≤ p.timeSent + lossDelay := by
  simp only [detectLost, hn] at hp ⊢
  refine (foldl_earliest_le (fun p => p.timeSent + lossDelay) _ none).2 p ?_
  exact List.mem_filter.mpr ⟨hp, decide_eq_true hle⟩

theorem detectLost_fields (now lossDelay : Nat) :
    (s.detectLost now lossDelay).2.largestAcked = s.largestAcked ∧
      (s.detectLost now lossDelay).2.lastAckEliciting = s.lastAckEliciting := by
  unfold detectLost
  split <;> exact ⟨rfl, rfl⟩

end SentPackets

/-! ## Books -/

/-- A flight with every packet that was ever sent, and what those have left it for that have. -/
structure Track where
  flight : Flight
  sent : List SentPacket
  acked : List SentPacket
  lost : List SentPacket
  dropped : List SentPacket
  /-- The loss delay of the latest loss check. -/
  lossDelay : Option Nat

namespace Track

def start : Track where
  flight := ⟨{}, none, 0⟩
  sent := []
  acked := []
  lost := []
  dropped := []
  lossDelay := none

def drain (t : Track) (ranges : List (Nat × Nat)) : Track :=
  { t with
    flight := t.flight.drain ranges
    acked := t.acked ++ (t.flight.sent.drainAcked ranges).1 }

def check (t : Track) (now lossDelay : Nat) : Track :=
  { t with
    flight := t.flight.check now lossDelay
    lost := t.lost ++ (t.flight.sent.detectLost now lossDelay).1.1
    lossDelay := some lossDelay }

def step (t : Track) (e : Change) : Option Track :=
  (t.flight.step e).map fun f =>
    match e with
    | .send p => { t with flight := f, sent := t.sent ++ [p] }
    | .ack ranges now lossDelay => (t.drain ranges).check now lossDelay
    | .check now lossDelay => t.check now lossDelay
    | .drop => { t with flight := f, dropped := t.dropped ++ t.flight.sent.packets }

/-- The books are about the flight that the change makes. -/
theorem step_of_flight {t : Track} {e : Change} {f : Flight} (h : t.flight.step e = some f) :
    ∃ t', t.step e = some t' ∧ t'.flight = f := by
  refine ⟨_, congrArg (Option.map _) h, ?_⟩
  cases e with
  | ack ranges now lossDelay | check now lossDelay => exact Option.some.inj h
  | _ => rfl

end Track

/-- Books are kept space by space, as flights are. -/
def tracksStep (ts : Space → Track) (e : Space × Change) : Option (Space → Track) :=
  ((ts e.1).step e.2).map (Function.update ts e.1)

theorem run_tracksStep : ∀ {es : List (Space × Change)} {fs : Space → Flight} {ts : Space → Track},
    run flightsStep (fun sp => (ts sp).flight) es = some fs →
      ∃ ts', run tracksStep ts es = some ts' ∧ (fun sp => (ts' sp).flight) = fs
  | [], fs, ts, h => ⟨ts, rfl, Option.some.inj h⟩
  | e :: es, fs, ts, h => by
    obtain ⟨fs', he, hrest⟩ := run_cons h
    obtain ⟨f, hf, rfl⟩ := Option.map_eq_some_iff.mp he
    obtain ⟨t, ht, rfl⟩ := Track.step_of_flight hf
    have hflights : (fun sp => (Function.update ts e.1 t sp).flight) =
        Function.update (fun sp => (ts sp).flight) e.1 t.flight := by
      funext sp
      rw [Function.update_apply, Function.update_apply]
      split <;> rfl
    rw [← hflights] at hrest
    obtain ⟨ts', hrun, heq⟩ := run_tracksStep hrest
    refine ⟨ts', ?_, heq⟩
    simp only [run, tracksStep, ht, Option.map_some]
    exact hrun

/-! ## The invariant -/

namespace Track

/-- Each packet is in one place, and the numbers are those used. -/
structure Accounted (t : Track) : Prop where
  each : t.sent.Perm (t.flight.sent.packets ++ (t.acked ++ (t.lost ++ t.dropped)))
  numbers : t.sent.map SentPacket.number = List.range t.flight.nextPacketNumber
  largest : ∀ n, t.flight.sent.largestAcked = some n → n < t.flight.nextPacketNumber
  eliciting : ∀ p ∈ t.flight.sent.packets, p.ackEliciting = true →
    t.flight.sent.lastAckEliciting.isSome = true

/-- Besides, what is behind the largest number acknowledged has a deadline. -/
structure Settled (t : Track) : Prop extends Accounted t where
  due : ∀ n, t.flight.sent.largestAcked = some n → ∀ p ∈ t.flight.sent.packets, p.number ≤ n →
    ∃ d lossDelay, t.flight.lossDeadline = some d ∧ t.lossDelay = some lossDelay ∧
      d ≤ p.timeSent + lossDelay

theorem Settled.start : start.Settled where
  each := .nil
  numbers := rfl
  largest := fun _ h => nomatch h
  eliciting := nofun
  due := fun _ h => nomatch h

/-- A packet in flight has one of the numbers used. -/
theorem Accounted.number_lt {t : Track} (h : t.Accounted) {p : SentPacket}
    (hp : p ∈ t.flight.sent.packets) : p.number < t.flight.nextPacketNumber := by
  have hsent : p ∈ t.sent := h.each.mem_iff.mpr (List.mem_append_left _ hp)
  have hnumber := List.mem_map_of_mem (f := SentPacket.number) hsent
  rw [h.numbers] at hnumber
  exact List.mem_range.mp hnumber

theorem Accounted.drain {t : Track} (h : t.Accounted) (ranges : List (Nat × Nat)) :
    (t.drain ranges).Accounted where
  each := by
    refine List.perm_iff_count.mpr fun q => ?_
    have hall := h.each.count_eq q
    have hsplit := (SentPackets.drainAcked_perm t.flight.sent ranges).count_eq q
    simp only [Track.drain, Flight.drain, List.count_append] at hall hsplit ⊢
    omega
  numbers := h.numbers
  largest := by
    intro n hn
    rcases SentPackets.largestAcked_drainAcked hn with hold | ⟨p, hp, rfl⟩
    · exact h.largest n hold
    · exact h.number_lt hp
  eliciting := fun p hp he => h.eliciting p (SentPackets.drainAcked_subset hp) he

theorem Accounted.check {t : Track} (h : t.Accounted) (now lossDelay : Nat) :
    (t.check now lossDelay).Settled := by
  obtain ⟨hlargest, hlast⟩ := SentPackets.detectLost_fields t.flight.sent now lossDelay
  have hsubset := (SentPackets.detectLost_subset t.flight.sent now lossDelay).2
  refine ⟨⟨?_, h.numbers, fun n hn => ?_, fun p hp he => ?_⟩, fun n hn p hp hle => ?_⟩
  · refine List.perm_iff_count.mpr fun q => ?_
    have hall := h.each.count_eq q
    have hsplit := (SentPackets.detectLost_perm t.flight.sent now lossDelay).count_eq q
    simp only [Track.check, Flight.check, List.count_append] at hall hsplit ⊢
    omega
  · exact h.largest n (hlargest.symm.trans hn)
  · exact (congrArg Option.isSome hlast).trans (h.eliciting p (hsubset p hp) he)
  · obtain ⟨d, hd, hle'⟩ := SentPackets.detectLost_deadline (hlargest.symm.trans hn) hp hle
    exact ⟨d, lossDelay, hd, rfl, hle'⟩

theorem Settled.send {t : Track} (h : t.Settled) {p : SentPacket}
    (hp : p.number = t.flight.nextPacketNumber) :
    { t with
      flight := { t.flight with
        sent := t.flight.sent.push p, nextPacketNumber := t.flight.nextPacketNumber + 1 }
      sent := t.sent ++ [p] }.Settled where
  each := by
    refine List.perm_iff_count.mpr fun q => ?_
    have hall := h.each.count_eq q
    simp only [SentPackets.push, List.count_append] at hall ⊢
    omega
  numbers := by
    simp only [List.map_append, h.numbers, List.range_succ, List.map_cons, List.map_nil, hp]
  largest := fun n hn => Nat.lt_succ_of_lt (h.largest n hn)
  eliciting := by
    intro q hq he
    simp only [SentPackets.push] at hq ⊢
    split
    · rfl
    · rename_i hnot
      rcases List.mem_append.mp hq with hq | hq
      · exact h.eliciting q hq he
      · rw [List.mem_singleton.mp hq] at he
        exact absurd he hnot
  due := by
    intro n hn q hq hle
    rcases List.mem_append.mp hq with hq | hq
    · exact h.due n hn q hq hle
    · -- a new packet is above every number acknowledged
      have hlt := h.largest n hn
      rw [List.mem_singleton.mp hq, hp] at hle
      exact absurd hlt (Nat.not_lt.mpr hle)

theorem Settled.drop {t : Track} (h : t.Settled) :
    { t with
      flight := ⟨{}, none, t.flight.nextPacketNumber⟩
      dropped := t.dropped ++ t.flight.sent.packets }.Settled where
  each := by
    refine h.each.trans (List.perm_append_comm.trans ?_)
    simp only [List.nil_append, List.append_assoc]
    exact .refl _
  numbers := h.numbers
  largest := fun _ hn => nomatch hn
  eliciting := nofun
  due := fun _ hn => nomatch hn

theorem Settled.step {t t' : Track} {e : Change} (h : t.Settled) (hstep : t.step e = some t') :
    t'.Settled := by
  obtain ⟨f, hf, rfl⟩ := Option.map_eq_some_iff.mp hstep
  cases e with
  | send p =>
    simp only [Flight.step, Option.ite_none_right_eq_some] at hf
    obtain ⟨hp, hf⟩ := hf
    cases hf
    exact h.send hp
  | ack ranges now lossDelay => exact (h.toAccounted.drain ranges).check now lossDelay
  | check now lossDelay => exact h.toAccounted.check now lossDelay
  | drop =>
    cases hf
    exact h.drop

/-- What the books of every space say, every change of one keeps. -/
theorem Settled.run {es : List (Space × Change)} {ts ts' : Space → Track}
    (hrun : run tracksStep ts es = some ts') (h : ∀ sp, (ts sp).Settled) :
    ∀ sp, (ts' sp).Settled := by
  refine run_invariant (P := fun ts => ∀ sp, (ts sp).Settled) ?_ h hrun
  intro ts e ts' h hstep
  obtain ⟨t, ht, rfl⟩ := Option.map_eq_some_iff.mp hstep
  exact (Function.forall_update_iff ts (p := fun _ t => t.Settled)).mpr
    ⟨(h e.1).step ht, fun sp _ => h sp⟩

end Track

/-! ## Runs -/

/-- A connection with what it has sent and the loss checks it was asked for. -/
structure Traffic where
  conn : Connection
  sent : List OutPacket
  checks : List (Space × Change)

namespace Op

open Connection

/-- What an operation takes out of flight: what the frames of a datagram acknowledge, with the loss
check after each, and the checks of a timeout. Each is at the operation's own instant, and with the
loss delay of the connection: before the timeout, or behind the frame, which may have a new sample
of the round trip. -/
def checks (c : Connection) : Op → List (Space × Change)
  | timeout now => [.initial, .handshake, .data].map fun sp => (sp, .check now c.rtt.lossDelay)
  | op => (op.packets c).flatMap fun x =>
    (x.conn.packetFrames x.now x.packet).map fun y => (x.packet.space,
      .ack y.2.acks x.now (y.1.handleFrame x.packet.space y.2 x.now).2.rtt.lossDelay)

end Op

def Traffic.step (t : Traffic) (op : Op) : Option Traffic :=
  (op.step t.conn).map fun c =>
    { conn := c, sent := t.sent ++ op.sent t.conn, checks := t.checks ++ op.checks t.conn }

/-- What is acknowledged or checked is so by one of `checks`, and the data space is never
dropped. -/
def Ascribed (checks : List (Space × Change)) (e : Space × Change) : Prop :=
  match e.2 with
  | .ack .. | .check .. => e ∈ checks
  | .drop => e.1 ≠ .data
  | .send _ => True

theorem Ascribed.mono {checks checks' : List (Space × Change)} (h : checks ⊆ checks') :
    ∀ e, Ascribed checks e → Ascribed checks' e
  | (_, .ack ..), he | (_, .check ..), he => h he
  | (_, .drop), he => he
  | (_, .send _), _ => trivial

open Connection

/-- What one operation does to the flights: it sends what it puts in a datagram, and takes out
what the ACK frames of one acknowledge. -/
theorem Op.step_flown {c c' : Connection} {op : Op} (h : op.step c = some c') :
    Flown (Ascribed (op.checks c)) ((op.sent c).map OutPacket.sentAs) c c' := by
  cases op with
  | datagram now d =>
    cases h
    refine handleDatagram_flown (by simp [Ascribed]) (by simp [Ascribed]) fun x hx y hy => ?_
    exact List.mem_flatMap.mpr ⟨x, hx, List.mem_map.mpr ⟨y, hy, rfl⟩⟩
  | transmit now pad =>
    simp only [Op.step] at h
    split at h
    · cases h
    · rename_i r c₁ hpanic hpoll
      cases h
      have hflown := pollTransmit_flown (A := Ascribed ((transmit now pad).checks c))
        (fun _ _ => trivial) (by simp [Ascribed]) now c pad
      rw [hpoll] at hflown
      simp only [Op.sent, hpoll]
      cases r with
      | ok out => exact hflown
      | error e =>
        rcases hflown with rfl | hflown
        · exact (hpanic rfl).elim
        · exact hflown
  | timeout now =>
    cases h
    exact handleTimeout_flown c fun sp => List.mem_map_of_mem (by cases sp <;> decide)
  | openBi =>
    cases h
    exact .of_spaces (spaces_openBi c)
  | openUni =>
    cases h
    exact .of_base (base_openUni c)
  | sendOneshot data =>
    cases h
    exact .of_spaces (spaces_sendOneshot c data)
  | write id data =>
    cases h
    exact .of_base (base_write c id data)
  | finish id =>
    cases h
    exact .of_base (base_finish c id)
  | consume id f =>
    cases h
    exact .of_base (base_consume c id f)
  | retire id cancel =>
    cases h
    exact .of_base (base_retire c id cancel)
  | pollEvent =>
    cases h
    exact .of_spaces (spaces_pollEvent c)
  | close code reason =>
    cases h
    exact .of_eq (close_elsewhere c code reason).flights

theorem Traffic.run_flown {c : Connection} {ops : List Op} {t : Traffic}
    (h : run Traffic.step ⟨c, [], []⟩ ops = some t) :
    Flown (Ascribed t.checks) (t.sent.map OutPacket.sentAs) c t.conn := by
  refine run_invariant
    (P := fun t : Traffic => Flown (Ascribed t.checks) (t.sent.map OutPacket.sentAs) c t.conn)
    ?_ (.refl c) h
  intro t op t' ht hstep
  obtain ⟨c', hc', rfl⟩ := Option.map_eq_some_iff.mp hstep
  simp only [List.map_append]
  exact (ht.mono (Ascribed.mono (List.subset_append_left _ _))).trans
    ((Op.step_flown hc').mono (Ascribed.mono (List.subset_append_right _ _)))

/-- A ClientHello and a probe of it; the peer acknowledges the probe alone. -/
def probedTraffic : Option Traffic :=
  run Traffic.step
    ⟨connect ⟨100, 100, 3, 30000, 5000⟩ ourCid serverCid
      { writes := [{ data := [1, 2, 3] }] }, [], []⟩
    [.transmit 0 none, .timeout 334000000, .transmit 334000000 none,
      .datagram 3334000000 (initialDatagram 0 [2, 1, 0, 0, 0])]

/-- The numbers used in one space, in the order they were used. -/
def numbersIn (sp : Space) (sent : List (Space × Nat)) : List Nat :=
  (sent.filter (·.1 = sp)).map (·.2)

theorem tracksStep_numbers {sp : Space} {e : Space × Change} {ts ts' : Space → Track}
    (h : tracksStep ts e = some ts') :
    (ts' sp).sent.map SentPacket.number =
      (ts sp).sent.map SentPacket.number ++ numbersIn sp (sentNumber e).toList := by
  obtain ⟨sp', change⟩ := e
  obtain ⟨t, ht, rfl⟩ := Option.map_eq_some_iff.mp h
  obtain ⟨f, -, rfl⟩ := Option.map_eq_some_iff.mp ht
  by_cases hsp : sp = sp'
  · subst hsp
    cases change <;> simp [numbersIn, sentNumber, Track.check, Track.drain]
  · cases change <;> simp [numbersIn, sentNumber, hsp, Ne.symm hsp]

theorem run_numbers {sp : Space} {es : List (Space × Change)} {ts ts' : Space → Track}
    (h : run tracksStep ts es = some ts') :
    (ts' sp).sent.map SentPacket.number =
      (ts sp).sent.map SentPacket.number ++ numbersIn sp (es.filterMap sentNumber) := by
  induction es generalizing ts with
  | nil =>
    cases h
    exact (List.append_nil _).symm
  | cons e es ih =>
    obtain ⟨ts₁, he, hrest⟩ := run_cons h
    rw [ih hrest, tracksStep_numbers he, List.append_assoc]
    unfold numbersIn
    rw [← List.map_append, ← List.filter_append]
    cases hn : sentNumber e <;> simp [hn]

/-- **A packet number is used once.** What a connection has sent in a space carries the numbers
0, 1, 2, … in the order it was sent, through lost packets, probes, key updates and a Retry; and
whatever the peer claims to have received, the largest number taken as acknowledged was sent. -/
theorem packet_numbers_in_order {input : LocalParamsInput} {localCid initialDcid : ConnectionId}
    {tls : Tls} {ops : List Op} {t : Traffic}
    (hrun : run Traffic.step ⟨connect input localCid initialDcid tls, [], []⟩ ops = some t)
    (sp : Space) :
    numbersIn sp (t.sent.map OutPacket.sentAs) = List.range (t.conn.space sp).nextPacketNumber ∧
      ∀ n, (t.conn.space sp).sent.largestAcked = some n →
        n < (t.conn.space sp).nextPacketNumber := by
  obtain ⟨es, hflights, -, hsent⟩ := Traffic.run_flown hrun
  have hstart : (connect input localCid initialDcid tls).flights =
      fun sp => ((fun _ => Track.start : Space → Track) sp).flight := by
    funext sp
    cases sp <;> rfl
  obtain ⟨ts, hts, heq⟩ := run_tracksStep (hstart ▸ hflights)
  have hflight : (ts sp).flight = t.conn.flights sp := congrFun heq sp
  obtain ⟨-, hnumbers, hlargest, -⟩ := (Track.Settled.run hts fun _ => .start) sp |>.toAccounted
  rw [hflight] at hnumbers hlargest
  rw [← hsent]
  exact ⟨(run_numbers hts).symm.trans hnumbers, hlargest⟩

theorem packet_numbers_in_order_probed :
    ∃ t ∈ probedTraffic, numbersIn .initial (t.sent.map OutPacket.sentAs) = [0, 1] := by
  have hnext : (probedTraffic.map fun t => (t.conn.space .initial).nextPacketNumber) = some 2 := by
    decide +kernel
  obtain ⟨t, ht, hn⟩ := Option.map_eq_some_iff.mp hnext
  exact ⟨t, ht, (packet_numbers_in_order ht .initial).1.trans (congrArg List.range hn)⟩

end Shb.Quic
