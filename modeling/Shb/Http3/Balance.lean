import Shb.Http3.Accounting

/-!
# The balance of one connection

`Accounting` follows one pass over one connection up to the filling. Here the rest of what a
worker does with a connection is put on top: filling, sending, giving it up and opening the
next one.

Most of an event leaves the counts of its connection alone and only moves the QUIC state
along. `Kept` says that once.
-/

namespace Shb.Http3

open Lib
open Quic (Connection Steady clientStreamId)

variable {cfg : Config} {c c' c'' : Conn} {n n' : Counts}

/-! ## What leaves the counts alone -/

/-- Only the QUIC state has moved, and what is on its way to the socket. -/
structure Kept (c c' : Conn) : Prop where
  streams : c'.streams = c.streams
  giveBacks : c'.giveBacks = c.giveBacks
  given : c'.given = c.given
  failed : c'.failed = c.failed
  connectFailed : c'.connectFailed = c.connectFailed
  h3Ready : c'.h3Ready = c.h3Ready
  h3Init : c'.h3Init = c.h3Init
  closing : c'.closing = c.closing
  quic : c'.quic = c.quic ∨ ∃ q q', c.quic = some q ∧ c'.quic = some q' ∧ Steady q q'

namespace Kept

/-- The QUIC connection of `c` has come from `q` to `q'`. -/
theorem of_steady {q q' : Connection} (hq : c.quic = some q) (hs : Steady q q') :
    Kept c { c with quic := some q' } :=
  ⟨rfl, rfl, rfl, rfl, rfl, rfl, rfl, rfl, Or.inr ⟨q, q', hq, rfl, hs⟩⟩

section

variable (h : Kept c c')
include h

theorem requests : c'.requests = c.requests := by
  unfold Conn.requests
  rcases h.quic with heq | ⟨q, q', hq, hq', hs⟩
  · rw [heq]
  · rw [hq, hq']
    exact hs.nextBidi

theorem due : c'.due ≤ c.due := by
  unfold Conn.due
  rcases h.quic with heq | ⟨q, q', hq, hq', hs⟩
  · rw [heq]
  · rw [hq, hq']
    exact hs.due

theorem quic_isSome : c'.quic.isSome = c.quic.isSome := by
  rcases h.quic with heq | ⟨q, q', hq, hq', _⟩
  · rw [heq]
  · rw [hq, hq']
    rfl

theorem owed : c'.owed = c.owed := by
  simp only [Conn.owed, h.streams, h.giveBacks]

theorem errors : c'.errors = c.errors := by
  simp only [Conn.errors, h.failed, h.giveBacks, h.connectFailed]

theorem formed (hc : c.Formed) : c'.Formed where
  aligned := by
    rw [h.streams, h.requests]
    exact hc.aligned
  idle hready := by
    rw [h.requests]
    exact hc.idle (h.h3Ready ▸ hready)
  due := Nat.le_trans h.due hc.due
  once hready := by
    rw [h.h3Ready, h.h3Init] at hready
    exact Nat.le_zero.mp (hc.once hready ▸ h.due)

theorem tallied {k : Nat} (hc : c.Tallied cfg k) : c'.Tallied cfg k where
  balance := by
    rw [h.requests, h.giveBacks, h.failed, h.owed]
    exact hc.balance
  given := by
    rw [h.given, h.giveBacks]
    exact hc.given
  bound := by
    rw [h.giveBacks]
    exact hc.bound

theorem ok (hc : c.Ok cfg)
    (hidle : c.quic = none → c'.sending = false ∧ c'.outQueue = []) : c'.Ok cfg where
  formed := h.formed hc.formed
  tallied := h.tallied hc.tallied
  drained hlen := by
    rw [h.giveBacks]
    exact hc.drained (h.streams ▸ hlen)
  settled hclosing := by
    rw [h.owed]
    exact hc.settled (h.closing ▸ hclosing)
  absent hnone := by
    have hnone' : c.quic = none := by
      rw [← Option.not_isSome_iff_eq_none, ← h.quic_isSome, hnone]
      exact Bool.false_ne_true
    rw [h.closing]
    exact ⟨(hc.absent hnone').1, hidle hnone'⟩

theorem moves : Moves cfg c 0 n c' 0 n :=
  Moves.of_eq (by rw [h.owed]) (by rw [h.giveBacks]) h.errors

end

end Kept

/-! ## Filling -/

/-- What filling a connection comes to: so many more requests, each on a stream of its own. -/
structure Fills (cfg : Config) (c : Conn) (n : Counts) (c' : Conn) (n' : Counts) : Prop where
  formed : c'.Formed
  requests : c'.requests + c.streams.len = c.requests + c'.streams.len
  len_le : c.streams.len ≤ c'.streams.len
  started : n'.started + c.streams.len = n.started + c'.streams.len
  stats : n'.stats = n.stats
  giveBacks : c'.giveBacks = c.giveBacks
  given : c'.given = c.given
  failed : c'.failed = c.failed
  connectFailed : c'.connectFailed = c.connectFailed
  closing : c'.closing = c.closing
  quic : c'.quic.isSome = c.quic.isSome
  within : ∀ m, cfg.budget = .requests m → n.started ≤ m → n'.started ≤ m

theorem startStreams_spec (cfg : Config) (now fuel : Nat) :
    ∀ (quic : Connection) (streams : H3Ring InFlight) (hasUnsent : Bool) (started : Nat),
      Aligned streams quic.nextBidi →
      let out := startStreams cfg now fuel quic streams hasUnsent started
      Aligned out.2.1 out.1.nextBidi ∧ out.1.core.due ≤ quic.core.due ∧
        out.1.nextBidi + streams.len = quic.nextBidi + out.2.1.len ∧ streams.len ≤ out.2.1.len ∧
        out.2.2.2 + streams.len = started + out.2.1.len ∧
        ∀ m, cfg.budget = .requests m → started ≤ m → out.2.2.2 ≤ m := by
  induction fuel with
  | zero => exact fun quic streams _ started ha =>
      ⟨ha, Nat.le_refl _, rfl, Nat.le_refl _, rfl, fun _ _ h => h⟩
  | succ fuel ih =>
    intro quic streams hasUnsent started ha
    unfold startStreams
    split
    · rename_i hroom
      rw [Bool.and_eq_true] at hroom
      rcases Quic.Connection.sendOneshot_cases quic cfg.request with
        ⟨_, hnone⟩ | ⟨_, sent, hsome, hnext, hdue⟩
      · rw [hnone]
        exact ⟨ha, Nat.le_refl _, rfl, Nat.le_refl _, rfl, fun _ _ h => h⟩
      · cases hout : quic.sendOneshot cfg.request with
        | mk first quic' =>
          rw [hout] at hsome hnext hdue
          cases hsome
          simp only at hnext hdue
          have hpush := ha.push (s := InFlight.mk (clientStreamId .bi quic.nextBidi) now {}
            (cfg.request.drop sent)) rfl
          rw [← hnext] at hpush
          obtain ⟨ha', hdue', hreq, hle, hstarted, hwithin⟩ := ih quic' _
            (hasUnsent || decide (sent < cfg.request.length)) (started + 1) hpush
          rw [Ring.len_push] at hreq hle hstarted
          dsimp only
          refine ⟨ha', Nat.le_trans hdue' (Nat.le_of_eq hdue), by omega, by omega, by omega, ?_⟩
          intro m hm _
          refine hwithin m hm ?_
          rw [hm, Budget.mayStart_requests] at hroom
          exact hroom.2
    · exact ⟨ha, Nat.le_refl _, rfl, Nat.le_refl _, rfl, fun _ _ h => h⟩

theorem fillStreams_fills (cfg : Config) (stop : Bool) (now : Nat) (hc : c.Formed) (n : Counts) :
    Fills cfg c n (fillStreams cfg stop now c n).1 (fillStreams cfg stop now c n).2 := by
  have hsame : Fills cfg c n c n :=
    ⟨hc, rfl, Nat.le_refl _, rfl, rfl, rfl, rfl, rfl, rfl, rfl, rfl, fun _ _ h => h⟩
  unfold fillStreams
  split
  · exact hsame
  · rename_i hopen
    split
    · exact hsame
    · rename_i quic hquic
      have hready : c.h3Ready = true := by
        by_contra hnot
        exact hopen (by simp [hnot])
      have ha : Aligned c.streams quic.nextBidi := by
        have := hc.aligned
        unfold Conn.requests at this
        rwa [hquic] at this
      obtain ⟨ha', hdue, hreq, hle, hstarted, hwithin⟩ :=
        startStreams_spec cfg now cfg.parallel quic c.streams c.hasUnsent n.started ha
      have hcdue : c.due = quic.core.due := by simp [Conn.due, hquic]
      have hgone := hc.once (Or.inl hready)
      refine ⟨⟨ha', fun h => absurd (hready.symm.trans h) (by simp), ?_, fun _ => ?_⟩, ?_, hle,
        hstarted, rfl, rfl, rfl, rfl, rfl, rfl, by rw [hquic]; rfl, hwithin⟩
      · exact Nat.le_trans hdue (Nat.le_trans (Nat.le_of_eq hcdue.symm) hc.due)
      · exact Nat.le_zero.mp (Nat.le_trans hdue (Nat.le_of_eq (hcdue.symm.trans hgone)))
      · simp only [Conn.requests, hquic]
        exact hreq

namespace Fills

theorem owed (h : Fills cfg c n c' n') : c'.owed + n.started = c.owed + n'.started := by
  have := h.started
  have := h.giveBacks
  simp only [Conn.owed, this]
  omega

theorem tallied (h : Fills cfg c n c' n') (hc : c.Tallied cfg 0) : c'.Tallied cfg 0 where
  balance := by
    have hb := hc.balance
    have hreq := h.requests
    simp only [Conn.owed, h.giveBacks, h.failed] at hb ⊢
    omega
  given := by
    rw [h.given, h.giveBacks]
    exact hc.given
  bound := by
    rw [h.giveBacks]
    exact hc.bound

theorem moves (h : Fills cfg c n c' n') : Moves cfg c 0 n c' 0 n' where
  balance rest hb := by
    have := h.owed
    rw [h.stats]
    omega
  completed := by rw [h.stats, h.giveBacks]
  errors := by
    have : c'.errors = c.errors := by
      simp only [Conn.errors, h.failed, h.giveBacks, h.connectFailed]
    rw [h.stats, this]
  within := h.within

end Fills

/-! ## A whole pass -/

theorem Conn.Ok.sound {quic : Connection} (hc : c.Ok cfg) (hq : c.quic = some quic) (n : Counts) :
    (Pass.start c quic n).Sound cfg 0 := by
  have hsame : (Pass.start c quic n).result = c := by
    simp only [Pass.result, Pass.start, ← hq]
  exact ⟨hsame.symm ▸ hc.formed, hsame.symm ▸ hc.tallied⟩

theorem drive_ok (stop : Bool) (now : Nat) (hc : c.Ok cfg) (hopen : c.closing = none) (n : Counts) :
    let out := drive cfg stop now c n
    out.2.1.Ok cfg ∧ Moves cfg c 0 n out.2.1 0 out.2.2 ∧ out.2.1.closing = none ∧
      out.2.1.quic.isSome = c.quic.isSome ∧ (out.1 = false → c.quic.isSome = true) := by
  unfold drive
  cases hq : c.quic with
  | none => exact ⟨hc, Moves.of_eq rfl rfl rfl, hopen, by rw [hq], fun h => absurd h (by simp)⟩
  | some quic =>
    have hsound := hc.sound hq n
    have hback : (Pass.start c quic n).result = c := by simp only [Pass.result, Pass.start, ← hq]
    have hidle := Pass.gather_idle (Pass.start c quic n)
    have hgather := hidle.leads hsound
    -- a connection that was driven and is not closing is in order once nothing waits in vain
    have hok : ∀ {d : Conn}, d.Formed → d.Tallied cfg 0 → d.closing = none → d.quic.isSome →
        (d.streams.len = 0 → d.giveBacks.unjudged = 0) → d.Ok cfg := by
      intro d hf ht hopen hsome hdrained
      refine ⟨hf, ht, hdrained, fun h => absurd h (by simp [hopen]), fun h => ?_⟩
      rw [h] at hsome
      exact absurd hsome (by simp)
    simp only
    split
    · rename_i p heq
      rw [heq] at hidle hgather
      have hclosing : p.conn.closing = none := hidle.closing.trans hopen
      refine ⟨hok hgather.sound.formed hgather.sound.tallied hclosing rfl ?_,
        hback ▸ hgather.moves, hclosing, rfl, fun _ => rfl⟩
      show p.conn.streams.len = 0 → p.conn.giveBacks.unjudged = 0
      rw [hidle.len, hidle.giveBacks]
      exact hc.drained
    · rename_i p heq
      rw [heq] at hgather
      have hsettle := hgather.trans (Pass.settle_leads hgather.sound)
      have hfill := fillStreams_fills cfg stop now hsettle.sound.formed (p.settle cfg).counts
      have hclosing := hfill.closing.trans (hsettle.closing.trans hopen)
      have hsome := hfill.quic
      refine ⟨hok hfill.formed (hfill.tallied hsettle.sound.tallied) hclosing hsome ?_,
        hback ▸ hsettle.moves.trans hfill.moves, hclosing, hsome, fun _ => rfl⟩
      intro hlen
      rw [hfill.giveBacks]
      refine Pass.settle_drained p ?_
      exact Nat.le_zero.mp (Nat.le_trans hfill.len_le (Nat.le_of_eq hlen))

/-! ## Sending -/

theorem fillBatch_steady (now fuel : Nat) : ∀ (max : Nat) (b : Batch) (quic : Connection),
    Steady quic (fillBatch now fuel max b quic).2 := by
  induction fuel with
  | zero => exact fun _ _ quic => Steady.refl quic
  | succ fuel ih =>
    intro max b quic
    unfold fillBatch
    split
    · exact Steady.refl quic
    · have hpoll := Quic.Connection.pollTransmit_steady quic now
        (if 0 < b.count then some b.segmentSize else none)
      split
      · rename_i heq
        rw [heq] at hpoll
        exact hpoll
      · rename_i out quic' heq
        rw [heq] at hpoll
        simp only
        repeat' split
        all_goals first | exact hpoll | exact hpoll.trans (ih _ _ _)

theorem pumpTransmits_kept (cfg : Config) (now : Nat) (c : Conn) :
    Kept c (c.pumpTransmits cfg now).2 := by
  unfold Conn.pumpTransmits Conn.pushFrontSend
  split
  · repeat' split
    all_goals exact ⟨rfl, rfl, rfl, rfl, rfl, rfl, rfl, rfl, Or.inl rfl⟩
  · rename_i quic hq
    simp only
    have hs := fillBatch_steady now (if quic.probing then 2 else if cfg.gso then gsoSegments else 1)
      (if quic.probing then 2 else if cfg.gso then gsoSegments else 1) {} quic
    split
    all_goals
      rename_i heq
      rw [heq] at hs
    · exact Kept.of_steady hq hs
    · repeat' split
      all_goals exact ⟨rfl, rfl, rfl, rfl, rfl, rfl, rfl, rfl, Or.inr ⟨_, _, hq, rfl, hs⟩⟩

theorem pumpTransmits_idle (now : Nat) (hq : c.quic = none) (hs : c.sending = false)
    (ho : c.outQueue = []) :
    (c.pumpTransmits cfg now).2.sending = false ∧ (c.pumpTransmits cfg now).2.outQueue = [] := by
  simp [Conn.pumpTransmits, hq, hs, Conn.pushFrontSend, ho]

theorem Conn.Ok.pumpTransmits (hc : c.Ok cfg) (now : Nat) : (c.pumpTransmits cfg now).2.Ok cfg :=
  (pumpTransmits_kept cfg now c).ok hc fun hnone =>
    pumpTransmits_idle now hnone (hc.absent hnone).2.1 (hc.absent hnone).2.2

/-! ## Opening and closing -/

/-- A slot that no connection has, and that nothing is counted on. -/
structure Conn.Vacant (c : Conn) : Prop where
  quic : c.quic = none
  h3Ready : c.h3Ready = false
  h3Init : c.h3Init = none
  outQueue : c.outQueue = []
  sending : c.sending = false
  streams : c.streams = Ring.new
  giveBacks : c.giveBacks = {}
  closing : c.closing = none
  given : c.given = 0
  failed : c.failed = 0
  connectFailed : c.connectFailed = 0

theorem Conn.vacant_new : Conn.new.Vacant := ⟨rfl, rfl, rfl, rfl, rfl, rfl, rfl, rfl, rfl, rfl, rfl⟩

theorem Conn.vacant_close (c : Conn) : c.close.Vacant :=
  ⟨rfl, rfl, rfl, rfl, rfl, rfl, rfl, rfl, rfl, rfl, rfl⟩

/-- Nothing is counted on this connection. -/
structure Conn.Blank (c : Conn) : Prop where
  owed : c.owed = 0
  errors : c.errors = 0
  completed : c.giveBacks.completed = 0
  requests : c.requests = 0

/-- A slot without a QUIC connection, or with one on which nothing has happened. -/
theorem Conn.Vacant.ok (cfg : Config) (hc : c.Vacant) (quic : Option Connection)
    (hnew : ∀ q, quic = some q → q.nextBidi = 0 ∧ q.core.due ≤ 1) :
    ({ c with quic := quic } : Conn).Ok cfg ∧ ({ c with quic := quic } : Conn).Blank := by
  have hreq : ({ c with quic := quic } : Conn).requests = 0 := by
    cases quic with
    | none => rfl
    | some q => exact (hnew q rfl).1
  have hdue : ({ c with quic := quic } : Conn).due ≤ 1 := by
    cases quic with
    | none => exact Nat.zero_le 1
    | some q => exact (hnew q rfl).2
  have howed : ({ c with quic := quic } : Conn).owed = 0 := by
    simp [Conn.owed, hc.streams, hc.giveBacks]
  refine ⟨⟨⟨?_, fun _ => hreq, hdue, fun h => ?_⟩, ⟨?_, ?_, ?_⟩, fun _ => ?_, fun _ => howed,
    fun _ => ⟨hc.closing, hc.sending, hc.outQueue⟩⟩, howed, ?_, ?_, hreq⟩
  · rw [hreq]
    exact hc.streams ▸ Aligned.new 0
  · rcases h with h | h
    · exact absurd (hc.h3Ready.symm.trans h) (by simp)
    · exact absurd h (by simp [hc.h3Init])
  · rw [hreq, howed]
    simp [hc.giveBacks, hc.failed]
  · simp [hc.giveBacks, hc.given]
  · simp [hc.giveBacks]
  · simp [hc.giveBacks]
  · simp [Conn.errors, hc.giveBacks, hc.failed, hc.connectFailed]
  · simp [hc.giveBacks]

theorem Kept.blank (h : Kept c c') (hc : c.Blank) : c'.Blank where
  owed := h.owed.trans hc.owed
  errors := h.errors.trans hc.errors
  completed := h.giveBacks ▸ hc.completed
  requests := h.requests.trans hc.requests

theorem Conn.Vacant.self_ok (cfg : Config) (hc : c.Vacant) : c.Ok cfg ∧ c.Blank := by
  have h := hc.ok cfg none fun q hq => absurd hq (by simp)
  have hsame : ({ c with quic := none } : Conn) = c := by rw [← hc.quic]
  rwa [hsame] at h

theorem Conn.Vacant.connect_ok (cfg : Config) (hc : c.Vacant) (now : Nat) (s : Session) :
    (c.connect cfg now s).2.Ok cfg ∧ (c.connect cfg now s).2.Blank := by
  have hnew : ∀ q, some (Quic.Connection.connect (localParams cfg.connectTimeout cfg.timeout)
      s.localCid s.initialDcid s.tls) = some q → q.nextBidi = 0 ∧ q.core.due ≤ 1 := by
    intro q hq
    cases hq
    refine ⟨rfl, Nat.le_trans (Nat.le_of_eq ?_) s.once⟩
    exact Nat.zero_add _
  obtain ⟨hok, hblank⟩ := hc.ok cfg _ hnew
  exact ⟨hok.pumpTransmits now, (pumpTransmits_kept cfg now _).blank hblank⟩

/-- What was in flight, or waited for a verdict, is charged. -/
theorem failInflight_spec (hc : c.Ok cfg) (n : Counts) :
    (c.failInflight n).1.Formed ∧ (c.failInflight n).1.Tallied cfg 0 ∧
      (c.failInflight n).1.owed = 0 ∧ Moves cfg c 0 n (c.failInflight n).1 0
        (c.failInflight n).2 := by
  have hf := hc.formed
  have ht := hc.tallied
  refine ⟨⟨Aligned.new _, hf.idle, hf.due, hf.once⟩, ⟨?_, ?_, ht.bound⟩, rfl, ?_⟩
  · have hb := ht.balance
    show c.requests = c.giveBacks.completed + (c.failed + c.streams.len) +
      (c.giveBacks.charged + c.giveBacks.unjudged) + c.giveBacks.retried + (0 + 0)
    unfold Conn.owed at hb
    omega
  · have hg := ht.given
    show c.given = c.giveBacks.retried + (c.giveBacks.charged + c.giveBacks.unjudged) + 0
    omega
  · refine ⟨fun rest h => ?_, rfl, ?_, fun _ _ h => h⟩
    · have h' : n.started = n.stats.completed + n.stats.errors +
        (c.streams.len + c.giveBacks.unjudged + 0) + rest := h
      show n.started = n.stats.completed + (n.stats.errors + c.streams.len + c.giveBacks.unjudged) +
        (0 + 0) + rest
      omega
    · show n.stats.errors + c.streams.len + c.giveBacks.unjudged +
          (c.failed + c.giveBacks.charged + c.connectFailed) =
        n.stats.errors + (c.failed + c.streams.len + (c.giveBacks.charged + c.giveBacks.unjudged) +
          c.connectFailed)
      omega

/-- A connection that is given up is accounted for. -/
theorem charge_spec (hc : c.Ok cfg) (n : Counts) :
    (c.charge cfg.budget n).1.Formed ∧ (c.charge cfg.budget n).1.Tallied cfg 0 ∧
      (c.charge cfg.budget n).1.owed = 0 ∧
      Moves cfg c 0 n (c.charge cfg.budget n).1 0 (c.charge cfg.budget n).2 := by
  have hf := hc.formed
  have ht := hc.tallied
  unfold Conn.charge
  split
  · exact failInflight_spec hc n
  · rename_i hready
    have hzero : c.owed = 0 := ht.owed_of_idle (hf.idle (by simpa using hready))
    split
    · rename_i hmay
      refine ⟨⟨hf.aligned, hf.idle, hf.due, hf.once⟩, ⟨ht.balance, ht.given, ht.bound⟩, hzero, ?_⟩
      refine ⟨fun rest h => ?_, rfl, ?_, fun m hm _ => ?_⟩
      · have h' : n.started = n.stats.completed + n.stats.errors + (c.owed + 0) + rest := h
        show n.started + 1 = n.stats.completed + (n.stats.errors + 1) + (c.owed + 0) + rest
        omega
      · show n.stats.errors + 1 + (c.failed + c.giveBacks.charged + c.connectFailed) =
          n.stats.errors + (c.failed + c.giveBacks.charged + (c.connectFailed + 1))
        omega
      · rw [hm, Budget.mayStart_requests] at hmay
        exact hmay
    · exact ⟨hf, ht, hzero, Moves.of_eq rfl rfl rfl⟩

theorem charge_quic (c : Conn) (budget : Budget) (n : Counts) :
    (c.charge budget n).1.quic = c.quic := by
  unfold Conn.charge
  repeat' split
  all_goals rfl

end Shb.Http3
