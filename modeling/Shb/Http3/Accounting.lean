import Shb.Lib.Sums
import Shb.Http3.Worker
import Shb.Quic.Conn.Steady

/-!
# Every request stream is accounted for

A request stream that was opened on a connection is in exactly one place: answered, failed,
given back and charged, given back and sent again, waiting for a verdict, or in flight. That
is one equation for each connection (`Conn.Tallied`), and

`started = completed + errors + Σ owed`

is its sum over the connections of a worker.

The equation leans on the ring: the requests a GOAWAY turns away are given back one by one by
their ids without looking at what `take` found, so each id has to find its request. It does,
because a worker opens the streams of a connection one after the other and nothing else opens
any (`Aligned`). And it leans on `Connected` being said once: a connection that says it again
could be not ready with requests in flight, and what is not ready is closed without counting
them (`Conn.Formed`).
-/

namespace Shb.Http3

open Lib
open Quic (Connection Steady clientStreamId)

/-! ## The ring of a connection -/

/-- Every request is where its id says, and the next one will be too. -/
structure Aligned (r : H3Ring InFlight) (next : Nat) : Prop where
  ok : r.Ok
  expects : r.Expects next
  ids : ∀ n s, r.cell n = some s → s.streamId = clientStreamId .bi n

theorem shift_streamId (n : Nat) : clientStreamId .bi n >>> 2 = n := by
  simp only [clientStreamId, Nat.shiftRight_eq_div_pow]
  omega

theorem mask_streamId (n : Nat) : clientStreamId .bi n &&& Ring.mask 2 = 0 := by
  rw [Ring.mask, Nat.and_two_pow_sub_one_eq_mod]
  simp [clientStreamId]

namespace Aligned

variable {r : H3Ring InFlight} {next : Nat}

theorem new (next : Nat) : Aligned Ring.new next :=
  ⟨Ring.new_ok, Or.inl rfl, fun n s h => absurd h (by simp)⟩

theorem push (h : Aligned r next) {s : InFlight} (hs : s.streamId = clientStreamId .bi next) :
    Aligned (r.push (clientStreamId .bi next) s) (next + 1) := by
  have hexpects : r.Expects (clientStreamId .bi next >>> 2) :=
    (shift_streamId next).symm ▸ h.expects
  refine ⟨h.ok.push _ _, ?_, ?_⟩
  · have hpush := Ring.Expects.push h.ok hexpects s
    rwa [shift_streamId] at hpush
  · intro n s' hcell
    rw [Ring.cell_push h.ok hexpects, shift_streamId] at hcell
    split at hcell
    · rename_i hn
      rw [hn, ← Option.some.inj hcell]
      exact hs
    · exact h.ids n s' hcell

theorem take (h : Aligned r next) (id : Nat) : Aligned (r.take id).2 next := by
  refine ⟨h.ok.take id, h.expects.take id, ?_⟩
  intro n s hcell
  by_cases hm : id &&& Ring.mask 2 = 0
  · rw [Ring.cell_take r id n hm] at hcell
    split at hcell
    · exact absurd hcell (by simp)
    · exact h.ids n s hcell
  · have hnone : (r.take id).1 = none := by rw [Ring.take_fst, Ring.get_eq_cell, if_neg hm]
    rw [Ring.take_none hnone] at hcell
    exact h.ids n s hcell

theorem modify (h : Aligned r next) (id : Nat) {f : InFlight → InFlight}
    (hf : ∀ s, (f s).streamId = s.streamId) : Aligned (r.modify id f) next := by
  refine ⟨h.ok.modify id f, h.expects.modify id f, ?_⟩
  intro n s hcell
  by_cases hm : id &&& Ring.mask 2 = 0
  · rw [Ring.cell_modify r id f n hm] at hcell
    split at hcell
    · obtain ⟨s₀, hs₀, rfl⟩ := Option.map_eq_some_iff.mp hcell
      rw [hf]
      exact h.ids n s₀ hs₀
    · exact h.ids n s hcell
  · rcases Ring.modify_cases r id f with ⟨_, heq⟩ | ⟨hm', _⟩
    · rw [heq] at hcell
      exact h.ids n s hcell
    · exact absurd hm' hm

theorem slotModify (h : Aligned r next) (i : Nat) {f : InFlight → InFlight}
    (hf : ∀ s, (f s).streamId = s.streamId) : Aligned (r.slotModify i f) next := by
  refine ⟨h.ok.slotModify i f, h.expects.slotModify i f, ?_⟩
  intro n s hcell
  rw [Ring.cell_slotModify] at hcell
  split at hcell
  · obtain ⟨s₀, hs₀, rfl⟩ := Option.map_eq_some_iff.mp hcell
    rw [hf]
    exact h.ids n s₀ hs₀
  · exact h.ids n s hcell

/-- The ids of a window are in order, and all its own. -/
theorem ids_window {w : List (Option InFlight)} {b : Nat}
    (h : ∀ i s, w[i]? = some (some s) → s.streamId = clientStreamId .bi (b + i)) :
    (w.reduceOption.map InFlight.streamId).Nodup ∧
      ∀ id ∈ w.reduceOption.map InFlight.streamId, clientStreamId .bi b ≤ id := by
  induction w generalizing b with
  | nil => exact ⟨List.nodup_nil, nofun⟩
  | cons a w ih =>
    obtain ⟨hnodup, hle⟩ := ih (b := b + 1) fun i s hs => by
      rw [h (i + 1) s (by simpa using hs)]
      congr 1
      omega
    have hstep : clientStreamId .bi b < clientStreamId .bi (b + 1) := by
      simp only [clientStreamId]
      omega
    cases a with
    | none =>
      exact ⟨hnodup, fun id hid => Nat.le_trans (Nat.le_of_lt hstep) (hle id hid)⟩
    | some s =>
      have hs : s.streamId = clientStreamId .bi b := h 0 s rfl
      simp only [List.reduceOption_cons_of_some, List.map_cons, List.nodup_cons, List.mem_cons,
        forall_eq_or_imp]
      refine ⟨⟨fun hmem => ?_, hnodup⟩, Nat.le_of_eq hs.symm, fun id hid => ?_⟩
      · have := hle _ hmem
        omega
      · exact Nat.le_trans (Nat.le_of_lt hstep) (hle id hid)

theorem window_ids (h : Aligned r next) :
    ∀ i s, r.window[i]? = some (some s) → s.streamId = clientStreamId .bi (r.base + i) := by
  intro i s hs
  refine h.ids (r.base + i) s ?_
  unfold Ring.cell Ring.cellAt
  rw [if_neg (by omega), Nat.add_sub_cancel_left, hs]
  rfl

theorem nodup (h : Aligned r next) : (r.iter.map InFlight.streamId).Nodup :=
  (ids_window h.window_ids).1

theorem get_iter (h : Aligned r next) {s : InFlight} (hs : s ∈ r.iter) :
    r.get s.streamId = some s := by
  have hmem : some s ∈ r.window := List.reduceOption_mem_iff.mp hs
  obtain ⟨i, hi⟩ := List.mem_iff_getElem?.mp hmem
  have hid := h.window_ids i s hi
  rw [hid, Ring.get_eq_cell, if_pos (mask_streamId _), shift_streamId]
  unfold Ring.cell Ring.cellAt
  rw [if_neg (by omega), Nat.add_sub_cancel_left, hi]
  rfl

end Aligned

/-! ## What became of the requests of one connection -/

namespace Conn

/-- Request streams opened on the connection. -/
def requests (c : Conn) : Nat := c.quic.elim 0 (·.nextBidi)

/-- `Connected` events the connection may still say. -/
def due (c : Conn) : Nat := c.quic.elim 0 (·.core.due)

/-- Requests a connection still has to answer for. -/
def owed (c : Conn) : Nat := c.streams.len + c.giveBacks.unjudged

/-- What the connection has been charged. -/
def errors (c : Conn) : Nat := c.failed + c.giveBacks.charged + c.connectFailed

/-- The state of a connection, counts apart. -/
structure Formed (c : Conn) : Prop where
  aligned : Aligned c.streams c.requests
  /-- Requests wait for the connection to be ready. -/
  idle : c.h3Ready = false → c.requests = 0
  due : c.due ≤ 1
  once : c.h3Ready = true ∨ c.h3Init.isSome = true → c.due = 0

/-- The counts of a connection, with `k` requests in hand: taken out of the ring and not yet
counted. -/
structure Tallied (cfg : Config) (k : Nat) (c : Conn) : Prop where
  balance : c.requests = c.giveBacks.completed + c.failed + c.giveBacks.charged +
    c.giveBacks.retried + (c.owed + k)
  given : c.given = c.giveBacks.retried + c.giveBacks.charged + c.giveBacks.unjudged
  bound : c.giveBacks.retried ≤ cfg.parallel * c.giveBacks.completed

/-- A connection between two events. -/
structure Ok (cfg : Config) (c : Conn) : Prop where
  formed : c.Formed
  tallied : c.Tallied cfg 0
  /-- A connection with nothing in flight has no verdict to wait for. -/
  drained : c.streams.len = 0 → c.giveBacks.unjudged = 0
  /-- A connection that is closing is accounted for. -/
  settled : c.closing.isSome = true → c.owed = 0
  /-- Without a QUIC connection there is nothing. -/
  absent : c.quic = none → c.closing = none ∧ c.sending = false ∧ c.outQueue = []

/-- A connection that was not ready owes nothing. -/
theorem Tallied.owed_of_idle {cfg : Config} {k : Nat} {c : Conn} (h : c.Tallied cfg k)
    (hz : c.requests = 0) : c.owed = 0 := by
  have := h.balance
  omega

end Conn

/-- From one connection's counts to another's, with nothing lost and nothing made up; `k` and
`k'` are the requests in hand. -/
structure Moves (cfg : Config) (c : Conn) (k : Nat) (n : Counts) (c' : Conn) (k' : Nat)
    (n' : Counts) : Prop where
  balance : ∀ rest, n.started = n.stats.finished + (c.owed + k) + rest →
    n'.started = n'.stats.finished + (c'.owed + k') + rest
  completed : n'.stats.completed + c.giveBacks.completed =
    n.stats.completed + c'.giveBacks.completed
  errors : n'.stats.errors + c.errors = n.stats.errors + c'.errors
  /-- No more is started than the budget covers. -/
  within : ∀ m, cfg.budget = .requests m → n.started ≤ m → n'.started ≤ m

namespace Moves

variable {cfg : Config} {c c₁ c₂ : Conn} {k k₁ k₂ : Nat} {n n₁ n₂ : Counts}

theorem trans (h₁ : Moves cfg c k n c₁ k₁ n₁) (h₂ : Moves cfg c₁ k₁ n₁ c₂ k₂ n₂) :
    Moves cfg c k n c₂ k₂ n₂ where
  balance rest h := h₂.balance rest (h₁.balance rest h)
  completed := by
    have := h₁.completed
    have := h₂.completed
    omega
  errors := by
    have := h₁.errors
    have := h₂.errors
    omega
  within m hm h := h₂.within m hm (h₁.within m hm h)

theorem of_eq (ho : c₁.owed + k₁ = c.owed + k) (hg : c₁.giveBacks.completed = c.giveBacks.completed)
    (he : c₁.errors = c.errors) : Moves cfg c k n c₁ k₁ n where
  balance _ h := by rw [ho]; exact h
  completed := by rw [hg]
  errors := by rw [he]
  within _ _ h := h

end Moves

/-! ## Give-backs -/

/-- All give-backs there have been, by what became of them. -/
def GiveBacks.total (g : GiveBacks) : Nat := g.retried + g.charged + g.unjudged

/-- So many give-backs have been taken in. -/
structure Takes (parallel : Nat) (g : GiveBacks) (n : Counts) (k : Nat) (g' : GiveBacks)
    (n' : Counts) : Prop where
  completed : g'.completed = g.completed
  total : g'.total = g.total + k
  bound : g.retried ≤ parallel * g.completed → g'.retried ≤ parallel * g'.completed
  answered : n'.stats.completed = n.stats.completed
  errors : n'.stats.errors + g.charged = n.stats.errors + g'.charged
  started : ∀ rest, n.started = n.stats.finished + (g.unjudged + k) + rest →
    n'.started = n'.stats.finished + g'.unjudged + rest
  started_le : n'.started ≤ n.started
  /-- Once something was answered nothing more waits. -/
  unjudged : 0 < g.completed → g'.unjudged ≤ g.unjudged

namespace GiveBacks

variable (g : GiveBacks)

variable (parallel : Nat)

theorem giveBack_takes (n : Counts) :
    Takes parallel g n 1 (g.giveBack parallel n).1 (g.giveBack parallel n).2 := by
  unfold giveBack
  split
  · rename_i hzero
    exact ⟨rfl, rfl, id, rfl, rfl, fun _ h => h, Nat.le_refl _, fun h => absurd hzero (by omega)⟩
  · split
    · rename_i hlt
      refine ⟨rfl, ?_, fun _ => hlt, rfl, rfl, fun rest h => ?_, Nat.sub_le _ _, fun _ =>
        Nat.le_refl _⟩
      · simp only [total]
        omega
      · simp only [Stats.finished] at h ⊢
        omega
    · refine ⟨rfl, ?_, id, rfl, ?_, fun rest h => ?_, Nat.le_refl _, fun _ => Nat.le_refl _⟩
      · simp only [total]
        omega
      · simp only [Counts.fail, Stats.errors_fail]
        omega
      · simp only [Stats.finished, Counts.fail, Stats.completed_fail, Stats.errors_fail] at h ⊢
        omega

theorem giveBackAll_takes (parallel k : Nat) (g : GiveBacks) (n : Counts) :
    Takes parallel g n k (giveBackAll parallel k g n).1 (giveBackAll parallel k g n).2 := by
  induction k generalizing g n with
  | zero => exact ⟨rfl, rfl, id, rfl, rfl, fun _ h => h, Nat.le_refl _, fun _ => Nat.le_refl _⟩
  | succ k ih =>
    have h₁ := giveBack_takes g parallel n
    have h₂ := ih (g.giveBack parallel n).1 (g.giveBack parallel n).2
    refine ⟨h₂.completed.trans h₁.completed, ?_, fun hb => h₂.bound (h₁.bound hb),
      h₂.answered.trans h₁.answered, ?_, fun rest h => ?_, Nat.le_trans h₂.started_le h₁.started_le,
      fun hpos => ?_⟩
    · have := h₁.total
      have := h₂.total
      simp only [giveBackAll]
      omega
    · have := h₁.errors
      have := h₂.errors
      simp only [giveBackAll]
      omega
    · refine h₂.started rest ?_
      have := h₁.started (k + rest) (by omega)
      omega
    · exact Nat.le_trans (h₂.unjudged (by rw [h₁.completed]; exact hpos)) (h₁.unjudged hpos)

theorem chargeAll_takes (n : Counts) :
    Takes parallel g n 0 (g.chargeAll n).1 (g.chargeAll n).2 := by
  refine ⟨rfl, ?_, id, rfl, ?_, fun rest h => ?_, Nat.le_refl _, fun _ => Nat.zero_le _⟩
  · simp only [chargeAll, total]
    omega
  · simp only [chargeAll, Counts.fail, Stats.errors_fail]
    omega
  · simp only [chargeAll, Stats.finished, Counts.fail, Stats.completed_fail,
      Stats.errors_fail] at h ⊢
    omega

theorem judge_takes (drained : Bool) (parallel : Nat) (n : Counts) :
    Takes parallel g n 0 (g.judge drained parallel n).1 (g.judge drained parallel n).2 := by
  have hsame : Takes parallel g n 0 g n :=
    ⟨rfl, rfl, id, rfl, rfl, fun _ h => h, Nat.le_refl _, fun _ => Nat.le_refl _⟩
  unfold judge
  split
  · exact hsame
  split
  · have h := giveBackAll_takes parallel g.unjudged { g with unjudged := 0 } n
    refine ⟨h.completed, ?_, h.bound, h.answered, h.errors, fun rest hb => ?_, h.started_le,
      fun hpos => Nat.le_trans (h.unjudged hpos) (Nat.zero_le _)⟩
    · rw [h.total]
      simp only [total]
      omega
    · exact h.started rest (by simpa using hb)
  split
  · exact chargeAll_takes g parallel n
  · exact hsame

/-- With nothing in flight there is nothing to wait for. -/
theorem judge_drained (n : Counts) : (g.judge true parallel n).1.unjudged = 0 := by
  unfold judge
  split
  · assumption
  split
  · rename_i hpos
    exact Nat.le_zero.mp
      ((giveBackAll_takes parallel g.unjudged { g with unjudged := 0 } n).unjudged hpos)
  · rfl

end GiveBacks

/-! ## Passes -/

namespace Pass

variable {cfg : Config} {p p₁ p₂ : Pass} {k k₁ k₂ : Nat}

/-- The connection is in order, with `k` requests in hand. -/
structure Sound (cfg : Config) (k : Nat) (p : Pass) : Prop where
  formed : p.result.Formed
  tallied : p.result.Tallied cfg k

/-- No request has been added to those in flight. -/
def Fewer (p p₁ : Pass) : Prop :=
  ∀ id, (p₁.conn.streams.get id).isSome = true → (p.conn.streams.get id).isSome = true

/-- What a part of a pass comes to, started with `k` requests in hand and ended with `k₁`. -/
structure Leads (cfg : Config) (p : Pass) (k : Nat) (p₁ : Pass) (k₁ : Nat) : Prop where
  sound : p₁.Sound cfg k₁
  moves : Moves cfg p.result k p.counts p₁.result k₁ p₁.counts
  nextBidi : p₁.quic.nextBidi = p.quic.nextBidi
  started_le : p₁.counts.started ≤ p.counts.started
  closing : p₁.conn.closing = p.conn.closing
  fewer : Fewer p p₁

theorem Leads.trans (h₁ : Leads cfg p k p₁ k₁) (h₂ : Leads cfg p₁ k₁ p₂ k₂) :
    Leads cfg p k p₂ k₂ where
  sound := h₂.sound
  moves := h₁.moves.trans h₂.moves
  nextBidi := h₂.nextBidi.trans h₁.nextBidi
  started_le := Nat.le_trans h₂.started_le h₁.started_le
  closing := h₂.closing.trans h₁.closing
  fewer id h := h₁.fewer id (h₂.fewer id h)

/-- A part of a pass that counts nothing. -/
structure Idle (p p₁ : Pass) : Prop where
  formed : p.result.Formed → p₁.result.Formed
  nextBidi : p₁.quic.nextBidi = p.quic.nextBidi
  len : p₁.conn.streams.len = p.conn.streams.len
  giveBacks : p₁.conn.giveBacks = p.conn.giveBacks
  given : p₁.conn.given = p.conn.given
  failed : p₁.conn.failed = p.conn.failed
  connectFailed : p₁.conn.connectFailed = p.conn.connectFailed
  counts : p₁.counts = p.counts
  closing : p₁.conn.closing = p.conn.closing
  fewer : Fewer p p₁

namespace Idle

theorem refl (p : Pass) : Idle p p := ⟨id, rfl, rfl, rfl, rfl, rfl, rfl, rfl, rfl, fun _ h => h⟩

theorem trans (h₁ : Idle p p₁) (h₂ : Idle p₁ p₂) : Idle p p₂ where
  formed h := h₂.formed (h₁.formed h)
  nextBidi := h₂.nextBidi.trans h₁.nextBidi
  len := h₂.len.trans h₁.len
  giveBacks := h₂.giveBacks.trans h₁.giveBacks
  given := h₂.given.trans h₁.given
  failed := h₂.failed.trans h₁.failed
  connectFailed := h₂.connectFailed.trans h₁.connectFailed
  counts := h₂.counts.trans h₁.counts
  closing := h₂.closing.trans h₁.closing
  fewer id h := h₁.fewer id (h₂.fewer id h)

theorem leads (h : Idle p p₁) (hp : p.Sound cfg k) : Leads cfg p k p₁ k := by
  have howed : p₁.result.owed = p.result.owed := by
    show p₁.conn.streams.len + p₁.conn.giveBacks.unjudged =
      p.conn.streams.len + p.conn.giveBacks.unjudged
    rw [h.len, h.giveBacks]
  have herrors : p₁.result.errors = p.result.errors := by
    show p₁.conn.failed + p₁.conn.giveBacks.charged + p₁.conn.connectFailed =
      p.conn.failed + p.conn.giveBacks.charged + p.conn.connectFailed
    rw [h.failed, h.giveBacks, h.connectFailed]
  have hback : p₁.result.giveBacks = p.result.giveBacks := h.giveBacks
  refine ⟨⟨h.formed hp.formed, ?_, ?_, ?_⟩, ?_, h.nextBidi, by rw [h.counts], h.closing,
    h.fewer⟩
  · have hb := hp.tallied.balance
    show p₁.quic.nextBidi = p₁.result.giveBacks.completed + p₁.conn.failed +
      p₁.result.giveBacks.charged + p₁.result.giveBacks.retried + (p₁.result.owed + k)
    rw [h.nextBidi, hback, h.failed, howed]
    exact hb
  · show p₁.conn.given = _
    rw [h.given, hback]
    exact hp.tallied.given
  · rw [hback]
    exact hp.tallied.bound
  · rw [h.counts]
    exact Moves.of_eq (by rw [howed]) (by rw [hback]) herrors

/-- A pass on which only the QUIC connection has moved. -/
theorem of_steady {quic : Connection} (h : Steady p.quic quic) :
    Idle p { p with quic := quic } where
  formed hf :=
    { aligned := by
        show Aligned p.conn.streams quic.nextBidi
        rw [h.nextBidi]
        exact hf.aligned
      idle := fun hready => h.nextBidi.trans (hf.idle hready)
      due := Nat.le_trans h.due hf.due
      once := fun hready => Nat.le_zero.mp (hf.once hready ▸ h.due) }
  nextBidi := h.nextBidi
  len := rfl
  giveBacks := rfl
  given := rfl
  failed := rfl
  connectFailed := rfl
  counts := rfl
  closing := rfl
  fewer _ h := h

/-- A pass on which only the requests in flight were written to. -/
theorem of_streams {streams : H3Ring InFlight} (hasUnsent : Bool)
    (ha : Aligned p.conn.streams p.quic.nextBidi → Aligned streams p.quic.nextBidi)
    (hl : streams.len = p.conn.streams.len)
    (hg : ∀ id, (streams.get id).isSome = true → (p.conn.streams.get id).isSome = true) :
    Idle p { p with conn := { p.conn with streams := streams, hasUnsent := hasUnsent } } where
  formed hf := ⟨ha hf.aligned, hf.idle, hf.due, hf.once⟩
  nextBidi := rfl
  len := hl
  giveBacks := rfl
  given := rfl
  failed := rfl
  connectFailed := rfl
  counts := rfl
  closing := rfl
  fewer := hg

end Idle

/-! ### What counts nothing -/

section Setup

variable {R : Connection → Connection → Prop}

theorem openAll_composes (hR : Composes R) (hopen : ∀ quic : Connection, R quic quic.openUni.2)
    (preludes : List Bytes) (quic : Connection) : R quic (H3Init.openAll preludes quic).2 := by
  induction preludes generalizing quic with
  | nil => exact hR.refl quic
  | cons prelude rest ih =>
    have hone := hopen quic
    unfold H3Init.openAll
    split
    all_goals
      rename_i heq
      rw [heq] at hone
    · exact hone
    · have hrest := hR.trans hone (ih _)
      split
      all_goals rename_i heq'; rw [heq'] at hrest; exact hrest

/-- What opening a stream does, setting the connection up does. -/
theorem init_composes (hR : Composes R) (hopen : ∀ quic : Connection, R quic quic.openUni.2)
    (quic : Connection) : R quic (H3Init.new quic).2 := by
  have h := openAll_composes hR hopen H3Init.preludes quic
  unfold H3Init.new
  split
  all_goals rename_i heq; rw [heq] at h; exact h

theorem flushAll_composes (hR : Composes R)
    (hwrite : ∀ (quic : Connection) id data, R quic (quic.write id data).2)
    (streams : List Critical) (quic : Connection) : R quic (H3Init.flushAll streams quic).2.2 := by
  induction streams generalizing quic with
  | nil => exact hR.refl quic
  | cons s rest ih =>
    have hone : R quic (if s.written < s.prelude.length then
        quic.write s.id (s.prelude.drop s.written) else (0, quic)).2 := by
      split
      · exact hwrite _ _ _
      · exact hR.refl quic
    exact hR.trans hone (ih _)

end Setup

theorem steady_composes : Composes Steady := ⟨Steady.refl, Steady.trans⟩

variable (quic : Connection)

theorem init_steady : Steady quic (H3Init.new quic).2 :=
  init_composes steady_composes (fun _ => Steady.of_core (by simp)) quic

theorem flush_steady (init : H3Init) (quic : Connection) : Steady quic (init.flush quic).2.2 :=
  flushAll_composes steady_composes (fun _ _ _ => Steady.of_core (by simp)) init.streams quic

/-- An event that is polled and acted on. `Connected` finds a connection that is not ready and
has not been set up, so there is no request on it. -/
theorem onEvent_idle {e : Quic.Event} {quic : Connection} (he : p.quic.pollEvent = (some e, quic)) :
    Idle p ({ p with quic := quic }.onEvent e).2 := by
  have hpoll : Steady p.quic quic := by
    have h := Connection.pollEvent_steady p.quic
    rwa [he] at h
  have hquic := Idle.of_steady hpoll
  cases e with
  | connected =>
    have hdue := Connection.due_of_connected he
    -- whatever comes of setting the connection up
    have hset : ∀ (ready : Bool) (init : Option H3Init) (quic' : Connection), Steady quic quic' →
        Idle p { p with
          quic := quic'
          conn := { p.conn with h3Ready := ready, h3Init := init } } := by
      intro ready init quic' hs
      have hall := hpoll.trans hs
      refine ⟨fun hf => ?_, hall.nextBidi, rfl, rfl, rfl, rfl, rfl, rfl, rfl, fun _ h => h⟩
      have hle : p.quic.core.due ≤ 1 := hf.due
      have hnot : p.conn.h3Ready = false := by
        by_contra hready
        have : p.quic.core.due = 0 := hf.once (Or.inl (Bool.not_eq_false _ ▸ hready))
        omega
      have hzero : quic'.nextBidi = 0 := hall.nextBidi.trans (hf.idle hnot)
      have hgone : quic'.core.due = 0 := by
        have := hs.due
        omega
      refine ⟨?_, fun _ => hzero, Nat.le_trans (Nat.le_of_eq hgone) (Nat.zero_le 1), fun _ => hgone⟩
      show Aligned p.conn.streams quic'.nextBidi
      rw [hall.nextBidi]
      exact hf.aligned
    have hinit := init_steady quic
    simp only [onEvent]
    split
    · rename_i heq
      rw [heq] at hinit
      exact hset p.conn.h3Ready p.conn.h3Init _ hinit
    · rename_i init quic₁ heq
      rw [heq] at hinit
      exact hset _ _ _ (hinit.trans (flush_steady init quic₁))
  | stopped id =>
    exact hquic.trans (Idle.of_streams p.conn.hasUnsent
      (fun ha => ha.modify id fun _ => rfl) (by simp)
      (fun _ h => Ring.isSome_get_modify _ _ _ _ ▸ h))
  | lost why | readable id | opened id | finished id reset =>
    exact hquic.trans ⟨fun h => h, rfl, rfl, rfl, rfl, rfl, rfl, rfl, rfl, fun _ h => h⟩

theorem drain_idle (fuel : Nat) : ∀ p : Pass, Idle p (drain fuel p).2 := by
  induction fuel with
  | zero => exact Idle.refl
  | succ fuel ih =>
    intro p
    unfold drain
    split
    · exact Idle.refl p
    · rename_i e quic he
      have hone := onEvent_idle (p := p) he
      split
      · rename_i heq
        rw [heq] at hone
        exact hone
      · rename_i heq
        rw [heq] at hone
        exact hone.trans (ih _)

theorem consumeInto_steady {ρ : Type} (id : Nat) (reader : ρ)
    (feed : ρ → Bytes → Except ProtoError Unit × ρ) :
    Steady quic (consumeInto quic id reader feed).2.2 := by
  unfold consumeInto
  simp only
  have h : ∀ verdict : Except ProtoError Unit, Steady quic (quic.consume id fun _ => verdict).2 :=
    fun _ => Steady.of_core (by simp)
  split
  all_goals
    rename_i heq
    have hs := h (if ((quic.recvMut id).elim [] (·.ready)).isEmpty then (.ok (), reader)
      else feed reader ((quic.recvMut id).elim [] (·.ready))).1
    rw [heq] at hs
    exact hs

theorem read_idle (p : Pass) (id : Nat) : Idle p (p.read id).2 := by
  unfold read
  split
  · rename_i inflight _
    have hs := consumeInto_steady p.quic id inflight.reader ResponseReader.feed
    exact (Idle.of_steady hs).trans (Idle.of_streams p.conn.hasUnsent
      (fun ha => ha.modify id fun _ => rfl) (by simp)
      (fun _ h => Ring.isSome_get_modify _ _ _ _ ▸ h))
  · have hs := consumeInto_steady p.quic id (uniReader p.conn.uni id) UniReader.feed
    have hnote : ∀ (uni : List (Nat × UniReader)) (goaway : Option Nat) (quic : Connection),
        Steady p.quic quic →
        Idle p { p with quic := quic, conn := { p.conn with uni := uni, goaway := goaway } } :=
      fun uni goaway quic hs => (Idle.of_steady hs).trans
        ⟨fun h => ⟨h.aligned, h.idle, h.due, h.once⟩, rfl, rfl, rfl, rfl, rfl, rfl, rfl,
          rfl, fun _ h => h⟩
    simp only
    split
    all_goals exact hnote _ _ _ hs

theorem readAll_composes {R : Pass → Pass → Prop} (hR : Composes R)
    (hread : ∀ p id, R p (p.read id).2) (ids : List Nat) : ∀ p : Pass, R p (readAll ids p).2 := by
  induction ids with
  | nil => exact hR.refl
  | cons id rest ih =>
    intro p
    have hone := hread p id
    unfold readAll
    split
    all_goals
      rename_i heq
      rw [heq] at hone
    · exact hone
    · exact hR.trans hone (ih _)

theorem gather_idle (p : Pass) : Idle p p.gather.2 := by
  have hdrain := drain_idle p.quic.events.length p
  unfold gather
  split
  · rename_i heq
    rw [heq] at hdrain
    exact hdrain
  · rename_i heq
    rw [heq] at hdrain
    exact hdrain.trans (readAll_composes ⟨Idle.refl, Idle.trans⟩ read_idle _ _)

theorem flushInit_idle (p : Pass) : Idle p p.flushInit := by
  unfold flushInit
  split
  · exact Idle.refl p
  · rename_i init hinit
    have hs := flush_steady init p.quic
    refine ⟨fun hf => ?_, hs.nextBidi, rfl, rfl, rfl, rfl, rfl, rfl, rfl, fun _ h => h⟩
    have hzero : p.quic.core.due = 0 :=
      hf.once (Or.inr (by rw [show p.result.h3Init = _ from hinit]; rfl))
    have hgone : (init.flush p.quic).2.2.core.due = 0 := Nat.le_zero.mp (hzero ▸ hs.due)
    refine ⟨?_, fun hready => ?_, Nat.le_trans (Nat.le_of_eq hgone) (Nat.zero_le 1), fun _ => hgone⟩
    · show Aligned p.conn.streams (init.flush p.quic).2.2.nextBidi
      rw [hs.nextBidi]
      exact hf.aligned
    · have hnot : p.conn.h3Ready = false := (Bool.or_eq_false_iff.mp hready).1
      exact hs.nextBidi.trans (hf.idle hnot)

theorem flushSlot_spec (streams : H3Ring InFlight) (remaining : Bool) (pos : Nat) :
    Steady quic (flushSlot quic streams remaining pos).1 ∧
      (∀ next, Aligned streams next → Aligned (flushSlot quic streams remaining pos).2.1 next) ∧
      (flushSlot quic streams remaining pos).2.1.len = streams.len ∧
      ∀ id, ((flushSlot quic streams remaining pos).2.1.get id).isSome =
        (streams.get id).isSome := by
  unfold flushSlot
  split
  · exact ⟨Steady.refl quic, fun _ h => h, rfl, fun _ => rfl⟩
  · rename_i s _
    split
    · exact ⟨Steady.refl quic, fun _ h => h, rfl, fun _ => rfl⟩
    · have hwrite : Steady quic (quic.write s.streamId s.unsent).2 := Steady.of_core (by simp)
      simp only
      split
      · exact ⟨hwrite.trans (Steady.of_core (by simp)), fun _ h => h.slotModify _ fun _ => rfl, rfl,
          fun _ => Ring.isSome_get_slotModify _ _ _ _⟩
      · exact ⟨hwrite, fun _ h => h.slotModify _ fun _ => rfl, rfl,
          fun _ => Ring.isSome_get_slotModify _ _ _ _⟩

theorem flushSlots_spec (positions : List Nat) :
    ∀ acc : Connection × H3Ring InFlight × Bool,
      let out := positions.foldl (fun acc pos => flushSlot acc.1 acc.2.1 acc.2.2 pos) acc
      Steady acc.1 out.1 ∧ (∀ next, Aligned acc.2.1 next → Aligned out.2.1 next) ∧
        out.2.1.len = acc.2.1.len ∧
        ∀ id, (out.2.1.get id).isSome = (acc.2.1.get id).isSome := by
  induction positions with
  | nil => exact fun acc => ⟨Steady.refl _, fun _ h => h, rfl, fun _ => rfl⟩
  | cons pos positions ih =>
    intro acc
    obtain ⟨hs, ha, hl, hg⟩ := flushSlot_spec acc.1 acc.2.1 acc.2.2 pos
    obtain ⟨hs', ha', hl', hg'⟩ := ih (flushSlot acc.1 acc.2.1 acc.2.2 pos)
    exact ⟨hs.trans hs', fun next h => ha' next (ha next h), hl'.trans hl,
      fun id => (hg' id).trans (hg id)⟩

theorem flushUnsent_idle (p : Pass) : Idle p p.flushUnsent := by
  unfold flushUnsent
  split
  · exact Idle.refl p
  · obtain ⟨hs, ha, hl, hg⟩ := flushSlots_spec (List.range p.conn.streams.slotCount)
      (p.quic, p.conn.streams, false)
    exact (Idle.of_steady hs).trans (Idle.of_streams _ (ha _) hl fun id h => hg id ▸ h)

/-! ### What counts -/

/-- Give-backs that are taken in are in hand no more. -/
theorem leads_of_takes {g : GiveBacks} {n : Counts} {j : Nat} (hp : p.Sound cfg (j + k))
    (ht : Takes cfg.parallel p.conn.giveBacks p.counts k g n) :
    Leads cfg p (j + k)
      { p with
        conn := { p.conn with giveBacks := g, given := p.conn.given + k }, counts := n } j := by
  have htotal := ht.total
  have hbalance : p.quic.nextBidi = p.conn.giveBacks.completed + p.conn.failed +
      p.conn.giveBacks.charged + p.conn.giveBacks.retried +
      (p.conn.streams.len + p.conn.giveBacks.unjudged + (j + k)) := hp.tallied.balance
  have hgiven : p.conn.given = p.conn.giveBacks.retried + p.conn.giveBacks.charged +
      p.conn.giveBacks.unjudged := hp.tallied.given
  have hf := hp.formed
  unfold GiveBacks.total at htotal
  refine ⟨⟨⟨hf.aligned, hf.idle, hf.due, hf.once⟩, ?_, ?_, ht.bound hp.tallied.bound⟩, ?_, rfl,
    ht.started_le, rfl, fun _ h => h⟩
  · show p.quic.nextBidi = g.completed + p.conn.failed + g.charged + g.retried +
      (p.conn.streams.len + g.unjudged + j)
    rw [ht.completed]
    omega
  · show p.conn.given + k = g.retried + g.charged + g.unjudged
    omega
  · refine ⟨fun rest h => ?_, ?_, ?_, fun m _ h => Nat.le_trans ht.started_le h⟩
    · have hs := ht.started (p.conn.streams.len + j + rest)
      show n.started = n.stats.finished + (p.conn.streams.len + g.unjudged + j) + rest
      have h' : p.counts.started = p.counts.stats.finished +
          (p.conn.streams.len + p.conn.giveBacks.unjudged + (j + k)) + rest := h
      omega
    · show n.stats.completed + p.conn.giveBacks.completed = p.counts.stats.completed + g.completed
      rw [ht.answered, ht.completed]
    · have := ht.errors
      show n.stats.errors + (p.conn.failed + p.conn.giveBacks.charged + p.conn.connectFailed) =
        p.counts.stats.errors + (p.conn.failed + g.charged + p.conn.connectFailed)
      omega

theorem giveBack_leads (hp : p.Sound cfg 1) : Leads cfg p 1 (p.giveBack cfg) 0 :=
  leads_of_takes (j := 0) hp (GiveBacks.giveBack_takes p.conn.giveBacks cfg.parallel p.counts)

theorem judge_leads (hp : p.Sound cfg 0) : Leads cfg p 0 (p.judge cfg) 0 :=
  leads_of_takes (j := 0) (k := 0) hp (GiveBacks.judge_takes p.conn.giveBacks
    p.conn.streams.isEmpty cfg.parallel p.counts)

theorem fail_leads (hp : p.Sound cfg 1) : Leads cfg p 1 p.fail 0 := by
  have hf := hp.formed
  have ht := hp.tallied
  refine ⟨⟨⟨hf.aligned, hf.idle, hf.due, hf.once⟩, ?_, ht.given, ht.bound⟩, ?_, rfl,
    Nat.le_refl _, rfl, fun _ h => h⟩
  · have hb : p.quic.nextBidi = p.conn.giveBacks.completed + p.conn.failed +
        p.conn.giveBacks.charged + p.conn.giveBacks.retried + (p.result.owed + 1) := ht.balance
    show p.quic.nextBidi = p.conn.giveBacks.completed + (p.conn.failed + 1) +
      p.conn.giveBacks.charged + p.conn.giveBacks.retried + (p.result.owed + 0)
    omega
  · refine ⟨fun rest h => ?_, rfl, ?_, fun _ _ h => h⟩
    · have h' : p.counts.started = p.counts.stats.completed + p.counts.stats.errors +
        (p.result.owed + 1) + rest := h
      show p.counts.started = p.counts.stats.completed + (p.counts.stats.errors + 1) +
        (p.result.owed + 0) + rest
      omega
    · show p.counts.stats.errors + 1 + (p.conn.failed + p.conn.giveBacks.charged +
        p.conn.connectFailed) = p.counts.stats.errors + (p.conn.failed + 1 +
          p.conn.giveBacks.charged + p.conn.connectFailed)
      omega

theorem succeed_leads (hp : p.Sound cfg 1) : Leads cfg p 1 p.succeed 0 := by
  have hf := hp.formed
  have ht := hp.tallied
  refine ⟨⟨⟨hf.aligned, hf.idle, hf.due, hf.once⟩, ?_, ht.given, ?_⟩, ?_, rfl, Nat.le_refl _, rfl,
    fun _ h => h⟩
  · have hb : p.quic.nextBidi = p.conn.giveBacks.completed + p.conn.failed +
        p.conn.giveBacks.charged + p.conn.giveBacks.retried + (p.result.owed + 1) := ht.balance
    show p.quic.nextBidi = p.conn.giveBacks.completed + 1 + p.conn.failed +
      p.conn.giveBacks.charged + p.conn.giveBacks.retried + (p.result.owed + 0)
    omega
  · exact Nat.le_trans ht.bound (Nat.mul_le_mul_left _ (Nat.le_succ _))
  · refine ⟨fun rest h => ?_, ?_, rfl, fun _ _ h => h⟩
    · have h' : p.counts.started = p.counts.stats.completed + p.counts.stats.errors +
        (p.result.owed + 1) + rest := h
      show p.counts.started = p.counts.stats.completed + 1 + p.counts.stats.errors +
        (p.result.owed + 0) + rest
      omega
    · show p.counts.stats.completed + 1 + p.conn.giveBacks.completed =
        p.counts.stats.completed + (p.conn.giveBacks.completed + 1)
      omega

theorem conclude_leads (hp : p.Sound cfg 1) (id status : Nat) (reset : Option Nat) :
    Leads cfg p 1 (p.conclude cfg id status reset) 0 := by
  unfold conclude
  simp only
  split
  · exact giveBack_leads hp
  split
  · exact fail_leads hp
  · exact succeed_leads hp

/-- Taking a request out of the ring puts it in hand. -/
theorem take_leads (hp : p.Sound cfg 0) {id : Nat} {s : InFlight}
    (h : (p.conn.streams.take id).1 = some s) :
    Leads cfg p 0 { p with conn := { p.conn with streams := (p.conn.streams.take id).2 } } 1 := by
  have hf := hp.formed
  have ht := hp.tallied
  have hlen : p.conn.streams.len = (p.conn.streams.take id).2.len + 1 :=
    Ring.len_take_some hf.aligned.ok h
  have howed : (p.conn.streams.take id).2.len + p.conn.giveBacks.unjudged + 1 =
    p.result.owed + 0 := by
    show _ = p.conn.streams.len + p.conn.giveBacks.unjudged + 0
    omega
  refine ⟨⟨⟨hf.aligned.take id, hf.idle, hf.due, hf.once⟩, ?_, ht.given, ht.bound⟩,
    Moves.of_eq howed rfl rfl, rfl, Nat.le_refl _, rfl, fun _ h => Ring.isSome_of_get_take _ _ _ h⟩
  show p.quic.nextBidi = p.conn.giveBacks.completed + p.conn.failed + p.conn.giveBacks.charged +
    p.conn.giveBacks.retried + ((p.conn.streams.take id).2.len + p.conn.giveBacks.unjudged + 1)
  rw [howed]
  exact ht.balance

theorem retire_idle (p : Pass) (id : Nat) :
    Idle p { p with quic := p.quic.retire id h3RequestCancelled } :=
  Idle.of_steady (Steady.of_core (by simp))

theorem finish_leads (hp : p.Sound cfg 0) (e : Nat × Option Nat) :
    Leads cfg p 0 (p.finish cfg e) 0 := by
  unfold finish
  split
  · exact (Idle.refl p).leads hp
  · rename_i s streams heq
    have hsome : (p.conn.streams.take e.1).1 = some s := by rw [heq]
    have htake := take_leads hp hsome
    rw [heq] at htake
    have hdone := conclude_leads htake.sound e.1 s.reader.status e.2
    exact htake.trans (hdone.trans ((retire_idle _ e.1).leads hdone.sound))

theorem turnAway_leads (hp : p.Sound cfg 0) {id : Nat} (h : (p.conn.streams.get id).isSome) :
    Leads cfg p 0 (p.turnAway cfg id) 0 := by
  obtain ⟨s, hs⟩ := Option.isSome_iff_exists.mp h
  have htake := take_leads hp ((Ring.take_fst _ _).trans hs)
  have hretire := (retire_idle _ id).leads htake.sound
  exact htake.trans (hretire.trans (giveBack_leads hretire.sound))

/-- The requests a list of ids names are turned away one after the other, if each is there. -/
theorem turnAwayAll_leads (ids : List Nat) : ∀ {p : Pass}, p.Sound cfg 0 → ids.Nodup →
    (∀ id ∈ ids, (p.conn.streams.get id).isSome) → Leads cfg p 0
      (ids.foldl (turnAway cfg) p) 0 := by
  induction ids with
  | nil => exact fun hp _ _ => (Idle.refl _).leads hp
  | cons id rest ih =>
    intro p hp hnodup hget
    obtain ⟨hnot, hrest⟩ := List.nodup_cons.mp hnodup
    have hone := turnAway_leads hp (hget id List.mem_cons_self)
    refine hone.trans (ih hone.sound hrest fun id' hid' => ?_)
    -- taking one request leaves the others where they were
    have hne : id' ≠ id := fun heq => hnot (heq ▸ hid')
    show ((p.conn.streams.take id).2.get id').isSome
    rw [Ring.get_take_of_ne _ hne]
    exact hget id' (List.mem_cons_of_mem _ hid')

theorem goAway_leads (hp : p.Sound cfg 0) : Leads cfg p 0 (p.goAway cfg) 0 := by
  unfold goAway
  split
  · exact (Idle.refl p).leads hp
  · rename_i goaway _
    have haligned : Aligned p.conn.streams p.quic.nextBidi := hp.formed.aligned
    have hall := turnAwayAll_leads (p.above goaway) hp
      (List.Nodup.filter _ haligned.nodup) fun id hid => by
        obtain ⟨s, hs, rfl⟩ := List.mem_map.mp (List.mem_filter.mp hid).1
        rw [haligned.get_iter hs]
        rfl
    simp only
    split
    · have hclose : Idle ((p.above goaway).foldl (turnAway cfg) p)
          { (p.above goaway).foldl (turnAway cfg) p with
            quic := ((p.above goaway).foldl (turnAway cfg) p).quic.close h3NoError []
            alive := false } :=
        (Idle.of_steady (Steady.of_core (by simp))).trans
          ⟨fun h => h, rfl, rfl, rfl, rfl, rfl, rfl, rfl, rfl, fun _ h => h⟩
      exact hall.trans (hclose.leads hall.sound)
    · exact hall

theorem finishAll_leads (finished : List (Nat × Option Nat)) : ∀ {p : Pass}, p.Sound cfg 0 →
    Leads cfg p 0 (finished.foldl (finish cfg) p) 0 := by
  induction finished with
  | nil => exact fun hp => (Idle.refl _).leads hp
  | cons e rest ih =>
    intro p hp
    have hone := finish_leads hp e
    exact hone.trans (ih hone.sound)

theorem settle_leads (hp : p.Sound cfg 0) : Leads cfg p 0 (p.settle cfg) 0 := by
  have hfinish := finishAll_leads p.finished hp
  have hgo := hfinish.trans (goAway_leads hfinish.sound)
  have hjudge := hgo.trans (judge_leads hgo.sound)
  have hinit := hjudge.trans ((flushInit_idle _).leads hjudge.sound)
  exact hinit.trans ((flushUnsent_idle _).leads hinit.sound)

/-- After the verdicts, a connection with nothing in flight has none to wait for. -/
theorem settle_drained (p : Pass) :
    (p.settle cfg).conn.streams.len = 0 → (p.settle cfg).conn.giveBacks.unjudged = 0 := by
  let q := ((p.finished.foldl (finish cfg) p).goAway cfg)
  have hidle : Idle (q.judge cfg) (p.settle cfg) := (flushInit_idle _).trans (flushUnsent_idle _)
  rw [hidle.len, hidle.giveBacks]
  intro hlen
  have hempty : q.conn.streams.isEmpty = true := beq_iff_eq.mpr hlen
  show (q.conn.giveBacks.judge q.conn.streams.isEmpty cfg.parallel q.counts).1.unjudged = 0
  rw [hempty]
  exact GiveBacks.judge_drained _ _ _

end Pass

end Shb.Http3
