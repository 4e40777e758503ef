import Shb.Http3.Balance

/-!
# What one event of an HTTP/3 worker can do

`Change` says it once, for every event: nothing, or one connection moves on, or one is given
up, settled and sooner or later closed. What is counted, and what a reconnect costs, are then
short arguments over it.

A connection is settled when `begin_close` first sees it. `GivesUp` lists the calls that do,
with the connection and the counts as they are then.
-/

namespace Shb.Http3

open Lib
open Quic (Connection Steady)

variable {cfg : Config} {c c' : Conn} {n n' : Counts} {w w' : Worker} {i now : Nat}
  {session : Option Session} {e : Ev}

/-! ## Giving a connection up -/

/-- The first half of `begin_close`: the account is settled, once. -/
def Conn.settle (cfg : Config) (now : Nat) (c : Conn) (n : Counts) : Conn × Counts :=
  if c.closing.isNone then
    ({ (c.charge cfg.budget n).1 with closing := some (now + closeGrace) },
      (c.charge cfg.budget n).2)
  else (c, n)

theorem beginClose_eq (w : Worker) (i : Nat) (c : Conn) (n : Counts) (now : Nat)
    (session : Option Session) :
    w.beginClose cfg i c n now session =
      if (c.settle cfg now n).1.sending then w.set i (c.settle cfg now n).1 (c.settle cfg now n).2
      else w.finishClose cfg i (c.settle cfg now n).1 (c.settle cfg now n).2 now session := rfl

/-- A connection that is settled is in order and owes nothing. -/
theorem settle_spec (now : Nat) (hc : c.Ok cfg) (hq : c.quic.isSome = true) (n : Counts) :
    (c.settle cfg now n).1.Ok cfg ∧ Moves cfg c 0 n (c.settle cfg now n).1 0
      (c.settle cfg now n).2 ∧
      (c.settle cfg now n).1.owed = 0 ∧ (c.settle cfg now n).1.quic.isSome = true ∧
      (c.settle cfg now n).1.closing.isSome = true := by
  unfold Conn.settle
  cases hclosing : c.closing with
  | some t =>
    -- settled before: `Ok` says that such a connection owes nothing
    have hsome : c.closing.isSome = true := by rw [hclosing]; rfl
    exact ⟨hc, Moves.of_eq rfl rfl rfl, hc.settled hsome, hq, hsome⟩
  | none =>
    obtain ⟨hf, ht, ho, hm⟩ := charge_spec hc n
    have hsome : (c.charge cfg.budget n).1.quic.isSome = true := by rw [charge_quic]; exact hq
    refine ⟨⟨⟨hf.aligned, hf.idle, hf.due, hf.once⟩, ⟨ht.balance, ht.given, ht.bound⟩, fun _ => ?_,
      fun _ => ho, fun hnone => ?_⟩, hm.trans (Moves.of_eq rfl rfl rfl), ho, hsome, rfl⟩
    · exact (Nat.add_eq_zero_iff.mp ho).2
    · rw [show (c.charge cfg.budget n).1.quic = none from hnone] at hsome
      exact absurd hsome (by simp)

/-- An event gives a connection up: the connection, and the counts, as `begin_close` gets
them. -/
inductive GivesUp (cfg : Config) (w : Worker) : Ev → Conn → Counts → Prop
  | send {i g now : Nat} {session : Option Session} {c : Conn} (hi : w.conns[i]? = some c)
      (hg : g = c.generation) :
      GivesUp cfg w (.send i g now .failed session) { c with sending := false } w.counts
  | recv {i g now : Nat} {session : Option Session} {c : Conn} (hi : w.conns[i]? = some c)
      (hg : g = c.generation) : GivesUp cfg w (.recv i g now .failed session) c w.counts
  | unreadable {i g now : Nat} {session : Option Session} {c : Conn} {quic quic' : Connection}
      {ds : List Quic.Datagram} (hi : w.conns[i]? = some c) (hg : g = c.generation)
      (hq : c.quic = some quic) (h : handleDatagrams now ds quic = (false, quic')) :
      GivesUp cfg w (.recv i g now (.datagrams ds) session) { c with quic := some quic' } w.counts
  | pass {i now : Nat} {session : Option Session} {c c₁ c₂ : Conn} {n₁ : Counts}
      (hi : w.conns[i]? = some c)
      (hd : drive cfg w.stop now { c with pending := false } w.counts = (false, c₁, n₁))
      (hp : c₁.pumpTransmits cfg now = (.ok (), c₂)) : GivesUp cfg w (.pass i now session) c₂ n₁
  | timer {i now rounds : Nat} {session : Option Session} {c c₁ c₂ : Conn} {n₁ : Counts}
      {quic quic' : Connection} (hi : w.conns[i]? = some c) (hq : c.quic = some quic)
      (hx : expire now rounds false quic = some (true, quic'))
      (hd : drive cfg w.stop now { c with quic := some quic' } w.counts = (false, c₁, n₁))
      (hp : c₁.pumpTransmits cfg now = (.ok (), c₂)) :
      GivesUp cfg w (.timer i now rounds session) c₂ n₁
  | check {i now limit : Nat} {session : Option Session} {c c₂ : Conn} (hi : w.conns[i]? = some c)
      (ht : c.timedOut now limit = true)
      (hp : Conn.pumpTransmits cfg now
        { c with quic := c.quic.map fun quic => quic.close h3RequestCancelled [] } = (.ok (), c₂)) :
      GivesUp cfg w (.check i now session) c₂ w.counts

/-- The slot of a connection that is settled is closed, and opened again if the budget
allows. -/
structure Retires (cfg : Config) (w : Worker) (i : Nat) (c : Conn) (n : Counts) (c' : Conn)
    (replaced : Bool) (w' : Worker) : Prop where
  ok : c'.Ok cfg
  blank : c'.Blank
  closing : c'.closing = none
  quic : c'.quic.isSome = replaced
  budget : replaced = true → cfg.budget.mayStart n.started = true
  conns : w'.conns = w.conns.set i c'
  counts : w'.counts = n
  past : w'.past = w.past ++ [{ conn := c, replaced := replaced }]

/-- The worker after one event, by the way it got there. -/
inductive Change (cfg : Config) (w : Worker) (e : Ev) : Worker → Prop
  /-- No connection is touched. -/
  | idle {w' : Worker} (hconns : w'.conns = w.conns) (hcounts : w'.counts = w.counts)
      (hpast : w'.past = w.past) : Change cfg w e w'
  /-- One connection moves on. -/
  | kept {w' : Worker} {i : Nat} {c c' : Conn} (hi : w.conns[i]? = some c) (hok : c'.Ok cfg)
      (hm : Moves cfg c 0 w.counts c' 0 w'.counts) (hclosing : c'.closing = c.closing)
      (hback : c.closing.isSome = true →
        c'.giveBacks.completed = c.giveBacks.completed ∧ c'.errors = c.errors)
      (hq : c'.quic.isSome = c.quic.isSome) (hconns : w'.conns = w.conns.set i c')
      (hpast : w'.past = w.past) : Change cfg w e w'
  /-- One is given up, and closed if nothing of it is being sent. -/
  | givenUp {w' : Worker} {i : Nat} (now : Nat) {c c₁ : Conn} {n₁ : Counts}
      (hi : w.conns[i]? = some c) (hok : c₁.Ok cfg) (hm : Moves cfg c 0 w.counts c₁ 0 n₁) (hq : c₁.quic.isSome = true)
      (hq' : c.quic.isSome = true) (hclosing : c₁.closing = c.closing)
      (hback : c.closing.isSome = true →
        c₁.giveBacks.completed = c.giveBacks.completed ∧ c₁.errors = c.errors)
      (hg : c₁.closing = none → GivesUp cfg w e c₁ n₁)
      (hw : (c₁.settle cfg now n₁).1.sending = true ∧
          w'.conns = w.conns.set i (c₁.settle cfg now n₁).1 ∧
          w'.counts = (c₁.settle cfg now n₁).2 ∧ w'.past = w.past ∨
        (c₁.settle cfg now n₁).1.sending = false ∧ ∃ c' replaced,
          Retires cfg w i (c₁.settle cfg now n₁).1 (c₁.settle cfg now n₁).2 c' replaced w') :
      Change cfg w e w'
  /-- One that was given up is closed at its deadline. -/
  | expired {w' : Worker} {i : Nat} {c c' : Conn} {replaced : Bool} (hi : w.conns[i]? = some c)
      (hclosing : c.closing.isSome = true)
      (hw : Retires cfg w i c w.counts c' replaced w') : Change cfg w e w'

theorem finishClose_retires (cfg : Config) (w : Worker) (i : Nat) (c : Conn) (n : Counts)
    (now : Nat) (session : Option Session) :
    ∃ c' replaced, Retires cfg w i c n c' replaced (w.finishClose cfg i c n now session) := by
  have hempty := c.vacant_close.self_ok cfg
  unfold Worker.finishClose
  -- the slot stays empty if the run stops, the budget is spent or there is no new socket
  split
  · exact ⟨c.close, false, hempty.1, hempty.2, rfl, rfl, fun h => absurd h (by simp), rfl, rfl, rfl⟩
  · rename_i hgo
    have hmay : cfg.budget.mayStart n.started = true := by
      by_contra hnot
      exact hgo (by simp [hnot])
    split
    · exact ⟨c.close, false, hempty.1, hempty.2, rfl, rfl, fun h => absurd h (by simp),
        rfl, rfl, rfl⟩
    · rename_i s
      have hnew := c.vacant_close.connect_ok cfg now s
      have hkept := pumpTransmits_kept cfg now
        { c.close with quic := some (Connection.connect (localParams cfg.connectTimeout cfg.timeout)
          s.localCid s.initialDcid s.tls) }
      have hclosing : (c.close.connect cfg now s).2.closing = none := hkept.closing
      have hquic : (c.close.connect cfg now s).2.quic.isSome = true := hkept.quic_isSome
      split
      all_goals
        rename_i heq
        rw [heq] at hnew hclosing hquic
        exact ⟨_, true, hnew.1, hnew.2, hclosing, hquic, fun _ => hmay, rfl, rfl, rfl⟩

section Inversion

/-- What every connection of the worker keeps. -/
def Worker.AllOk (cfg : Config) (w : Worker) : Prop := ∀ c ∈ w.conns, c.Ok cfg

theorem Kept.change (hw : w.AllOk cfg) (hi : w.conns[i]? = some c) (hk : Kept c c')
    (hidle : c.quic = none → c'.sending = false ∧ c'.outQueue = []) :
    Change cfg w e (w.set i c' w.counts) :=
  Change.kept hi (hk.ok (hw c (List.mem_of_getElem? hi)) hidle) hk.moves hk.closing
    (fun _ => ⟨by rw [hk.giveBacks], hk.errors⟩) hk.quic_isSome rfl rfl

/-- A connection that only moved its QUIC state along is given up. -/
theorem Kept.givenUp (hw : w.AllOk cfg) (hi : w.conns[i]? = some c) (hk : Kept c c')
    (hq : c.quic.isSome = true) (hg : c'.closing = none → GivesUp cfg w e c' w.counts) :
    Change cfg w e (w.beginClose cfg i c' w.counts now session) := by
  have hok : c'.Ok cfg := hk.ok (hw c (List.mem_of_getElem? hi)) fun hnone =>
    absurd hq (by simp [hnone])
  refine Change.givenUp now hi hok hk.moves (hk.quic_isSome.trans hq) hq hk.closing
    (fun _ => ⟨by rw [hk.giveBacks], hk.errors⟩) hg ?_
  rw [beginClose_eq]
  split
  · rename_i hs
    exact Or.inl ⟨hs, rfl, rfl, rfl⟩
  · rename_i hs
    exact Or.inr ⟨by simpa using hs, finishClose_retires _ _ _ _ _ _ _⟩

/-- A connection that was driven while it was not closing. -/
theorem conclude_change {c₁ : Conn} {n₁ : Counts} {alive : Bool} (hi : w.conns[i]? = some c)
    (hopen : c.closing = none) (hok : c₁.Ok cfg) (hm : Moves cfg c 0 w.counts c₁ 0 n₁)
    (hclosing : c₁.closing = none) (hq : c₁.quic.isSome = c.quic.isSome)
    (hsome : alive = false → c.quic.isSome = true)
    (hg : alive = false → ∀ c₂, c₁.pumpTransmits cfg now = (.ok (), c₂) → GivesUp cfg w e c₂ n₁) :
    Change cfg w e (w.conclude cfg i alive c₁ n₁ now session) := by
  have hkept := pumpTransmits_kept cfg now c₁
  have hok₂ := hok.pumpTransmits now
  have hnot : ∀ {P : Prop}, c.closing.isSome = true → P := fun h => absurd h (by simp [hopen])
  unfold Worker.conclude
  split
  · -- an error of `pump_transmits` ends the worker, and gives nothing up
    rename_i heq
    rw [heq] at hkept hok₂
    exact Change.kept hi hok₂ (hm.trans hkept.moves) (hkept.closing.trans
      (hclosing.trans hopen.symm)) hnot (hkept.quic_isSome.trans hq) rfl rfl
  · rename_i c₂ heq
    rw [heq] at hkept hok₂
    have hclosing₂ := hkept.closing.trans hclosing
    split
    · exact Change.kept hi hok₂ (hm.trans hkept.moves) (hclosing₂.trans hopen.symm) hnot
        (hkept.quic_isSome.trans hq) rfl rfl
    · rename_i halive
      have hdead : alive = false := by simpa using halive
      refine Change.givenUp now hi hok₂ (hm.trans hkept.moves)
        (hkept.quic_isSome.trans (hq.trans (hsome hdead))) (hsome hdead)
        (hclosing₂.trans hopen.symm) hnot (fun _ => hg hdead c₂ heq) ?_
      rw [beginClose_eq]
      split
      · rename_i hs
        exact Or.inl ⟨hs, rfl, rfl, rfl⟩
      · rename_i hs
        exact Or.inr ⟨by simpa using hs, finishClose_retires _ _ _ _ _ _ _⟩

/-- A pass over a connection that has only moved its QUIC state along since. -/
theorem driven_change (hw : w.AllOk cfg) (hi : w.conns[i]? = some c) (hk : Kept c c')
    (hidle : c.quic = none → c'.sending = false ∧ c'.outQueue = []) (hopen : c.closing = none)
    (hg : ∀ (c₁ c₂ : Conn) (n₁ : Counts), drive cfg w.stop now c' w.counts = (false, c₁, n₁) →
      c₁.pumpTransmits cfg now = (.ok (), c₂) → GivesUp cfg w e c₂ n₁) :
    Change cfg w e (w.driven cfg i c' now session) := by
  have hok' := hk.ok (hw c (List.mem_of_getElem? hi)) hidle
  obtain ⟨hok, hm, hclosing, hquic, hdead⟩ := drive_ok w.stop now hok'
    (hk.closing.trans hopen) w.counts
  refine conclude_change hi hopen hok (hk.moves.trans hm) hclosing (hquic.trans hk.quic_isSome)
    (fun h => hk.quic_isSome ▸ hdead h) fun h c₂ hp => hg _ c₂ _ ?_ hp
  exact Prod.ext h rfl

theorem expire_steady (now : Nat) : ∀ (rounds : Nat) (expired : Bool) (quic : Connection)
    {out : Bool × Connection}, expire now rounds expired quic = some out → Steady quic out.2 := by
  intro rounds
  induction rounds with
  | zero => exact fun _ _ _ h => absurd h (by simp [expire])
  | succ rounds ih =>
    intro expired quic out h
    unfold expire at h
    split at h
    · cases h
      exact Steady.refl quic
    · split at h
      · have hone : Steady quic (quic.handleTimeout now) := Steady.of_core (by simp)
        exact hone.trans (ih _ _ h)
      · cases h
        exact Steady.refl quic

theorem handleDatagrams_steady (now : Nat) (ds : List Quic.Datagram) :
    ∀ quic : Connection, Steady quic (handleDatagrams now ds quic).2 := by
  induction ds with
  | nil => exact Steady.refl
  | cons d ds ih =>
    intro quic
    have hone := Quic.Connection.handleDatagram_steady quic now d
    unfold handleDatagrams
    split
    all_goals
      rename_i heq
      rw [heq] at hone
    · exact hone
    · exact hone.trans (ih _)

section

variable (hw : w.AllOk cfg)
include hw

theorem onTimer_change (hi : w.conns[i]? = some c) {rounds : Nat}
    (hs : w.onTimer cfg i c now rounds session = some w') :
    Change cfg w (.timer i now rounds session) w' := by
  unfold Worker.onTimer at hs
  -- a connection that is closing has its grace period and no other timer
  split at hs
  · rename_i deadline hclosing
    split at hs
    · cases hs
      obtain ⟨c', replaced, hr⟩ := finishClose_retires cfg w i c w.counts now session
      exact Change.expired hi (by rw [hclosing]; rfl) hr
    · cases hs
      exact Change.idle rfl rfl rfl
  · cases hs
    exact Change.idle rfl rfl rfl
  · rename_i quic hclosing hquic
    split at hs
    · exact absurd hs (by simp)
    · rename_i expired quic' heq
      have hk := Kept.of_steady hquic (expire_steady now rounds false quic heq)
      have hidle : c.quic = none → c.sending = false ∧ c.outQueue = [] :=
        fun hnone => absurd (hquic.symm.trans hnone) (by simp)
      cases hs
      split
      · rename_i hexpired
        subst hexpired
        exact driven_change hw hi hk hidle hclosing fun _ _ _ hd hp =>
          GivesUp.timer hi hquic heq hd hp
      · exact hk.change hw hi hidle

theorem onSend_change (hi : w.conns[i]? = some c) (hsending : c.sending = true) (result : Sent) :
    Change cfg w (.send i c.generation now result session)
      (w.onSend cfg i c now result session) := by
  have hc := hw c (List.mem_of_getElem? hi)
  have hq : c.quic.isSome = true := by
    by_contra hnone
    have := (hc.absent (Option.not_isSome_iff_eq_none.mp hnone)).2.1
    exact absurd (hsending.symm.trans this) (by simp)
  have hidle : ∀ c' : Conn, c.quic = none → c'.sending = false ∧ c'.outQueue = [] :=
    fun _ hnone => absurd hq (by simp [hnone])
  unfold Worker.onSend
  by_cases hfailed : result = .failed
  · subst hfailed
    have hk : Kept c { c with sending := false } :=
      ⟨rfl, rfl, rfl, rfl, rfl, rfl, rfl, rfl, Or.inl rfl⟩
    exact hk.givenUp hw hi hq fun _ => GivesUp.send hi rfl
  · have hk : Kept c ({ c with sending := false } : Conn).recycle.pushFrontSend := by
      unfold Conn.pushFrontSend
      split <;> exact ⟨rfl, rfl, rfl, rfl, rfl, rfl, rfl, rfl, Or.inl rfl⟩
    simp only [hfailed, if_false, decide_false, Bool.false_or]
    split
    · -- it was settled before, so `begin_close` has nothing to settle
      rename_i hover
      rw [Bool.and_eq_true] at hover
      exact hk.givenUp hw hi hq fun hnone => absurd hover.1 (by simp [hnone])
    · exact hk.change hw hi (hidle _)

theorem onRecv_change (hi : w.conns[i]? = some c) {quic : Connection}
    (hq : c.quic = some quic) (result : Recv) :
    Change cfg w (.recv i c.generation now result session)
      (w.onRecv cfg i c quic now result session) := by
  have hsome : c.quic.isSome = true := by rw [hq]; rfl
  cases result with
  | passedOver => exact Change.idle rfl rfl rfl
  | failed =>
    have hk : Kept c c := ⟨rfl, rfl, rfl, rfl, rfl, rfl, rfl, rfl, Or.inl rfl⟩
    exact hk.givenUp hw hi hsome fun _ => GivesUp.recv hi rfl
  | datagrams ds =>
    have hs := handleDatagrams_steady now ds quic
    simp only [Worker.onRecv]
    split
    all_goals
      rename_i heq
      rw [heq] at hs
    · exact (Kept.of_steady hq hs).givenUp hw hi hsome fun _ => GivesUp.unreadable hi rfl hq heq
    · have hk : Kept c { c with quic := some _, pending := true } :=
        ⟨rfl, rfl, rfl, rfl, rfl, rfl, rfl, rfl, Or.inr ⟨_, _, hq, rfl, hs⟩⟩
      exact hk.change hw hi fun hnone => absurd (hq.symm.trans hnone) (by simp)

theorem onPass_change (hi : w.conns[i]? = some c) :
    Change cfg w (.pass i now session) (w.onPass cfg i c now session) := by
  have hc := hw c (List.mem_of_getElem? hi)
  have hk : Kept c { c with pending := false } := ⟨rfl, rfl, rfl, rfl, rfl, rfl, rfl,
    rfl, Or.inl rfl⟩
  have hidle : c.quic = none → c.sending = false ∧ c.outQueue = [] := fun hnone =>
    (hc.absent hnone).2
  unfold Worker.onPass
  split
  · exact hk.change hw hi hidle
  · rename_i hgo
    have hopen : c.closing = none := by
      cases hx : c.closing with
      | none => rfl
      | some t => exact absurd (by simp [hx]) hgo
    exact driven_change hw hi hk hidle hopen fun _ _ _ hd hp => GivesUp.pass hi hd hp

theorem onCheck_change (hi : w.conns[i]? = some c) (limit : Nat) :
    Change cfg w (.check i now session) (w.onCheck cfg i c limit now session) := by
  have hc := hw c (List.mem_of_getElem? hi)
  unfold Worker.onCheck
  split
  · exact Change.idle rfl rfl rfl
  · rename_i htimed
    have htimed' : c.timedOut now limit = true := by simpa using htimed
    -- a connection that is closing, or that is not there, has no request to time out
    have hlen : c.streams.len ≠ 0 := by
      intro hzero
      have hslot := Ring.slot_of_empty hc.formed.aligned.ok hzero 0
      exact absurd htimed' (by simp [Conn.timedOut, hslot])
    have hopen : c.closing = none := by
      by_contra hclosing
      have := hc.settled (Option.isSome_iff_ne_none.mpr hclosing)
      unfold Conn.owed at this
      omega
    cases hq : c.quic with
    | none =>
      have hb := hc.tallied.balance
      have hreq : c.requests = 0 := by simp [Conn.requests, hq]
      unfold Conn.owed at hb
      omega
    | some quic =>
      have hs : Steady quic (quic.close h3RequestCancelled []) := Steady.of_core (by simp)
      have hk := Kept.of_steady hq hs
      have hok := hk.ok hc fun hnone => absurd (hq.symm.trans hnone) (by simp)
      refine conclude_change hi hopen hok hk.moves hopen hk.quic_isSome (fun _ => by rw [hq]; rfl)
        fun _ c₂ hp => GivesUp.check hi htimed' ?_
      rw [hq]
      exact hp

theorem step_change (hs : w.step cfg e = some w') : Change cfg w e w' := by
  unfold Worker.step at hs
  split at hs
  · exact absurd hs (by simp)
  cases e with
  | turn shutdown | fault => cases hs; exact Change.idle rfl rfl rfl
  | deadline =>
    simp only at hs
    split at hs
    · cases hs; exact Change.idle rfl rfl rfl
    · exact absurd hs (by simp)
  | timer i now rounds session =>
    simp only at hs
    split at hs
    · exact absurd hs (by simp)
    · rename_i hi
      exact onTimer_change hw hi hs
  | send i generation now result session =>
    simp only at hs
    split at hs
    · exact absurd hs (by simp)
    · rename_i hi
      split at hs
      · cases hs; exact Change.idle rfl rfl rfl
      · rename_i hg
        rw [not_not] at hg
        subst hg
        split at hs
        · rename_i hsending
          cases hs
          exact onSend_change hw hi hsending result
        · exact absurd hs (by simp)
  | recv i generation now result session =>
    simp only at hs
    split at hs
    · exact absurd hs (by simp)
    · rename_i hi
      split at hs
      · cases hs; exact Change.idle rfl rfl rfl
      · rename_i hg
        rw [not_not] at hg
        subst hg
        split at hs
        · exact absurd hs (by simp)
        · rename_i hq
          cases hs
          exact onRecv_change hw hi hq result
  | pass i now session =>
    simp only at hs
    split at hs
    · exact absurd hs (by simp)
    · rename_i hi
      cases hs
      exact onPass_change hw hi
  | check i now session =>
    simp only at hs
    split at hs
    · rename_i hi
      cases hs
      exact onCheck_change hw hi _
    · exact absurd hs (by simp)

end

end Inversion

end Shb.Http3
