import Shb.Http3.Books

/-!
# What a reconnect costs

As for HTTP/2, a connection that is replaced without having completed a request should have
cost an error, or a server could have a counted run reconnect for ever. Here the charge falls
in `begin_close`, on the requests in flight if the connection was ready and as a failed
connect if it never was.

**Two cases are charged nowhere.** A connection that was ready and is lost before a request
was opened on it has nothing in flight; and one that never was ready is charged only if the
budget covers another request. Neither matters if the budget covers no more and the connection
is closed at once, for then nothing takes its place; but while a datagram of it is still being
sent, requests that are given back elsewhere may make the budget cover one again. `CarriesFirst`
excludes both cases, and every run without them pays for its reconnects.
-/

namespace Shb.Http3

open Lib

variable {cfg : Config} {c c' : Conn} {n : Counts} {w w' : Worker} {i now : Nat} {e : Ev}

/-- No answer, but at least one error to show for it. -/
def Conn.Paid (c : Conn) : Prop := c.giveBacks.completed = 0 → 1 ≤ c.errors

/-- There is something to charge for a connection: a request that it carried, or, if it never
was ready, the connect. -/
def Conn.Chargeable (budget : Budget) (c : Conn) (n : Counts) : Prop :=
  if c.h3Ready then 0 < c.requests else budget.mayStart n.started = true

/-- A connection that is given up can be charged for, or the budget covers no more and it is
closed at once. -/
def CarriesFirst (cfg : Config) (w : Worker) (e : Ev) : Prop :=
  ∀ c n, GivesUp cfg w e c n → c.closing = none →
    c.Chargeable cfg.budget n ∨ (cfg.budget.mayStart n.started = false ∧ c.sending = false)

/-- The connections a worker has opened: those it has, and those it has closed. -/
def Worker.opened (w : Worker) : Nat := w.conns.countP (·.quic.isSome) + w.past.length

/-! ## Charges -/

theorem failInflight_paid (hc : c.Ok cfg) (hpos : 0 < c.requests) : (c.failInflight n).1.Paid := by
  intro hzero
  obtain ⟨_, ht, ho, _⟩ := failInflight_spec hc n
  have hb := ht.balance
  have hbound := ht.bound
  have hreq : (c.failInflight n).1.requests = c.requests := rfl
  rw [hzero, Nat.mul_zero] at hbound
  unfold Conn.errors
  omega

theorem charge_paid (hc : c.Ok cfg) (h : c.Chargeable cfg.budget n) :
    (c.charge cfg.budget n).1.Paid := by
  unfold Conn.Chargeable at h
  unfold Conn.charge
  split
  · rename_i hr
    rw [if_pos hr] at h
    exact failInflight_paid hc h
  · rename_i hr
    rw [if_neg hr] at h
    rw [if_pos h]
    intro _
    show 1 ≤ c.failed + c.giveBacks.charged + (c.connectFailed + 1)
    omega

/-- A charge frees nothing of a budget that is spent. -/
theorem charge_of_spent {budget : Budget} (hspent : budget.mayStart n.started = false) :
    (c.charge budget n).1.sending = c.sending ∧ (c.charge budget n).2.started = n.started := by
  unfold Conn.charge
  split
  · exact ⟨rfl, rfl⟩
  · rw [if_neg (by simp [hspent])]
    exact ⟨rfl, rfl⟩

/-! ## The invariant -/

namespace Worker

structure Fair (cfg : Config) (w : Worker) : Prop where
  inv : w.Inv cfg
  /-- A connection that waits to be closed has been paid for. -/
  closing : ∀ c ∈ w.conns, c.closing.isSome = true → c.Paid
  past : ∀ p ∈ w.past, p.replaced = true → p.conn.Paid
  /-- A slot that was given up for good has no connection. -/
  slots : sumOf (fun c => c.quic.isSome.toNat) w.conns +
    sumOf (fun p => (!p.replaced).toNat) w.past ≤ cfg.connections

theorem Fair.moved (h : w.Fair cfg) (hinv : w'.Inv cfg) (hi : w.conns[i]? = some c)
    (hpaid : c'.closing.isSome = true → c'.Paid) (hq : c'.quic.isSome = c.quic.isSome)
    (hconns : w'.conns = w.conns.set i c') (hpast : w'.past = w.past) : w'.Fair cfg := by
  refine ⟨hinv, hconns ▸ forall_mem_set h.closing hpaid, hpast ▸ h.past, ?_⟩
  have hsum := sumOf_set (fun c : Conn => c.quic.isSome.toNat) hi c'
  have hslots := h.slots
  rw [hconns, hpast]
  rw [hq] at hsum
  omega

theorem Fair.retired {replaced : Bool} (h : w.Fair cfg) (hinv : w'.Inv cfg)
    (hi : w.conns[i]? = some c) (hq : c.quic.isSome = true) {c₂ : Conn}
    (hpaid : replaced = true → c₂.Paid) (hr : Retires cfg w i c₂ n c' replaced w') :
    w'.Fair cfg := by
  refine ⟨hinv, ?_, ?_, ?_⟩
  · rw [hr.conns]
    exact forall_mem_set h.closing fun hsome => absurd hsome (by simp [hr.closing])
  · rw [hr.past]
    intro p hp hreplaced
    rcases List.mem_append.mp hp with hp | hp
    · exact h.past p hp hreplaced
    · rw [List.mem_singleton.mp hp] at hreplaced ⊢
      exact hpaid hreplaced
  · have hsum := sumOf_set (fun c : Conn => c.quic.isSome.toNat) hi c'
    have hslots := h.slots
    rw [hr.conns, hr.past, sumOf_append, sumOf_cons, sumOf_nil]
    rw [hr.quic, hq] at hsum
    cases replaced with
    | true => simp only [Bool.toNat_true, Bool.not_true, Bool.toNat_false] at hsum ⊢; omega
    | false => simp only [Bool.toNat_true, Bool.not_false, Bool.toNat_false] at hsum ⊢; omega

theorem Fair.change (h : w.Fair cfg) (hcond : CarriesFirst cfg w e) (hch : Change cfg w e w') :
    w'.Fair cfg := by
  have hinv := h.inv.change hch
  have hkeep : ∀ {c d : Conn}, c ∈ w.conns → c.closing.isSome = true →
      d.giveBacks.completed = c.giveBacks.completed ∧ d.errors = c.errors → d.Paid := by
    intro c d hc hclosing hback hzero
    rw [hback.2]
    exact h.closing c hc hclosing (hback.1 ▸ hzero)
  cases hch with
  | idle hconns hcounts hpast =>
    exact ⟨hinv, hconns ▸ h.closing, hpast ▸ h.past, by rw [hconns, hpast]; exact h.slots⟩
  | kept hi hok hm hclosing hback hq hconns hpast =>
    refine h.moved hinv hi (fun hsome => ?_) hq hconns hpast
    rw [hclosing] at hsome
    exact hkeep (List.mem_of_getElem? hi) hsome (hback hsome)
  | @givenUp i now c c₁ n₁ hi hok hm hq hq' hclosing hback hg hw =>
    obtain ⟨_, _, _, hq₂, _⟩ := settle_spec now hok hq n₁
    -- what is settled is paid for, unless it is closed for good at once
    have hpaid : (c₁.settle cfg now n₁).1.Paid ∨
        (c₁.settle cfg now n₁).1.sending = false ∧
          cfg.budget.mayStart (c₁.settle cfg now n₁).2.started = false := by
      unfold Conn.settle
      cases hc : c₁.closing with
      | some t =>
        have hsome : c.closing.isSome = true := by rw [← hclosing, hc]; rfl
        exact Or.inl (hkeep (List.mem_of_getElem? hi) hsome (hback hsome))
      | none =>
        rcases hcond c₁ n₁ (hg hc) hc with hcarries | ⟨hspent, hsending⟩
        · exact Or.inl (charge_paid (n := n₁) hok hcarries)
        · obtain ⟨hsame, hstarted⟩ := charge_of_spent (c := c₁) hspent
          exact Or.inr ⟨hsame.trans hsending, (congrArg cfg.budget.mayStart hstarted).trans hspent⟩
    rcases hw with ⟨hsending, hconns, _, hpast⟩ | ⟨_, c', replaced, hr⟩
    · refine h.moved hinv hi (fun _ => ?_) (hq₂.trans hq'.symm) hconns hpast
      rcases hpaid with hpaid | ⟨hnot, _⟩
      · exact hpaid
      · exact absurd (hsending.symm.trans hnot) (by simp)
    · refine h.retired hinv hi hq' (fun hreplaced => ?_) hr
      rcases hpaid with hpaid | ⟨_, hspent⟩
      · exact hpaid
      · exact absurd ((hr.budget hreplaced).symm.trans hspent) (by simp)
  | expired hi hclosing hw =>
    have hmem := List.mem_of_getElem? hi
    have hq : _ := (h.inv.conns _ hmem).absent
    refine h.retired hinv hi ?_ (fun _ => h.closing _ hmem hclosing) hw
    by_contra hnone
    have := (hq (Option.not_isSome_iff_eq_none.mp hnone)).1
    rw [this] at hclosing
    exact absurd hclosing (by simp)

theorem Fair.init (now : Nat) (sessions : Nat → Session) : (init cfg now sessions).Fair cfg := by
  refine ⟨init_inv now sessions, fun c hc hclosing => ?_,
    fun p hp => absurd hp List.not_mem_nil, ?_⟩
  · simp only [Worker.init, List.map_map, List.mem_map] at hc
    obtain ⟨i, _, rfl⟩ := hc
    simp only [Function.comp] at hclosing
    split at hclosing
    · rw [show (Conn.new.connect cfg now (sessions i)).2.closing = none from
        (pumpTransmits_kept cfg now _).closing] at hclosing
      exact absurd hclosing (by simp)
    · exact absurd hclosing (by simp [Conn.new])
  · have hle := sumOf_le_sumOf (l := (Worker.init cfg now sessions).conns)
      (f := fun c => c.quic.isSome.toNat) (g := fun _ => 1) fun c _ => Bool.toNat_le _
    have hone : ∀ l : List Conn, sumOf (fun _ => 1) l = l.length := by
      intro l
      induction l with
      | nil => rfl
      | cons a l ih => rw [sumOf_cons, ih, List.length_cons, Nat.add_comm]
    rw [hone] at hle
    refine Nat.le_trans hle ?_
    simp [Worker.init]

/-- A connection that was replaced was answered or charged. -/
theorem Fair.opened_le (h : w.Fair cfg) :
    w.opened ≤ cfg.connections + (w.counts.stats.completed + w.counts.stats.errors) := by
  have hslots := h.slots
  have hreplaced : sumOf (fun p : Past => p.replaced.toNat) w.past ≤
      sumOf (fun p => p.conn.giveBacks.completed + p.conn.errors) w.past := by
    refine sumOf_le_sumOf fun p hp => ?_
    cases hr : p.replaced with
    | false => exact Nat.zero_le _
    | true =>
      have hpaid := h.past p hp hr
      show 1 ≤ _
      by_cases hzero : p.conn.giveBacks.completed = 0
      · exact Nat.le_trans (hpaid hzero) (Nat.le_add_left _ _)
      · omega
  have hlen : ∀ l : List Past, l.length = sumOf (fun p => p.replaced.toNat) l +
      sumOf (fun p => (!p.replaced).toNat) l := by
    intro l
    induction l with
    | nil => rfl
    | cons p l ih =>
      simp only [List.length_cons, sumOf_cons]
      cases p.replaced <;> simp only [Bool.toNat_true, Bool.toNat_false, Bool.not_true,
        Bool.not_false] <;> omega
  have hcompleted := h.inv.completed
  have herrors := h.inv.errors
  rw [sumOf_add] at hreplaced
  rw [Worker.opened, countP_eq_sumOf, hlen w.past]
  omega

end Worker

/-- Every run in which no connection is lost unused pays for its reconnects. -/
theorem paid_of_carriesFirst {sessions : Nat → Session} {es : List Ev}
    (hm : Meets (Worker.step cfg) (CarriesFirst cfg) (Worker.init cfg now sessions) es)
    (h : run (Worker.step cfg) (Worker.init cfg now sessions) es = some w) : w.Fair cfg :=
  hm.invariant (fun hs hcond hstep => hs.change hcond (step_change hs.inv.conns hstep))
    (Worker.Fair.init now sessions) h

end Shb.Http3
