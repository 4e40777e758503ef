import Shb.Http2.Accounting

/-!
# Can a counted HTTP/2 run wait for nothing?

A run of `n` requests that has not finished is waiting for something: a connect or a
handshake, an answer to a stream, or its own next stream. The books of `Accounting` say where
an unfinished request is: in flight, or **held**. So the one silent state is a connection that
holds give-backs and has nothing in flight — the peer refused everything before it had
answered anything, said no GOAWAY, and kept the connection open. Nothing releases what is held
then but a later answer, which was not asked for, or a close.

`Strands` is that receive, said of the connection before it and of the events it carries. A
receive ends with a fill, and if that opens a stream the connection has something to wait for
after all: `Refills` says when it does. Without receives that strand a connection and do not
refill it no run gets stuck; with one, a run of a single request does.
-/

namespace Shb.Http2

open Lib

/-! ## What a peer said -/

/-- The event is the end of stream `id`. -/
def Event.ends (id : Nat) : Event → Bool
  | .finished j => j == id
  | .reset j => j == id
  | .unprocessed j => j == id
  | _ => false

/-- The status known of stream `id` after an event. -/
def Event.statusOf (id : Nat) (status : Nat) : Event → Nat
  | .status j s => if j = id then s else status
  | _ => status

/-- The peer answers a request that is in flight on `c`: its stream ends, with a status. -/
def Replied (c : Conn) (events : List Event) : Prop :=
  ∃ id r before after, events = before ++ .finished id :: after ∧ c.streams.get id = some r ∧
    (∀ e ∈ before, e.ends id = false) ∧ before.foldl (Event.statusOf id) r.status ≠ 0

/-- A receive that leaves `c` nothing to wait for: the peer has answered nothing on it, has
given something back, ends whatever is in flight, and does not say GOAWAY. -/
def Strands (c : Conn) (events : List Event) : Prop :=
  (c.answered = 0 ∧ ¬ Replied c events) ∧ (c.goaway = false ∧ .goaway ∉ events) ∧
    (0 < c.held ∨ ∃ id, .unprocessed id ∈ events ∧ (c.streams.get id).isSome) ∧
    ∀ id, (c.streams.get id).isSome → ∃ e ∈ events, e.ends id = true

/-! ## What it does to the connection -/

theorem processEvents_append (before after : List Event) :
    ∀ (c : Conn) (stats : Stats) (started : Nat),
      processEvents c stats started (before ++ after) =
        processEvents (processEvents c stats started before).1
          (processEvents c stats started before).2.1 (processEvents c stats started before).2.2
          after := by
  induction before with
  | nil => exact fun _ _ _ => rfl
  | cons e before ih => exact fun c stats started => ih _ _ _

variable {c : Conn} {id : Nat}

/-- A stream that an event does not end stays in flight, with the status it says. -/
theorem processEvent_get {r : InFlight} {e : Event} (he : e.ends id = false)
    (hr : c.streams.get id = some r) (stats : Stats) (started : Nat) :
    (processEvent c stats started e).1.streams.get id =
      some { r with status := e.statusOf id r.status } := by
  have htake : ∀ {j}, e.endedStream = some j → (c.streams.take j).2.get id = some r ∧
      e.statusOf id r.status = r.status := by
    intro j hj
    have hne : id ≠ j := by
      rintro rfl
      cases e <;> simp_all [Event.ends, Event.endedStream]
    refine ⟨by rw [Ring.get_take_of_ne _ hne, hr], ?_⟩
    cases e <;> first | rfl | cases hj
  have h := processEvent_handled c stats started e
  generalize processEvent c stats started e = out at h ⊢
  cases h with
  | status j s =>
    simp only [Ring.get_modify, hr, Event.statusOf]
    by_cases hj : id = j
    · rw [if_pos hj, if_pos hj.symm]
      rfl
    · rw [if_neg hj, if_neg (Ne.symm hj)]
  | goaway => exact hr
  | unknown hj | failed hj => rw [(htake hj).2, (htake hj).1]
  | answered | returned | held => exact (htake rfl).1

theorem processEvents_get (events : List Event) :
    ∀ {c : Conn} {r : InFlight} (stats : Stats) (started : Nat),
      (∀ e ∈ events, e.ends id = false) → c.streams.get id = some r →
      (processEvents c stats started events).1.streams.get id =
        some { r with status := events.foldl (Event.statusOf id) r.status } := by
  induction events with
  | nil => exact fun _ _ _ hr => hr
  | cons e events ih =>
    intro c r stats started he hr
    have hone := processEvent_get (he e List.mem_cons_self) hr stats started
    exact ih _ _ (fun e' h' => he e' (List.mem_cons_of_mem _ h')) hone

theorem processEvent_get_none (hr : c.streams.get id = none) (stats : Stats) (started : Nat)
    (e : Event) : (processEvent c stats started e).1.streams.get id = none := by
  have htake : ∀ j, (c.streams.take j).2.get id = none := by
    intro j
    by_cases hj : id = j
    · rw [hj, Ring.get_take_self]
    · rw [Ring.get_take_of_ne _ hj, hr]
  have h := processEvent_handled c stats started e
  generalize processEvent c stats started e = out at h ⊢
  cases h with
  | status j s => simp only [Ring.get_modify, hr, Option.map_none, ite_self]
  | goaway => exact hr
  | _ => exact htake _

/-- Nothing is held that was not given back. -/
theorem processEvents_held (events : List Event) :
    ∀ {c : Conn} (stats : Stats) (started : Nat), c.held = 0 →
      (∀ id, .unprocessed id ∈ events → c.streams.get id = none) →
      (processEvents c stats started events).1.held = 0 := by
  induction events with
  | nil => exact fun _ _ h _ => h
  | cons e events ih =>
    intro c stats started h0 hnone
    have hone : (processEvent c stats started e).1.held = 0 := by
      have h := processEvent_handled c stats started e
      generalize processEvent c stats started e = out at h ⊢
      cases h with
      | answered => rfl
      | held hr =>
        rw [Ring.take_fst, hnone _ List.mem_cons_self] at hr
        nomatch hr
      | _ => exact h0
    exact ih _ _ hone fun id hid => processEvent_get_none
      (hnone id (List.mem_cons_of_mem _ hid)) _ _ _

theorem processEvents_replied (hc : c.Ok) (hcon : c.connected = true) {events : List Event}
    (h : Replied c events) (stats : Stats) (started : Nat) :
    0 < (processEvents c stats started events).1.answered := by
  obtain ⟨id, r, before, after, rfl, hr, hends, hstatus⟩ := h
  rw [processEvents_append]
  obtain ⟨hok, _⟩ := processEvents_spec before stats started hc hcon
  have hcon' := (processEvents_frame before c stats started).1.trans hcon
  have hget := processEvents_get before stats started hends hr
  generalize processEvents c stats started before = mid at hok hcon' hget ⊢
  obtain ⟨c', stats', started'⟩ := mid
  have hone : 0 < (processEvent c' stats' started' (.finished id)).1.answered := by
    have htaken : (c'.streams.take id).1 = _ := (Ring.take_fst _ _).trans hget
    simp only [processEvent]
    rcases hj : c'.streams.take id with ⟨x, s⟩
    rw [hj] at htaken
    subst htaken
    dsimp only
    rw [if_neg hstatus]
    exact Nat.succ_pos _
  have hh := processEvent_handled c' stats' started' (.finished id)
  have hrest := (processEvents_spec after (processEvent c' stats' started' (.finished id)).2.1
    (processEvent c' stats' started' (.finished id)).2.2 (hh.ok hok hcon')
    (hh.frame.1.trans hcon')).2.answered_le
  exact Nat.lt_of_lt_of_le hone hrest

/-- Unless a receive strands it, a connection that holds something waits for something. -/
theorem waits_of_not_strands (hc : c.Ok) (hcon : c.connected = true) {events : List Event}
    (h : ¬ Strands c events) (stats : Stats) (started : Nat) :
    (processEvents c stats started events).1.goaway = true ∨
      (processEvents c stats started events).1.held = 0 ∨
      0 < (processEvents c stats started events).1.streams.len := by
  obtain ⟨hok, hm⟩ := processEvents_spec events stats started hc hcon
  by_cases hans : c.answered = 0 ∧ ¬ Replied c events
  · by_cases hgo : c.goaway = false ∧ .goaway ∉ events
    · by_cases hback : 0 < c.held ∨ ∃ id, .unprocessed id ∈ events ∧ (c.streams.get id).isSome
      · -- Something was given back, so some stream is left in flight.
        have hleft : ∃ id, (c.streams.get id).isSome ∧ ∀ e ∈ events, e.ends id = false := by
          by_contra hnone
          refine h ⟨hans, hgo, hback, fun id hid => ?_⟩
          by_contra hend
          refine hnone ⟨id, hid, fun e he => ?_⟩
          cases hb : e.ends id with
          | true => exact absurd ⟨e, he, hb⟩ hend
          | false => rfl
        obtain ⟨id, hid, hends⟩ := hleft
        obtain ⟨r, hr⟩ := Option.isSome_iff_exists.mp hid
        exact Or.inr (Or.inr (Ring.len_pos_of_get hok.ring
          (processEvents_get events stats started hends hr)))
      · push Not at hback
        refine Or.inr (Or.inl (processEvents_held events stats started (by omega) fun id hid => ?_))
        exact Option.not_isSome_iff_eq_none.mp (by simpa using hback.2 id hid)
    · refine Or.inl ((processEvents_frame events c stats started).2.2.2.mpr ?_)
      by_contra hno
      push Not at hno
      exact hgo ⟨Bool.not_eq_true _ |>.mp hno.1, hno.2⟩
  · have hpos : 0 < (processEvents c stats started events).1.answered := by
      by_cases h0 : c.answered = 0
      · exact processEvents_replied hc hcon (by_contra fun hr => hans ⟨h0, hr⟩) stats started
      · have := hm.answered_le
        omega
    exact Or.inr (Or.inl (hok.held hpos))

/-! ## The fill behind it -/

/-- Nothing was answered, so nothing that was given back has been released. -/
theorem processEvents_started (events : List Event) :
    ∀ {c : Conn} (stats : Stats) (started : Nat), c.Ok → c.connected = true →
      (processEvents c stats started events).1.answered = 0 →
      (processEvents c stats started events).2.2 = started := by
  induction events with
  | nil => exact fun _ _ _ _ _ => rfl
  | cons e events ih =>
    intro c stats started hc hcon hzero
    have h := processEvent_handled c stats started e
    have hok := h.ok hc hcon
    have hcon' := h.frame.1.trans hcon
    have hle := (processEvents_spec events (processEvent c stats started e).2.1
      (processEvent c stats started e).2.2 hok hcon').2.answered_le
    have hzero' : (processEvent c stats started e).1.answered = 0 :=
      Nat.le_zero.mp (hle.trans (Nat.le_of_eq hzero))
    have hsame : (processEvent c stats started e).2.2 = started := by
      generalize processEvent c stats started e = out at h hzero' ⊢
      cases h with
      | answered => exact absurd hzero' (Nat.succ_ne_zero _)
      | returned hr ha => exact absurd hzero' (Nat.ne_of_gt ha)
      | _ => rfl
    exact (ih _ _ hok hcon' hzero).trans hsame

theorem canOpen_pumpBodies (h2 : Connection) (body : Bytes) :
    (h2.pumpBodies body).canOpen = h2.canOpen :=
  Connection.pumpBodies_invariant (P := fun d => d.canOpen = h2.canOpen)
    (fun _ _ _ h _ _ _ => h) rfl

/-- A fill leaves a stream in flight, if the budget and the peer allow one to be opened. -/
theorem fillStreams_opens {cfg : Config} {h2 : Connection} (hc : c.Ok) (hcon : c.connected = true)
    (hh : c.h2 = some h2) (hdone : c.isHandshaking = false) (hgo : c.goaway = false) {started : Nat}
    (hmay : cfg.budget.mayStart started = true) (hopen : h2.canOpen = true) (now : Nat) :
    0 < (fillStreams cfg false now c started).1.streams.len := by
  by_cases hzero : c.streams.len = 0
  · obtain ⟨fuel, hfuel⟩ := Nat.exists_eq_succ_of_ne_zero (Nat.ne_of_gt cfg.parallel_pos)
    have hroom : c.streams.len < fuel.succ := by
      rw [hzero]
      exact Nat.succ_pos fuel
    have hcan := (canOpen_pumpBodies h2 cfg.body).trans hopen
    have hsome : ((h2.pumpBodies cfg.body).startStream cfg.headerBlock cfg.body).1 =
        some (h2.pumpBodies cfg.body).nextId := by
      simp only [Connection.startStream, hcan, Bool.not_true, Bool.false_eq_true, if_false]
    simp only [fillStreams, hh, hdone, hgo, Bool.false_eq_true, if_false, Bool.or_false, hfuel,
      startStreams, hroom, hmay, decide_true, Bool.and_self, if_true]
    rcases hstart : (h2.pumpBodies cfg.body).startStream cfg.headerBlock cfg.body with ⟨_ | id, h2'⟩
    · rw [hstart] at hsome
      cases hsome
    · generalize hs : startStreams cfg now fuel h2' (c.streams.push id ⟨now, 0⟩) (started + 1) = out
      have hle := (startStreams_spec cfg now fuel (hc.ring.push _ _) hs).2.1
      simp only [hs]
      exact Nat.lt_of_lt_of_le (Nat.succ_pos _) hle
  · exact Nat.lt_of_lt_of_le (Nat.pos_of_ne_zero hzero)
      (fillStreams_spec cfg false now hc hcon started).len_le

/-! ## What it does to the worker -/

namespace Worker

/-- Something is going on: a connect or a handshake, a stream, or room for another one. -/
def Busy (cfg : Config) (w : Worker) : Prop :=
  (∃ c ∈ w.conns, c.connecting = true ∨ c.isHandshaking = true) ∨
    (∃ c ∈ w.conns, 0 < c.streams.len) ∨ cfg.budget.mayStart w.started = true

/-- The fill that ends a receive opens a stream on an empty connection: the worker is not told to
stop, the handshake is done, and neither the budget nor the peer is at its limit. -/
structure Refills (cfg : Config) (w : Worker) (c : Conn) (fed : Fed) : Prop where
  stop : w.stop = false
  handshake : ({ c with tls := fed.tls } : Conn).isHandshaking = false
  budget : cfg.budget.mayStart w.started = true
  peer : fed.h2.canOpen = true

/-- The event is not a receive that strands the connection it is for, with no fill to help it. -/
def NotStranding (cfg : Config) (w : Worker) (e : Ev) : Prop :=
  ∀ i g now r re, e = .recv i g now r re → ∀ c h2 fed, w.conns[i]? = some c → g = c.generation →
    c.h2 = some h2 → Feeds c h2 r fed → fed.ok = true → fed.refused = false →
    ¬ Strands c fed.events ∨ w.Refills cfg c fed

/-- Whoever holds give-backs has a stream in flight. -/
def Waiting (w : Worker) : Prop := ∀ c ∈ w.conns, 0 < c.held → 0 < c.streams.len

variable {cfg : Config} {w : Worker}

theorem Waiting.replaced (hw : w.Waiting) (i : Nat) (c₁ : Conn) (stats : Stats)
    (started now : Nat) (re : Bool) : (w.replace cfg i c₁ stats started now re).Waiting := by
  obtain ⟨c', ⟨_, howed, _, _⟩, hconns, _⟩ := w.replace_cases cfg i c₁ stats started now re
  unfold Waiting
  rw [hconns]
  refine forall_mem_set hw fun hpos => ?_
  unfold Conn.owed at howed
  omega

theorem Waiting.step {w' : Worker} {e : Ev} (hinv : w.Inv) (hw : w.Waiting)
    (hcond : w.NotStranding cfg e) (h : w.step cfg e = some w') : w'.Waiting := by
  cases step_change hinv.conns h with
  | idle hconns _ _ _ => exact fun c hc => hw c (hconns ▸ hc)
  | @noted i now c hi => exact forall_mem_set hw (hw c (List.mem_of_getElem? hi.2))
  | @connected i now c c₀ hi hcon h₀ =>
    obtain ⟨hs, hh, ha, hc, h2, hsome, _⟩ := h₀
    have hok := hinv.conns _ (List.mem_of_getElem? hi.2)
    have hzero : c.held = 0 := by
      simp only [Conn.connecting, Bool.and_eq_true, Bool.not_eq_true'] at hcon
      have := (hok.idle hcon.2).1
      unfold Conn.owed at this
      omega
    have hok₀ := hok.reconnected hs hh ha hc hsome
    have hfill := fillStreams_spec cfg w.stop now hok₀ hc w.started
    refine forall_mem_set hw fun hpos => ?_
    rw [hfill.held, hh, hzero] at hpos
    exact absurd hpos (Nat.lt_irrefl 0)
  | @received i g now c h2 r fed re he hi hg hh hcon hf hok href hopen =>
    have hc := hinv.conns _ (List.mem_of_getElem? hi.2)
    have hstrands := hcond i g now r re he c h2 fed hi.2 hg hh hf hok href
    obtain ⟨hok', _⟩ := afterEvents_spec cfg w hc hcon fed
    have hcon' := (afterEvents_frame cfg w c fed).1.trans hcon
    have hfill := fillStreams_spec cfg w.stop now hok' hcon' (w.afterEvents cfg c fed).2.2
    have hc' : ({ c with h2 := some fed.h2, tls := fed.tls } : Conn).Ok :=
      ⟨hc.ring, hc.held, hc.idle, hcon.symm, fun h => absurd (hcon.symm.trans h) (by simp)⟩
    refine forall_mem_set hw fun hpos => ?_
    rw [hfill.held] at hpos
    -- A GOAWAY with nothing in flight would have closed the connection.
    have hleft : (w.afterEvents cfg c fed).1.goaway = true →
        0 < (w.afterEvents cfg c fed).1.streams.len := by
      intro hgo
      rw [hgo, Bool.true_and] at hopen
      unfold Ring.isEmpty at hopen
      unfold Ring.len
      simp only [beq_eq_false_iff_ne] at hopen
      omega
    rcases hstrands with hstrands | hrefills
    · refine Nat.lt_of_lt_of_le ?_ hfill.len_le
      rcases waits_of_not_strands hc' hcon hstrands _ _ with hgo | hheld | hlen
      · exact hleft hgo
      · exact absurd hpos (Nat.not_lt_of_le (Nat.le_of_eq hheld))
      · exact hlen
    · obtain ⟨_, hh2, htls, _⟩ := afterEvents_frame cfg w c fed
      have hdone : (w.afterEvents cfg c fed).1.isHandshaking = false := by
        unfold Conn.isHandshaking
        rw [htls]
        exact hrefills.handshake
      -- Nothing was answered, or nothing would be held, so the budget is what it was.
      have hzero : (w.afterEvents cfg c fed).1.answered = 0 := by
        by_contra hne
        exact absurd (hok'.held (Nat.pos_of_ne_zero hne)) (Nat.ne_of_gt hpos)
      have hstarted : (w.afterEvents cfg c fed).2.2 = w.started := by
        unfold Worker.afterEvents at hzero ⊢
        rw [href, if_neg (by decide)] at hzero ⊢
        exact processEvents_started fed.events _ _ hc' hcon hzero
      cases hgo : (w.afterEvents cfg c fed).1.goaway with
      | true => exact Nat.lt_of_lt_of_le (hleft hgo) hfill.len_le
      | false =>
        rw [hrefills.stop, hstarted]
        exact fillStreams_opens hok' hcon' hh2 hdone hgo hrefills.budget hrefills.peer now
  | failed _ _ _ | dropped _ _ _ _ | wedged _ _ _ => exact Waiting.replaced hw _ _ _ _ _ _

theorem Inv.busy {n : Nat} (hb : cfg.budget = .requests n) (hinv : w.Inv) (hw : w.Waiting)
    (hn : w.stats.finished < n) : w.Busy cfg := by
  by_cases hmay : cfg.budget.mayStart w.started = true
  · exact Or.inr (Or.inr hmay)
  · -- The budget is spent, so some connection owes a request, and waits for one.
    rw [hb, Budget.mayStart_requests] at hmay
    have hbal := hinv.balance
    obtain ⟨c, hc, hpos⟩ := exists_pos_of_sumOf Conn.owed (l := w.conns) (by omega)
    refine Or.inr (Or.inl ⟨c, hc, ?_⟩)
    by_cases hh : 0 < c.held
    · exact hw c hc hh
    · unfold Conn.owed at hpos
      omega

/-- **A counted run is never silently stuck, as long as no receive strands a connection.** In
every state such a run reaches, if requests are missing then a connect or a handshake is in
progress, or a stream is in flight, or the budget lets another one be started. -/
theorem never_stuck {cfg : Config} {n : Nat} (hb : cfg.budget = .requests n) (now : Nat)
    {es : List Ev} {w : Worker} (hm : Meets (step cfg) (NotStranding cfg) (init cfg now) es)
    (h : run (step cfg) (init cfg now) es = some w) (hn : w.stats.finished < n) : w.Busy cfg := by
  have hinit : (init cfg now).Inv ∧ (init cfg now).Waiting := by
    refine ⟨Inv.init cfg now, fun c hc => ?_⟩
    obtain ⟨i, _, rfl⟩ := List.mem_map.mp hc
    exact fun h => absurd h (Nat.lt_irrefl 0)
  obtain ⟨hinv, hw⟩ := Meets.invariant (P := fun w => w.Inv ∧ w.Waiting)
    (fun hP hcond hs => ⟨hP.1.step hs, hP.2.step hP.1 hcond hs⟩) hm hinit h
  exact Inv.busy hb hinv hw hn

/-- One request, one connection, cleartext. -/
def oneRequest : Config :=
  { tls := false, connections := 1, budget := .requests 1, timeout := none, parallel := 1
    parallel_pos := Nat.one_pos, headerBlock := [0x82, 0x86, 0x84], body := [] }

/-- An empty SETTINGS, and RST_STREAM with REFUSED_STREAM for the first stream. -/
def refusal : Bytes :=
  [0, 0, 0, 4, 0, 0, 0, 0, 0] ++ [0, 0, 4, 3, 0, 0, 0, 0, 1, 0, 0, 0, 7]

def refusedRun : List Ev := [.connect 0 0 0 true true, .recv 0 0 1 (.data refusal) true]

/-- Two requests side by side. -/
def twoRequests : Config :=
  { oneRequest with budget := .requests 2, parallel := 2, parallel_pos := Nat.two_pos }

/-- The worker after so many events of it. -/
def refusedAfter (k : Nat) : Worker :=
  (run (step twoRequests) (init twoRequests 0) (refusedRun.take k)).getD (init twoRequests 0)

/-- The first of them is refused and held, and the other is still in flight. -/
theorem never_stuck_one_left :
    run (step twoRequests) (init twoRequests 0) refusedRun = some (refusedAfter 2) ∧
      (refusedAfter 2).conns.map (·.held) = [1] ∧ (refusedAfter 2).Busy twoRequests := by
  have hrun : run (step twoRequests) (init twoRequests 0) refusedRun = some (refusedAfter 2) := by
    decide +kernel
  have hmeets : Meets (step twoRequests) (NotStranding twoRequests) (init twoRequests 0)
      refusedRun := by
    refine Meets.cons (t := refusedAfter 1) (by decide +kernel) (fun _ _ _ _ _ he => nomatch he)
      (Meets.cons (t := refusedAfter 2) (by decide +kernel) ?_ trivial)
    intro i g now r re he c h2 fed hi hg hh hf _ _
    cases he
    cases hf
    -- stream 3 is in flight, and nothing in the receive ends it
    have hflight : (refusedAfter 1).conns[0]?.all (fun c => (c.streams.get 3).isSome) = true := by
      decide +kernel
    have hends : ((refusedAfter 1).conns[0]?.bind (·.h2)).all
        (fun h2 => (feedPlain h2 refusal).events.all (!·.ends 3)) = true := by decide +kernel
    rw [hi, Option.all_some] at hflight
    rw [hi, Option.bind_some, hh, Option.all_some, List.all_eq_true] at hends
    refine Or.inl fun hstrands => ?_
    obtain ⟨e, he, hend⟩ := hstrands.2.2.2 3 hflight
    simpa [hend] using hends e he
  exact ⟨hrun, by decide +kernel, never_stuck (n := 2) rfl 0 hmeets hrun (by decide +kernel)⟩

def refusedEnd : Worker :=
  (run (step oneRequest) (init oneRequest 0) refusedRun).getD (init oneRequest 0)

/-- A peer that refuses the only request and then says nothing more: the request is held, the
budget is spent, and nothing is in progress anywhere. -/
theorem stuck_refused :
    run (step oneRequest) (init oneRequest 0) refusedRun = some refusedEnd ∧
      refusedEnd.stats.finished < 1 ∧ ¬ refusedEnd.Busy oneRequest := by
  have hidle : refusedEnd.conns.all
      (fun c => !c.connecting && !c.isHandshaking && c.streams.isEmpty) = true := by
    decide +kernel
  refine ⟨by decide +kernel, by decide +kernel, ?_⟩
  rw [List.all_eq_true] at hidle
  rintro (⟨c, hc, h⟩ | ⟨c, hc, h⟩ | h)
  · have := hidle c hc
    simp only [Bool.and_eq_true, Bool.not_eq_true'] at this
    rcases h with h | h
    · exact absurd (h.symm.trans this.1.1) (by simp)
    · exact absurd (h.symm.trans this.1.2) (by simp)
  · have := hidle c hc
    simp only [Ring.isEmpty, Bool.and_eq_true, beq_iff_eq] at this
    exact absurd h (by rw [Ring.len, this.2]; exact Nat.lt_irrefl 0)
  · exact absurd h (by decide +kernel)

end Worker

end Shb.Http2
