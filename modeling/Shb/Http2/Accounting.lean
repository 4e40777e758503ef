import Shb.Lib.Run
import Shb.Lib.Sums
import Shb.Http2.Moves
import Shb.Http2.Worker

/-!
# Every request is accounted for

A request that has been started is in exactly one place: completed, an error, in flight on a
connection, or **held** by a connection that gave it back before it had answered anything.
`Conn.owed` is what one connection still owes an answer for, and the invariant of the worker
is the equation

`started = completed + errors + Σ owed`.

Each function that touches one connection is described once, by `Moves`: what it does to that
connection's share, whatever the other connections hold (`rest`). The steps of the worker only
put those descriptions together.
-/

namespace Shb.Http2

open Lib

/-- The requests a connection still has to answer for. -/
def Conn.owed (c : Conn) : Nat := c.streams.len + c.held

structure Conn.Ok (c : Conn) : Prop where
  ring : c.streams.Ok
  /-- Give-backs are held only until the first answer. -/
  held : 0 < c.answered → c.held = 0
  /-- Nothing is owed before a connection exists. -/
  idle : c.connected = false → c.owed = 0 ∧ c.answered = 0
  /-- A connection has a protocol state exactly once its socket is connected. -/
  shape : c.h2.isSome = c.connected ∧ (c.connected = false → c.tls = none)

theorem Conn.Ok.reconnected {c c₀ : Conn} {h2 : Connection} (hc : c.Ok)
    (hs : c₀.streams = c.streams) (hheld : c₀.held = c.held) (ha : c₀.answered = c.answered)
    (hcon : c₀.connected = true) (hh : c₀.h2 = some h2) : c₀.Ok where
  ring := hs ▸ hc.ring
  held h := by
    rw [hheld]
    exact hc.held (ha ▸ h)
  idle h := absurd (hcon.symm.trans h) (by simp)
  shape := ⟨by rw [hh, hcon]; rfl, fun h => absurd (hcon.symm.trans h) (by simp)⟩

/-- From one connection's counts to another's, with nothing lost and nothing made up. -/
structure Moves (c : Conn) (stats : Stats) (started : Nat) (c' : Conn) (stats' : Stats)
    (started' : Nat) : Prop where
  balance : ∀ rest, started = stats.finished + c.owed + rest →
    started' = stats'.finished + c'.owed + rest
  /-- `answered` counts the completions of this connection. -/
  answered : stats'.completed + c.answered = stats.completed + c'.answered
  answered_le : c.answered ≤ c'.answered
  /-- What a connection that answers nothing was given it keeps, as errors or as owed. -/
  charged : c'.answered = 0 → stats.errors + c.owed ≤ stats'.errors + c'.owed
  /-- Only a connection that answers gives anything back to the budget. -/
  started_le : c'.answered = 0 → started ≤ started'
  errors_le : stats.errors ≤ stats'.errors

namespace Moves

variable {c c₁ c₂ : Conn} {stats stats₁ stats₂ : Stats} {started started₁ started₂ : Nat}

theorem trans (h₁ : Moves c stats started c₁ stats₁ started₁)
    (h₂ : Moves c₁ stats₁ started₁ c₂ stats₂ started₂) :
    Moves c stats started c₂ stats₂ started₂ where
  balance rest h := h₂.balance rest (h₁.balance rest h)
  answered := by
    have := h₁.answered
    have := h₂.answered
    omega
  answered_le := Nat.le_trans h₁.answered_le h₂.answered_le
  charged h := by
    have h0 : c₁.answered = 0 := by
      have := h₂.answered_le
      omega
    exact Nat.le_trans (h₁.charged h0) (h₂.charged h)
  started_le h := by
    have h0 : c₁.answered = 0 := by
      have := h₂.answered_le
      omega
    exact Nat.le_trans (h₁.started_le h0) (h₂.started_le h)
  errors_le := Nat.le_trans h₁.errors_le h₂.errors_le

theorem of_eq (ho : c₁.owed = c.owed) (ha : c₁.answered = c.answered) :
    Moves c stats started c₁ stats started where
  balance _ h := by rw [ho]; exact h
  answered := by rw [ha]
  answered_le := Nat.le_of_eq ha.symm
  charged _ := Nat.le_of_eq (by rw [ho])
  started_le _ := Nat.le_refl _
  errors_le := Nat.le_refl _

end Moves

/-! ## The events of one connection -/

/-- What an event can do. One that ends a stream takes it off the ring, and what becomes of the
request depends on whether it was there. -/
inductive Handled (c : Conn) (stats : Stats) (started : Nat) : Event → Conn × Stats × Nat → Prop
  | status (id status : Nat) : Handled c stats started (.status id status)
      ({ c with streams := c.streams.modify id fun r => { r with status := status } }, stats,
        started)
  | goaway : Handled c stats started .goaway ({ c with goaway := true }, stats, started)
  | unknown {e : Event} {id : Nat} (he : e.endedStream = some id)
      (hr : (c.streams.take id).1 = none) :
      Handled c stats started e ({ c with streams := (c.streams.take id).2 }, stats, started)
  | failed {e : Event} {id : Nat} {r : InFlight} (he : e.endedStream = some id)
      (hr : (c.streams.take id).1 = some r) :
      Handled c stats started e ({ c with streams := (c.streams.take id).2 }, stats.fail 1, started)
  | answered {id : Nat} {r : InFlight} (hr : (c.streams.take id).1 = some r) :
      Handled c stats started (.finished id)
        ({ c with streams := (c.streams.take id).2, answered := c.answered + 1, held := 0 },
          stats.recordSuccess, started - c.held)
  | returned {id : Nat} {r : InFlight} (hr : (c.streams.take id).1 = some r)
      (ha : 0 < c.answered) : Handled c stats started (.unprocessed id)
        ({ c with streams := (c.streams.take id).2 }, stats, started - 1)
  | held {id : Nat} {r : InFlight} (hr : (c.streams.take id).1 = some r)
      (ha : ¬ 0 < c.answered) : Handled c stats started (.unprocessed id)
        ({ c with streams := (c.streams.take id).2, held := c.held + 1 }, stats, started)

theorem processEvent_handled (c : Conn) (stats : Stats) (started : Nat) (e : Event) :
    Handled c stats started e (processEvent c stats started e) := by
  have hfst : ∀ {id x s}, c.streams.take id = (x, s) → (c.streams.take id).1 = x :=
    fun h => congrArg Prod.fst h
  cases e with
  | status id status => exact .status id status
  | goaway => exact .goaway
  | finished id =>
    rcases ht : c.streams.take id with ⟨_ | r, s⟩ <;> simp only [processEvent, ht]
    · simpa only [ht] using Handled.unknown rfl (hfst ht)
    · split
      · simpa only [ht] using Handled.failed rfl (hfst ht)
      · simpa only [ht] using Handled.answered (hfst ht)
  | reset id =>
    rcases ht : c.streams.take id with ⟨_ | r, s⟩ <;> simp only [processEvent, ht]
    · simpa only [ht] using Handled.unknown rfl (hfst ht)
    · simpa only [ht] using Handled.failed rfl (hfst ht)
  | unprocessed id =>
    rcases ht : c.streams.take id with ⟨_ | r, s⟩ <;> simp only [processEvent, ht]
    · simpa only [ht] using Handled.unknown rfl (hfst ht)
    · split
      · rename_i ha
        simpa only [ht] using Handled.returned (hfst ht) ha
      · rename_i ha
        simpa only [ht] using Handled.held (hfst ht) ha

namespace Handled

variable {c : Conn} {stats : Stats} {started : Nat} {e : Event} {out : Conn × Stats × Nat}

section

variable (h : Handled c stats started e out)
include h

theorem ok (hc : c.Ok) (hcon : c.connected = true) : out.1.Ok := by
  have hidle : ∀ {c' : Conn}, c'.connected = true → c'.connected = false →
      c'.owed = 0 ∧ c'.answered = 0 := fun h h' => absurd (h.symm.trans h') (by simp)
  cases h with
  | status id status => exact ⟨hc.ring.modify _ _, hc.held, hidle hcon, hc.shape⟩
  | goaway => exact ⟨hc.ring, hc.held, hidle hcon, hc.shape⟩
  | answered hr => exact ⟨hc.ring.take _, fun _ => rfl, hidle hcon, hc.shape⟩
  | held hr ha => exact ⟨hc.ring.take _, fun h => absurd h ha, hidle hcon, hc.shape⟩
  | unknown | failed | returned => exact ⟨hc.ring.take _, hc.held, hidle hcon, hc.shape⟩

theorem moves (hc : c.Ok) : Moves c stats started out.1 out.2.1 out.2.2 := by
  cases h with
  | status id status => exact Moves.of_eq (by simp [Conn.owed]) rfl
  | goaway => exact Moves.of_eq rfl rfl
  | unknown he hr =>
    rw [Ring.take_none hr]
    exact Moves.of_eq rfl rfl
  | failed he hr =>
    have hlen := Ring.len_take_some hc.ring hr
    refine ⟨fun _ h => ?_, rfl, Nat.le_refl _, fun _ => ?_, fun _ => Nat.le_refl _, Nat.le_succ _⟩
    · simp only [Stats.finished, Stats.fail, Conn.owed] at h ⊢
      omega
    · simp only [Stats.fail, Conn.owed]
      omega
  | answered hr =>
    have hlen := Ring.len_take_some hc.ring hr
    refine ⟨fun _ h => ?_, ?_, Nat.le_succ _, fun h => absurd h (Nat.succ_ne_zero _),
      fun h => absurd h (Nat.succ_ne_zero _), Nat.le_refl _⟩
    · simp only [Stats.finished, Stats.recordSuccess, Conn.owed] at h ⊢
      omega
    · simp only [Stats.recordSuccess]
      omega
  | returned hr ha =>
    have hlen := Ring.len_take_some hc.ring hr
    refine ⟨fun _ h => ?_, rfl, Nat.le_refl _, fun h => absurd h (Nat.ne_of_gt ha),
      fun h => absurd h (Nat.ne_of_gt ha), Nat.le_refl _⟩
    simp only [Stats.finished, Conn.owed] at h ⊢
    omega
  | held hr ha =>
    have hlen := Ring.len_take_some hc.ring hr
    refine ⟨fun _ h => ?_, rfl, Nat.le_refl _, fun _ => ?_, fun _ => Nat.le_refl _, Nat.le_refl _⟩
    · simp only [Stats.finished, Conn.owed] at h ⊢
      omega
    · simp only [Conn.owed]
      omega

/-- What an event of the protocol leaves alone. -/
theorem frame :
    out.1.connected = c.connected ∧ out.1.h2 = c.h2 ∧ out.1.tls = c.tls ∧
      (out.1.goaway = true ↔ c.goaway = true ∨ e = .goaway) := by
  cases h with
  | unknown he | failed he =>
    have hne : e ≠ .goaway := fun h => nomatch h ▸ he
    exact ⟨rfl, rfl, rfl, by simp [hne]⟩
  | _ => exact ⟨rfl, rfl, rfl, by simp⟩

theorem started_le : out.2.2 ≤ started := by
  cases h with
  | answered | returned => exact Nat.sub_le _ _
  | _ => exact Nat.le_refl _

end

end Handled

theorem processEvents_frame (events : List Event) :
    ∀ (c : Conn) (stats : Stats) (started : Nat),
      (processEvents c stats started events).1.connected = c.connected ∧
        (processEvents c stats started events).1.h2 = c.h2 ∧
        (processEvents c stats started events).1.tls = c.tls ∧
        ((processEvents c stats started events).1.goaway = true ↔
          c.goaway = true ∨ .goaway ∈ events) := by
  induction events with
  | nil => exact fun _ _ _ => ⟨rfl, rfl, rfl, by simp [processEvents]⟩
  | cons e events ih =>
    intro c stats started
    obtain ⟨hc, hh, ht, hg⟩ := (processEvent_handled c stats started e).frame
    obtain ⟨hc', hh', ht', hg'⟩ := ih (processEvent c stats started e).1
      (processEvent c stats started e).2.1 (processEvent c stats started e).2.2
    refine ⟨hc'.trans hc, hh'.trans hh, ht'.trans ht, hg'.trans ?_⟩
    rw [hg, List.mem_cons, or_assoc]
    exact or_congr_right (or_congr_left eq_comm)

theorem processEvents_spec (events : List Event) :
    ∀ {c : Conn} (stats : Stats) (started : Nat), c.Ok → c.connected = true →
      (processEvents c stats started events).1.Ok ∧
        Moves c stats started (processEvents c stats started events).1
          (processEvents c stats started events).2.1
          (processEvents c stats started events).2.2 := by
  induction events with
  | nil => exact fun _ _ hc _ => ⟨hc, Moves.of_eq rfl rfl⟩
  | cons e events ih =>
    intro c stats started hc hcon
    have hone := processEvent_handled c stats started e
    obtain ⟨hok, hrest⟩ := ih (processEvent c stats started e).2.1
      (processEvent c stats started e).2.2 (hone.ok hc hcon) (hone.frame.1.trans hcon)
    exact ⟨hok, (hone.moves hc).trans hrest⟩

/-! ## Filling a connection -/

theorem startStreams_spec (cfg : Config) (now fuel : Nat) :
    ∀ {h2 h2' : Connection} {streams streams' : H2Ring InFlight} {started started' : Nat},
      streams.Ok → startStreams cfg now fuel h2 streams started = (h2', streams', started') →
      streams'.Ok ∧ streams.len ≤ streams'.len ∧ started' + streams.len = started +
        streams'.len := by
  induction fuel with
  | zero =>
    intro h2 h2' streams streams' started started' hok h
    obtain ⟨_, rfl, rfl⟩ := h
    exact ⟨hok, Nat.le_refl _, rfl⟩
  | succ fuel ih =>
    intro h2 h2' streams streams' started started' hok h
    unfold startStreams at h
    split at h
    · split at h
      · simp only [Prod.mk.injEq] at h
        obtain ⟨_, rfl, rfl⟩ := h
        exact ⟨hok, Nat.le_refl _, rfl⟩
      · obtain ⟨hok', hle, heq⟩ := ih (hok.push _ _) h
        rw [Ring.len_push] at hle heq
        exact ⟨hok', by omega, by omega⟩
    · simp only [Prod.mk.injEq] at h
      obtain ⟨_, rfl, rfl⟩ := h
      exact ⟨hok, Nat.le_refl _, rfl⟩

/-- Filling only adds streams, each of them started. -/
structure Fills (c : Conn) (started : Nat) (c' : Conn) (started' : Nat) : Prop where
  ok : c'.Ok
  connected : c'.connected = c.connected
  handshaking : c'.isHandshaking = c.isHandshaking
  held : c'.held = c.held
  answered : c'.answered = c.answered
  len_le : c.streams.len ≤ c'.streams.len
  started_eq : started' + c.streams.len = started + c'.streams.len

theorem fillStreams_spec (cfg : Config) (stop : Bool) (now : Nat) {c : Conn} (hc : c.Ok)
    (hcon : c.connected = true) (started : Nat) :
    Fills c started (fillStreams cfg stop now c started).1
      (fillStreams cfg stop now c started).2 := by
  have hsame : Fills c started c started :=
    ⟨hc, rfl, rfl, rfl, rfl, Nat.le_refl _, rfl⟩
  unfold fillStreams
  cases hh : c.h2 with
  | none => exact hsame
  | some h2 =>
    dsimp only
    split
    · exact hsame
    · split
      · exact ⟨⟨hc.ring, hc.held, hc.idle, hcon.symm, hc.shape.2⟩, rfl, rfl, rfl, rfl,
          Nat.le_refl _, rfl⟩
      · generalize hs : startStreams cfg now cfg.parallel (h2.pumpBodies cfg.body) c.streams
          started = out
        obtain ⟨hok, hle, heq⟩ := startStreams_spec cfg now cfg.parallel hc.ring hs
        exact ⟨⟨hok, hc.held, fun h => absurd (hcon.symm.trans h) (by simp), hcon.symm, hc.shape.2⟩,
          rfl, rfl, rfl, rfl, hle, heq⟩

theorem Fills.moves {c c' : Conn} {started started' : Nat} (h : Fills c started c' started')
    (stats : Stats) : Moves c stats started c' stats started' where
  balance _ hb := by
    have := h.started_eq
    have := h.held
    simp only [Conn.owed] at hb ⊢
    omega
  answered := by rw [h.answered]
  answered_le := Nat.le_of_eq h.answered.symm
  charged _ := by
    have := h.len_le
    have := h.held
    simp only [Conn.owed]
    omega
  started_le _ := by
    have := h.len_le
    have := h.started_eq
    omega
  errors_le := Nat.le_refl _

/-! ## Failing a connection -/

/-- A failed connect is started and finished at once. -/
theorem failConnect_spec {stats stats' : Stats} {started started' : Nat} {budget : Budget}
    (h : failConnect stats started budget = (stats', started')) :
    stats'.completed = stats.completed ∧ started' + stats.errors = started + stats'.errors ∧
      stats.errors ≤ stats'.errors := by
  unfold failConnect at h
  split at h
  · simp only [Prod.mk.injEq] at h
    obtain ⟨rfl, rfl⟩ := h
    exact ⟨rfl, by simp only [Stats.fail]; omega, Nat.le_succ _⟩
  · simp only [Prod.mk.injEq] at h
    obtain ⟨rfl, rfl⟩ := h
    exact ⟨rfl, rfl, Nat.le_refl _⟩

theorem failConnect_moves (c : Conn) {stats stats' : Stats} {started started' : Nat}
    {budget : Budget} (h : failConnect stats started budget = (stats', started')) :
    Moves c stats started c stats' started' := by
  obtain ⟨hc, hs, he⟩ := failConnect_spec h
  refine ⟨fun _ hb => ?_, by rw [hc], Nat.le_refl _, fun _ => by omega, fun _ => by omega, he⟩
  simp only [Stats.finished] at hb ⊢
  omega

/-- What replacing a connection leaves: an empty slot, closed or connecting again, with what
was owed counted as errors. Only a connection with budget behind it is opened. -/
theorem Worker.replace_cases (cfg : Config) (w : Worker) (i : Nat) (c : Conn) (stats : Stats)
    (started now : Nat) (re : Bool) :
    ∃ c' : Conn, (c'.Ok ∧ c'.owed = 0 ∧ c'.answered = 0 ∧ c'.h2 = none) ∧
      (w.replace cfg i c stats started now re).conns = w.conns.set i c' ∧
      (w.replace cfg i c stats started now re).stats = stats.fail c.owed ∧
      (w.replace cfg i c stats started now re).started = started ∧
      ((w.replace cfg i c stats started now re).opened = w.opened ∨
        (w.replace cfg i c stats started now re).opened = w.opened + 1 ∧
          cfg.budget.mayStart started = true) := by
  have hclosed : ∀ fd, ({ (c.failInflight stats).1.close now with fd := fd } : Conn).Ok :=
    fun _ => ⟨Ring.new_ok, fun _ => rfl, fun _ => ⟨rfl, rfl⟩, rfl, fun _ => rfl⟩
  unfold Worker.replace
  dsimp only
  split
  · rename_i hmay
    rw [Bool.and_eq_true] at hmay
    split
    · exact ⟨_, ⟨hclosed true, rfl, rfl, rfl⟩, rfl, rfl, rfl, Or.inr ⟨rfl, hmay.2⟩⟩
    · exact ⟨_, ⟨hclosed false, rfl, rfl, rfl⟩, rfl, rfl, rfl, Or.inl rfl⟩
  · exact ⟨_, ⟨hclosed false, rfl, rfl, rfl⟩, rfl, rfl, rfl, Or.inl rfl⟩

/-! ## What one event can do -/

/-- What the connection made of a receive that carried bytes. -/
inductive Feeds (c : Conn) (h2 : Connection) : Recv → Fed → Prop
  | plain {bytes : Bytes} (h : c.tls = none) : Feeds c h2 (.data bytes) (feedPlain h2 bytes)
  | tls {tls : TlsSession} {read : TlsRead} (h : c.tls = some tls) :
    Feeds c h2 (.ciphertext read) (feedTls h2 tls read)

/-- An event that costs slot `i` its connection `c` after the handshake, if there was one: the
socket fails or ends, what arrives cannot be read, or the peer is done with it. -/
inductive Drops (i : Nat) (c : Conn) (h2 : Connection) : Ev → Prop
  | send {now : Nat} {re : Bool} (h : c.isHandshaking = false) :
      Drops i c h2 (.send i c.generation now false re)
  | lost {now : Nat} {re : Bool} (h : c.isHandshaking = false) :
      Drops i c h2 (.recv i c.generation now .lost re)
  | eof {now : Nat} {re : Bool} (h : c.isHandshaking = false) :
      Drops i c h2 (.recv i c.generation now .eof re)
  | unreadable {now : Nat} {re : Bool} {r : Recv} {fed : Fed} (hf : Feeds c h2 r fed)
      (h : ({ c with tls := fed.tls } : Conn).isHandshaking = false) (hok : fed.ok = false) :
      Drops i c h2 (.recv i c.generation now r re)
  | goneAway {now : Nat} {re : Bool} {r : Recv} {fed : Fed} (hf : Feeds c h2 r fed)
      (h : ({ c with tls := fed.tls } : Conn).isHandshaking = false)
      (hgo : c.goaway = true ∨ .goaway ∈ fed.events) :
      Drops i c h2 (.recv i c.generation now r re)

/-- The event is about slot `i`, where `c` is. -/
def Worker.At (w : Worker) (e : Ev) (i : Nat) (c : Conn) : Prop :=
  e.slot = some i ∧ w.conns[i]? = some c

/-- The worker after one event, by the function that made it. -/
inductive Stepped (cfg : Config) (w : Worker) : Ev → Worker → Prop
  | same {e : Ev} {w' : Worker} (hconns : w'.conns = w.conns) (hstats : w'.stats = w.stats)
      (hstarted : w'.started = w.started) (hopened : w'.opened = w.opened) : Stepped cfg w e w'
  | check {i now limit : Nat} {re : Bool} {c : Conn} (hi : w.conns[i]? = some c) :
      Stepped cfg w (.check i now re) (w.onCheck cfg i c limit now re)
  | connect {i g now : Nat} {ok re : Bool} {c : Conn} (hi : w.conns[i]? = some c)
      (hc : c.connecting = true) :
      Stepped cfg w (.connect i g now ok re) (w.onConnect cfg i c now ok re)
  | broken {e : Ev} {i now : Nat} {re : Bool} {c : Conn} (hi : w.At e i c)
      (hcon : c.connected = true) (hd : ∀ h2, c.isHandshaking = false → Drops i c h2 e) :
      Stepped cfg w e (w.broken cfg i c w.stats w.started now re)
  | fed {i now : Nat} {re : Bool} {c : Conn} {h2 : Connection} {r : Recv} {fed : Fed}
      (hi : w.conns[i]? = some c) (hcon : c.connected = true) (hh : c.h2 = some h2)
      (hf : Feeds c h2 r fed) :
      Stepped cfg w (.recv i c.generation now r re) (w.onFed cfg i c fed now re)

theorem step_stepped {cfg : Config} {w w' : Worker} {e : Ev} (h : w.step cfg e = some w') :
    Stepped cfg w e w' := by
  unfold Worker.step at h
  split at h
  · cases h
  cases e with
  | turn shutdown | fault =>
    cases h
    exact .same rfl rfl rfl rfl
  | deadline =>
    dsimp only at h
    split at h
    all_goals cases h
    exact .same rfl rfl rfl rfl
  | check i now re =>
    dsimp only at h
    split at h
    · rename_i hi
      cases h
      exact .check hi
    · cases h
  | connect i g now ok re =>
    dsimp only at h
    split at h
    · cases h
    rename_i hi
    split at h
    · cases h
      exact .same rfl rfl rfl rfl
    split at h
    · rename_i hc
      cases h
      exact .connect hi hc
    · cases h
  | send i g now ok re =>
    dsimp only at h
    split at h
    · cases h
    rename_i hi
    split at h
    · cases h
      exact .same rfl rfl rfl rfl
    rename_i hg
    obtain rfl := not_not.mp hg
    split at h
    · cases h
    rename_i hcon
    split at h
    · cases h
      exact .same rfl rfl rfl rfl
    · rename_i hok
      obtain rfl := Bool.not_eq_true _ ▸ hok
      cases h
      exact .broken ⟨rfl, hi⟩ (by simpa using hcon) fun _ => Drops.send
  | recv i g now r re =>
    dsimp only at h
    split at h
    · cases h
    rename_i hi
    split at h
    · cases h
      exact .same rfl rfl rfl rfl
    rename_i hg
    obtain rfl := not_not.mp hg
    split at h
    · rename_i hh
      split at h
      · rename_i hcon
        unfold Worker.onRecv at h
        split at h
        · cases h
          exact .same rfl rfl rfl rfl
        · cases h
          exact .broken ⟨rfl, hi⟩ hcon fun _ => Drops.lost
        · cases h
          exact .broken ⟨rfl, hi⟩ hcon fun _ => Drops.eof
        · rename_i ht
          cases h
          exact .fed hi hcon hh (.plain ht)
        · rename_i ht
          cases h
          exact .fed hi hcon hh (.tls ht)
        · cases h
      · cases h
    · cases h

/-- The worker after one event, by the way it got there. -/
inductive Change (cfg : Config) (w : Worker) (e : Ev) : Worker → Prop
  /-- No connection is touched. -/
  | idle {w' : Worker} (hconns : w'.conns = w.conns) (hstats : w'.stats = w.stats)
      (hstarted : w'.started = w.started) (hopened : w'.opened = w.opened) : Change cfg w e w'
  /-- A timeout check that found nothing wrong. -/
  | noted {i now : Nat} {c : Conn} (hi : w.At e i c) :
      Change cfg w e { w with conns := w.conns.set i { c with idleSince := now } }
  /-- A connect succeeded. -/
  | connected {i now : Nat} {c : Conn} (c₀ : Conn) (hi : w.At e i c)
      (hc : c.connecting = true) (h₀ : c₀.streams = c.streams ∧ c₀.held = c.held ∧
        c₀.answered = c.answered ∧ c₀.connected = true ∧
        ∃ h2, c₀.h2 = some h2 ∧ h2.nextId = 1) :
      Change cfg w e
        { w with
          conns := w.conns.set i (fillStreams cfg w.stop now c₀ w.started).1
          started := (fillStreams cfg w.stop now c₀ w.started).2 }
  /-- A receive that the connection survived. -/
  | received {i g now : Nat} {c : Conn} {h2 : Connection} {r : Recv} {fed : Fed} {re : Bool}
      (he : e = .recv i g now r re) (hi : w.At e i c) (hg : g = c.generation)
      (hh : c.h2 = some h2) (hcon : c.connected = true) (hf : Feeds c h2 r fed)
      (hok : fed.ok = true) (href : fed.refused = false)
      (hopen : ((w.afterEvents cfg c fed).1.goaway &&
        (w.afterEvents cfg c fed).1.streams.isEmpty) = false) :
      Change cfg w e
        { w with
          conns := w.conns.set i
            (fillStreams cfg w.stop now (w.afterEvents cfg c fed).1 (w.afterEvents cfg c fed).2.2).1
          stats := (w.afterEvents cfg c fed).2.1
          started :=
            (fillStreams cfg w.stop now (w.afterEvents cfg c fed).1
              (w.afterEvents cfg c fed).2.2).2 }
  /-- A connect that did not work out: it costs the budget a request if there is one. -/
  | failed {i now : Nat} {c c₁ : Conn} {stats : Stats} {started : Nat} {re : Bool}
      (hi : w.At e i c) (hm : Moves c w.stats w.started c₁ stats started)
      (hpaid : c₁.answered = 0 → cfg.budget.mayStart started = true →
        w.stats.errors + c.owed < stats.errors + c₁.owed) :
      Change cfg w e (w.replace cfg i c₁ stats started now re)
  /-- A connection that got through its handshake, if it had one, was closed. -/
  | dropped {i now : Nat} {c c₁ : Conn} {h2 : Connection} {stats : Stats} {started : Nat}
      {re : Bool} (hi : w.At e i c) (hh : c.h2 = some h2)
      (hm : Moves c w.stats w.started c₁ stats started) (hd : Drops i c h2 e) :
      Change cfg w e (w.replace cfg i c₁ stats started now re)
  /-- A connection that owed an answer ran into the timeout. -/
  | wedged {i now : Nat} {c c₁ : Conn} {re : Bool} (hi : w.At e i c)
      (hm : Moves c w.stats w.started c₁ w.stats w.started) (ho : 0 < c₁.owed) :
      Change cfg w e (w.replace cfg i c₁ w.stats w.started now re)

/-- When a failed connect is charged and when it is not. -/
theorem failConnect_paid {stats stats' : Stats} {started started' : Nat} {budget : Budget}
    (h : failConnect stats started budget = (stats', started'))
    (hmay : budget.mayStart started' = true) : stats.errors < stats'.errors := by
  unfold failConnect at h
  split at h
  · simp only [Prod.mk.injEq] at h
    obtain ⟨rfl, rfl⟩ := h
    exact Nat.lt_succ_self _
  · rename_i hn
    obtain ⟨rfl, rfl⟩ := h
    exact absurd hmay hn

section Inversion

variable {cfg : Config} {w w' : Worker} {i now : Nat} {c : Conn} {re : Bool} {e : Ev}

/-- However a connection got to be lost, one more failed connect pays for it. -/
theorem failed_change {c₁ : Conn} {stats stats' : Stats} {started started' : Nat}
    (hi : w.At e i c) (hm : Moves c w.stats w.started c₁ stats started)
    (hf : failConnect stats started cfg.budget = (stats', started')) :
    Change cfg w e (w.replace cfg i c₁ stats' started' now re) := by
  refine Change.failed hi (hm.trans (failConnect_moves c₁ hf)) fun h0 hmay => ?_
  exact Nat.lt_of_le_of_lt (hm.charged h0) (Nat.add_lt_add_right (failConnect_paid hf hmay) _)

/-- A broken connection: charged as a connect while it was shaking hands, dropped otherwise. -/
theorem broken_change {c₁ : Conn} {h2 : Connection} {stats : Stats} {started : Nat}
    (hi : w.At e i c) (hh : c.h2 = some h2) (hm : Moves c w.stats w.started c₁ stats started)
    (hd : c₁.isHandshaking = false → Drops i c h2 e) :
    Change cfg w e (w.broken cfg i c₁ stats started now re) := by
  unfold Worker.broken
  cases hs : c₁.isHandshaking with
  | true =>
    rcases hf : failConnect stats started cfg.budget with ⟨stats', started'⟩
    exact failed_change hi hm hf
  | false => exact Change.dropped hi hh hm (hd hs)

theorem wedged_change (c₁ : Conn) (hi : w.At e i c)
    (hm : Moves c w.stats w.started c₁ w.stats w.started) :
    Change cfg w e
      (w.replace cfg i c₁
        (if c₁.streams.isEmpty && c₁.held = 0 then failConnect w.stats w.started cfg.budget
          else (w.stats, w.started)).1
        (if c₁.streams.isEmpty && c₁.held = 0 then failConnect w.stats w.started cfg.budget
          else (w.stats, w.started)).2 now re) := by
  split
  · rcases hf : failConnect w.stats w.started cfg.budget with ⟨stats', started'⟩
    exact failed_change hi hm hf
  · rename_i hn
    refine Change.wedged hi hm ?_
    simp only [Ring.isEmpty, Bool.and_eq_true, beq_iff_eq, decide_eq_true_eq] at hn
    simp only [Conn.owed, Ring.len]
    omega

theorem onCheck_change (hi : w.At e i c) (limit : Nat) :
    Change cfg w e (w.onCheck cfg i c limit now re) := by
  unfold Worker.onCheck Conn.timedOut
  cases hs : c.streams.slot 0 with
  | some oldest =>
    dsimp only
    split
    · exact Change.noted hi
    · exact wedged_change { c with idleSince := now } hi (Moves.of_eq rfl rfl)
  | none =>
    dsimp only
    split
    · refine Change.idle ?_ rfl rfl rfl
      obtain ⟨hlt, rfl⟩ := List.getElem?_eq_some_iff.mp hi.2
      exact List.set_getElem_self hlt
    · exact wedged_change c hi (Moves.of_eq rfl rfl)

theorem onConnect_change (hi : w.At e i c) (hcon : c.connecting = true)
    (ht : c.tls = none) (ok : Bool) : Change cfg w e (w.onConnect cfg i c now ok re) := by
  unfold Worker.onConnect
  cases ok with
  | false =>
    have hshake : c.isHandshaking = false := by simp [Conn.isHandshaking, ht]
    rcases hf : failConnect w.stats w.started cfg.budget with ⟨stats', started'⟩
    simp only [Bool.not_false, if_true, Worker.broken, hshake]
    exact failed_change hi (Moves.of_eq rfl rfl) hf
  | true =>
    exact Change.connected
      { c with
        connected := true
        tls := if cfg.tls then some { handshaking := true } else none
        h2 := some (if cfg.tls then Connection.new else Connection.new.initiate) }
      hi hcon ⟨rfl, rfl, rfl, rfl, _, rfl, by split <;> rfl⟩

theorem afterEvents_frame (cfg : Config) (w : Worker) (c : Conn) (fed : Fed) :
    (w.afterEvents cfg c fed).1.connected = c.connected ∧
      (w.afterEvents cfg c fed).1.h2 = some fed.h2 ∧ (w.afterEvents cfg c fed).1.tls = fed.tls ∧
      ((w.afterEvents cfg c fed).1.goaway = true ↔ c.goaway = true ∨ .goaway ∈ fed.events) :=
  processEvents_frame fed.events _ _ _

/-- Feeding a receive and processing its events, as one move. -/
theorem afterEvents_spec (cfg : Config) (w : Worker) (hc : c.Ok) (hcon : c.connected = true)
    (fed : Fed) :
    (w.afterEvents cfg c fed).1.Ok ∧
      Moves c w.stats w.started (w.afterEvents cfg c fed).1 (w.afterEvents cfg c fed).2.1
        (w.afterEvents cfg c fed).2.2 := by
  have hok : ({ c with h2 := some fed.h2, tls := fed.tls } : Conn).Ok :=
    ⟨hc.ring, hc.held, hc.idle, hcon.symm, fun h => absurd (hcon.symm.trans h) (by simp)⟩
  have hfed : ∀ (stats : Stats) (started : Nat),
      Moves c stats started { c with h2 := some fed.h2, tls := fed.tls } stats started :=
    fun _ _ => Moves.of_eq rfl rfl
  unfold Worker.afterEvents
  cases fed.refused with
  | true =>
    rcases hf : failConnect w.stats w.started cfg.budget with ⟨stats', started'⟩
    obtain ⟨h1, h2⟩ := processEvents_spec fed.events stats' started' hok hcon
    exact ⟨h1, (failConnect_moves c hf).trans ((hfed _ _).trans h2)⟩
  | false =>
    obtain ⟨h1, h2⟩ := processEvents_spec fed.events w.stats w.started hok hcon
    exact ⟨h1, (hfed _ _).trans h2⟩

/-- A handshake that ended without `h2` has been charged, if it could be. -/
theorem afterEvents_paid (hc : c.Ok) (hcon : c.connected = true) {fed : Fed}
    (href : fed.refused = true) (h0 : (w.afterEvents cfg c fed).1.answered = 0)
    (hmay : cfg.budget.mayStart (w.afterEvents cfg c fed).2.2 = true) :
    w.stats.errors + c.owed <
      (w.afterEvents cfg c fed).2.1.errors + (w.afterEvents cfg c fed).1.owed := by
  have hok : ({ c with h2 := some fed.h2, tls := fed.tls } : Conn).Ok :=
    ⟨hc.ring, hc.held, hc.idle, hcon.symm, fun h => absurd (hcon.symm.trans h) (by simp)⟩
  unfold Worker.afterEvents at h0 hmay ⊢
  rw [href] at h0 hmay ⊢
  rcases hf : failConnect w.stats w.started cfg.budget with ⟨stats', started'⟩
  rw [hf] at h0 hmay
  have hm := (processEvents_spec fed.events stats' started' hok hcon).2
  have h1 := failConnect_paid hf (Budget.mayStart_of_le (hm.started_le h0) hmay)
  have h2 := hm.charged h0
  exact Nat.lt_of_lt_of_le (Nat.add_lt_add_right h1 _) h2

theorem onFed_change {h2 : Connection} {r : Recv} {fed : Fed} (hget : w.conns[i]? = some c)
    (hc : c.Ok) (hcon : c.connected = true) (hh : c.h2 = some h2) (hf : Feeds c h2 r fed) :
    Change cfg w (.recv i c.generation now r re) (w.onFed cfg i c fed now re) := by
  have hi : w.At (.recv i c.generation now r re) i c := ⟨rfl, hget⟩
  obtain ⟨_, hm⟩ := afterEvents_spec cfg w hc hcon fed
  have hframe : ({ c with tls := fed.tls } : Conn).isHandshaking =
      (w.afterEvents cfg c fed).1.isHandshaking := by
    unfold Conn.isHandshaking
    rw [(afterEvents_frame cfg w c fed).2.2.1]
  have hgone : (w.afterEvents cfg c fed).1.goaway = true → c.goaway = true ∨ .goaway ∈ fed.events :=
    (afterEvents_frame cfg w c fed).2.2.2.mp
  have heq : w.onFed cfg i c fed now re =
      if !fed.ok || fed.refused || ((w.afterEvents cfg c fed).1.goaway &&
          (w.afterEvents cfg c fed).1.streams.isEmpty) then
        w.broken cfg i (w.afterEvents cfg c fed).1 (w.afterEvents cfg c fed).2.1
          (w.afterEvents cfg c fed).2.2 now re
      else
        { w with
          conns := w.conns.set i (fillStreams cfg w.stop now (w.afterEvents cfg c fed).1
            (w.afterEvents cfg c fed).2.2).1
          stats := (w.afterEvents cfg c fed).2.1
          started := (fillStreams cfg w.stop now (w.afterEvents cfg c fed).1
            (w.afterEvents cfg c fed).2.2).2 } := rfl
  rw [heq]
  cases href : fed.refused with
  | true =>
    simp only [Bool.or_true, Bool.true_or, if_true]
    unfold Worker.broken
    cases hs : (w.afterEvents cfg c fed).1.isHandshaking with
    | true =>
      rcases hfc : failConnect (w.afterEvents cfg c fed).2.1 (w.afterEvents cfg c fed).2.2
        cfg.budget with ⟨stats', started'⟩
      exact failed_change hi hm hfc
    | false => exact Change.failed hi hm (afterEvents_paid hc hcon href)
  | false =>
    cases hok : fed.ok with
    | false =>
      exact broken_change hi hh hm fun h => Drops.unreadable hf (hframe.trans h) hok
    | true =>
      cases hgo : (w.afterEvents cfg c fed).1.goaway &&
          (w.afterEvents cfg c fed).1.streams.isEmpty with
      | true =>
        refine broken_change hi hh hm fun h => Drops.goneAway hf (hframe.trans h) (hgone ?_)
        rw [Bool.and_eq_true] at hgo
        exact hgo.1
      | false => exact Change.received rfl hi rfl hh hcon hf hok href hgo

theorem step_change (hok : ∀ c ∈ w.conns, c.Ok) (h : w.step cfg e = some w') :
    Change cfg w e w' := by
  cases step_stepped h with
  | same hconns hstats hstarted hopened => exact Change.idle hconns hstats hstarted hopened
  | check hi => exact onCheck_change ⟨rfl, hi⟩ _
  | connect hi hc =>
    have hnot := hc
    simp only [Conn.connecting, Bool.and_eq_true, Bool.not_eq_true'] at hnot
    exact onConnect_change ⟨rfl, hi⟩ hc ((hok _ (List.mem_of_getElem? hi)).shape.2 hnot.2) _
  | broken hi hcon hd =>
    have hsome := (hok _ (List.mem_of_getElem? hi.2)).shape.1
    rw [hcon, Option.isSome_iff_exists] at hsome
    obtain ⟨h2, hh⟩ := hsome
    exact broken_change hi hh (Moves.of_eq rfl rfl) (hd h2)
  | fed hi hcon hh hf => exact onFed_change hi (hok _ (List.mem_of_getElem? hi)) hcon hh hf

end Inversion

/-! ## The invariant of the worker -/

/-- Every connection is well formed, and every started request is accounted for. -/
structure Worker.Inv (w : Worker) : Prop where
  conns : ∀ c ∈ w.conns, c.Ok
  balance : w.started = w.stats.finished + sumOf Conn.owed w.conns

namespace Worker.Inv

variable {cfg : Config} {w w' : Worker} {e : Ev}

theorem init (cfg : Config) (now : Nat) : (Worker.init cfg now).Inv := by
  have hok : ∀ c ∈ (Worker.init cfg now).conns, c.Ok ∧ c.owed = 0 := by
    intro c hc
    obtain ⟨i, _, rfl⟩ := List.mem_map.mp hc
    exact ⟨⟨Ring.new_ok, fun _ => rfl, fun _ => ⟨rfl, rfl⟩, rfl, fun _ => rfl⟩, rfl⟩
  refine ⟨fun c hc => (hok c hc).1, ?_⟩
  rw [sumOf_eq_zero Conn.owed fun c hc => (hok c hc).2]
  rfl

/-- A move of one connection keeps the books of the worker. -/
theorem moved (hw : w.Inv) {i : Nat} {c c' : Conn} {stats : Stats} {started : Nat}
    (hi : w.conns[i]? = some c) (hm : Moves c w.stats w.started c' stats started) :
    started = stats.finished + sumOf Conn.owed (w.conns.set i c') := by
  have hs := sumOf_set Conn.owed hi c'
  have hle : c.owed ≤ sumOf Conn.owed w.conns := le_sumOf Conn.owed (List.mem_of_getElem? hi)
  obtain ⟨rest, hrest⟩ : ∃ rest, sumOf Conn.owed w.conns = c.owed + rest :=
    Nat.exists_eq_add_of_le hle
  have hb := hm.balance rest (by rw [hw.balance, hrest]; omega)
  omega

/-- Closing a connection turns what it owed into errors. -/
theorem replaced (hw : w.Inv) (cfg : Config) {i : Nat} {c c₁ : Conn} {stats : Stats} {started : Nat}
    (hi : w.conns[i]? = some c) (hm : Moves c w.stats w.started c₁ stats started) (now : Nat)
    (re : Bool) : (w.replace cfg i c₁ stats started now re).Inv := by
  obtain ⟨c', ⟨hok, howed, _, _⟩, hconns, hstats, hstarted, _⟩ :=
    w.replace_cases cfg i c₁ stats started now re
  refine ⟨hconns ▸ forall_mem_set hw.conns hok, ?_⟩
  have hb := moved hw hi hm
  have h₁ := sumOf_set Conn.owed hi c₁
  have h' := sumOf_set Conn.owed hi c'
  rw [hconns, hstats, hstarted]
  simp only [Stats.finished, Stats.fail] at hb ⊢
  omega

theorem change (hw : w.Inv) (h : Change cfg w e w') : w'.Inv := by
  cases h with
  | idle hconns hstats hstarted _ =>
    exact ⟨by rw [hconns]; exact hw.conns, by rw [hconns, hstats, hstarted]; exact hw.balance⟩
  | noted hi =>
    have hc := hw.conns _ (List.mem_of_getElem? hi.2)
    exact ⟨forall_mem_set hw.conns ⟨hc.ring, hc.held, hc.idle, hc.shape⟩,
      moved hw hi.2 (Moves.of_eq rfl rfl)⟩
  | @connected i now c c₀ hi hcon h₀ =>
    obtain ⟨hs, hh, ha, hc, h2, hsome, _⟩ := h₀
    have hok₀ := (hw.conns _ (List.mem_of_getElem? hi.2)).reconnected hs hh ha hc hsome
    have hfill := fillStreams_spec cfg w.stop now hok₀ hc w.started
    refine ⟨forall_mem_set hw.conns hfill.ok, ?_⟩
    exact moved hw hi.2 ((Moves.of_eq (by simp only [Conn.owed, hs, hh]) ha).trans
      (hfill.moves w.stats))
  | @received i g now c h2 r fed re _ hi _ _ hcon _ _ _ _ =>
    obtain ⟨hok, hm⟩ := afterEvents_spec cfg w (hw.conns _ (List.mem_of_getElem? hi.2)) hcon fed
    have hcon' := (afterEvents_frame cfg w c fed).1.trans hcon
    have hfill := fillStreams_spec cfg w.stop now hok hcon' (w.afterEvents cfg c fed).2.2
    exact ⟨forall_mem_set hw.conns hfill.ok, moved hw hi.2 (hm.trans (hfill.moves _))⟩
  | failed hi hm _ | dropped hi _ hm _ | wedged hi hm _ => exact replaced hw cfg hi.2 hm _ _

theorem step (hw : w.Inv) (h : w.step cfg e = some w') : w'.Inv :=
  hw.change (step_change hw.conns h)

end Worker.Inv

/-! ## The budget

Events of a connection give requests back, failed connects and new streams take one each
while the budget covers it. -/

theorem processEvents_started_le (events : List Event) :
    ∀ (c : Conn) (stats : Stats) (started : Nat),
    (processEvents c stats started events).2.2 ≤ started := by
  induction events with
  | nil => exact fun _ _ _ => Nat.le_refl _
  | cons e events ih =>
    intro c stats started
    exact Nat.le_trans (ih _ _ _) (processEvent_handled c stats started e).started_le

theorem failConnect_covers (stats : Stats) {started : Nat} {b : Budget} (h : b.Covers started) :
    b.Covers (failConnect stats started b).2 := by
  unfold failConnect
  split
  · rename_i hmay
    exact Budget.covers_of_mayStart hmay
  · exact h

theorem startStreams_covers (cfg : Config) (now fuel : Nat) :
    ∀ (h2 : Connection) (streams : H2Ring InFlight) (started : Nat), cfg.budget.Covers started →
      cfg.budget.Covers (startStreams cfg now fuel h2 streams started).2.2 := by
  induction fuel with
  | zero => exact fun _ _ _ h => h
  | succ fuel ih =>
    intro h2 streams started h
    unfold startStreams
    split
    · rename_i hroom
      split
      · exact h
      · exact ih _ _ _ (Budget.covers_of_mayStart (Bool.and_eq_true_iff.mp hroom).2)
    · exact h

theorem fillStreams_covers (cfg : Config) (stop : Bool) (now : Nat) (c : Conn) {started : Nat}
    (h : cfg.budget.Covers started) : cfg.budget.Covers (fillStreams cfg stop now c started).2 := by
  unfold fillStreams
  repeat' split
  all_goals first | exact h | exact startStreams_covers cfg now _ _ _ _ h

namespace Worker

variable {cfg : Config} {w w' : Worker} {i now : Nat} {c : Conn} {re : Bool} {e : Ev}

theorem replace_started (w : Worker) (c : Conn) (stats : Stats) (started : Nat) :
    (w.replace cfg i c stats started now re).started = started := by
  obtain ⟨_, _, _, _, h, _⟩ := w.replace_cases cfg i c stats started now re
  exact h

theorem broken_covers (c : Conn) (stats : Stats) {started : Nat} (h : cfg.budget.Covers started) :
    cfg.budget.Covers (w.broken cfg i c stats started now re).started := by
  unfold broken
  rw [replace_started]
  split
  · exact failConnect_covers stats h
  · exact h

theorem onFed_covers (c : Conn) (fed : Fed) (h : cfg.budget.Covers w.started) :
    cfg.budget.Covers (w.onFed cfg i c fed now re).started := by
  have hafter : cfg.budget.Covers (w.afterEvents cfg c fed).2.2 := by
    unfold afterEvents
    split
    · exact (failConnect_covers w.stats h).mono (processEvents_started_le _ _ _ _)
    · exact h.mono (processEvents_started_le _ _ _ _)
  unfold onFed
  dsimp only
  split
  · exact broken_covers _ _ hafter
  · exact fillStreams_covers cfg w.stop now _ hafter

theorem onCheck_covers (c : Conn) (limit : Nat) (h : cfg.budget.Covers w.started) :
    cfg.budget.Covers (w.onCheck cfg i c limit now re).started := by
  unfold onCheck
  dsimp only
  split
  · exact h
  · rw [replace_started]
    split
    · exact failConnect_covers w.stats h
    · exact h

theorem onConnect_covers (c : Conn) (ok : Bool) (h : cfg.budget.Covers w.started) :
    cfg.budget.Covers (w.onConnect cfg i c now ok re).started := by
  unfold onConnect
  split
  · exact broken_covers c _ (failConnect_covers w.stats h)
  · exact fillStreams_covers cfg w.stop now _ h

theorem step_covers (h : cfg.budget.Covers w.started) (hs : w.step cfg e = some w') :
    cfg.budget.Covers w'.started := by
  cases step_stepped hs with
  | same _ _ hstarted _ => exact hstarted ▸ h
  | check => exact onCheck_covers _ _ h
  | connect => exact onConnect_covers _ _ h
  | broken => exact broken_covers _ w.stats h
  | fed => exact onFed_covers _ _ h

end Worker

end Shb.Http2
