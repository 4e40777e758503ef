import Shb.Http2.Ends

/-!
# The worker and its connection agree

The worker's ring and the connection's are written in different places: `fill_streams` pushes
an id to the one after `start_stream` has pushed it to the other, and `process_events` takes
from the one what the connection has already taken from its own. Between two events of the
worker both hold the same ids. Inside one they may differ, between `feed` and the last of
`process_events`.
-/

namespace Shb.Http2

open Lib

/-- Both rings hold the same ids, and expect the same one next. -/
structure Tandem (h2 : Connection) (streams : H2Ring InFlight) : Prop where
  tidy : h2.Tidy
  ring : streams.Ok
  expects : streams.Expects (h2.nextId / 2)
  same : ∀ id, (streams.get id).isSome = h2.has id

theorem tandem_new {streams : H2Ring InFlight} (h : streams.Ok) (hslots : streams.slots = []) :
    Tandem Connection.new streams where
  tidy := Connection.tidy_new
  ring := h
  expects := Or.inl hslots
  same id := by
    rw [Ring.get_of_slots_nil hslots, Connection.has, Ring.get_of_slots_nil rfl]
    rfl

/-! ## Taking -/

theorem Handled.streams {c : Conn} {stats : Stats} {started : Nat} {e : Event}
    {out : Conn × Stats × Nat} (h : Handled c stats started e out) :
    (∀ id, e.endedStream = some id → out.1.streams = (c.streams.take id).2) ∧
      (e.endedStream = none → out.1.streams = c.streams ∨
        ∃ id f, out.1.streams = c.streams.modify id f) := by
  cases h with
  | status id status => exact ⟨fun _ h => (nomatch h), fun _ => Or.inr ⟨id, _, rfl⟩⟩
  | goaway => exact ⟨fun _ h => (nomatch h), fun _ => Or.inl rfl⟩
  | unknown he | failed he =>
    refine ⟨fun j hj => ?_, fun h => nomatch h ▸ he⟩
    rw [he, Option.some.injEq] at hj
    rw [hj]
  | answered | returned | held =>
    refine ⟨fun j hj => ?_, fun h => (nomatch h)⟩
    cases hj
    rfl

/-- The ring of a worker that has processed some events: what they ended is gone from it. -/
structure Taken (streams streams' : H2Ring InFlight) (gone : List Nat) : Prop where
  ring : streams'.Ok
  expects : ∀ {n : Nat}, streams.Expects n → streams'.Expects n
  get : ∀ id, (streams'.get id).isSome = ((streams.get id).isSome && !gone.contains id)

theorem processEvent_taken {c : Conn} (h : c.streams.Ok) (stats : Stats) (started : Nat)
    (e : Event) : Taken c.streams (processEvent c stats started e).1.streams (ended [e]) := by
  obtain ⟨htake, hkeep⟩ := (processEvent_handled c stats started e).streams
  cases he : e.endedStream with
  | none =>
    have hended : ended [e] = [] := ended_eq_nil fun e' h' => List.mem_singleton.mp h' ▸ he
    rw [hended]
    rcases hkeep he with heq | ⟨id, f, heq⟩
    · rw [heq]
      exact ⟨h, fun hn => hn, fun id => by simp⟩
    · rw [heq]
      exact ⟨h.modify id f, fun hn => hn.modify id f, fun j => by simp [Ring.isSome_get_modify]⟩
  | some id =>
    have hended : ended [e] = [id] := by simp [ended, he]
    rw [htake id he, hended]
    refine ⟨h.take id, fun hn => hn.take id, fun j => ?_⟩
    by_cases hj : j = id
    · subst hj
      rw [Ring.get_take_self]
      simp
    · rw [Ring.get_take_of_ne _ hj]
      simp [hj]

theorem processEvents_taken (events : List Event) : ∀ {c : Conn} (stats : Stats) (started : Nat),
    c.streams.Ok →
      Taken c.streams (processEvents c stats started events).1.streams (ended events) := by
  induction events with
  | nil => exact fun _ _ h => ⟨h, fun hn => hn, fun id => by simp [ended, processEvents]⟩
  | cons e events ih =>
    intro c stats started h
    have hone := processEvent_taken h stats started e
    have hrest := ih (processEvent c stats started e).2.1 (processEvent c stats started e).2.2
      hone.ring
    refine ⟨hrest.ring, fun hn => hrest.expects (hone.expects hn), fun id => ?_⟩
    refine (hrest.get id).trans ?_
    rw [hone.get, show e :: events = [e] ++ events from rfl, ended_append, List.contains_append,
      Bool.not_or, Bool.and_assoc]

variable {h2 h2' : Connection}

/-- What the connection ended, `process_events` takes. -/
theorem Tandem.processed {c : Conn} {events : List Event} (h : Tandem h2 c.streams) (ht : h2'.Tidy)
    (hnext : h2'.nextId = h2.nextId) (hs : Connection.Settled h2 h2' events) (stats : Stats)
    (started : Nat) : Tandem h2' (processEvents c stats started events).1.streams := by
  have htaken := processEvents_taken events stats started h.ring
  refine ⟨ht, htaken.ring, htaken.expects (hnext ▸ h.expects), fun id => ?_⟩
  rw [htaken.get, h.same]
  have hcount := hs id
  cases hin : (ended events).contains id with
  | true =>
    have hpos := List.count_pos_iff.mpr (List.contains_iff_mem.mp hin)
    have hle := Bool.toNat_le (h2.has id)
    cases hopen : h2'.has id with
    | false => simp
    | true =>
      rw [hopen, Bool.toNat_true] at hcount
      omega
  | false =>
    have hzero : (ended events).count id = 0 := by
      refine List.count_eq_zero.mpr fun hmem => ?_
      exact absurd ((List.contains_iff_mem.mpr hmem).symm.trans hin) (by simp)
    rw [hzero, Nat.zero_add] at hcount
    cases hold : h2.has id <;> cases hnew : h2'.has id <;> simp [hold, hnew] at hcount ⊢

/-! ## Opening -/

theorem Tandem.keeps {streams : H2Ring InFlight} (h : Tandem h2 streams)
    (hk : Connection.Keeps h2 h2') : Tandem h2' streams where
  tidy := hk.tidy
  ring := h.ring
  expects := hk.nextId ▸ h.expects
  same id := (h.same id).trans (hk.has id).symm

theorem Tandem.opened {streams : H2Ring InFlight} {block body : Bytes} {id : Nat}
    (h : Tandem h2 streams) (hs : h2.startStream block body = (some id, h2')) (x : InFlight) :
    Tandem h2' (streams.push id x) := by
  obtain ⟨ht, rfl, hnext, hhas⟩ := Connection.startStream_has h.tidy hs
  obtain ⟨hmask, hshift, hnumber⟩ := h.tidy.number
  have hexp : streams.Expects (h2.nextId >>> 1) := hshift ▸ h.expects
  refine ⟨ht, h.ring.push _ x, ?_, fun id => ?_⟩
  · rw [hnext, hnumber, ← hshift]
    exact Ring.Expects.push h.ring hexp x
  · rw [Ring.get_push h.ring hmask hexp x id, hhas id]
    by_cases heq : id = h2.nextId
    · rw [if_pos heq, heq]
      simp
    · rw [if_neg heq, beq_eq_false_iff_ne.mpr heq]
      exact h.same id

theorem startStreams_tandem (cfg : Config) (now fuel : Nat) :
    ∀ {h2 : Connection} {streams : H2Ring InFlight} (started : Nat), Tandem h2 streams →
      Tandem (startStreams cfg now fuel h2 streams started).1
        (startStreams cfg now fuel h2 streams started).2.1 := by
  induction fuel with
  | zero => exact fun _ h => h
  | succ fuel ih =>
    intro h2 streams started h
    unfold startStreams
    split
    · split
      · rename_i hs
        rw [Connection.startStream_none hs]
        exact h
      · rename_i hs
        exact ih _ (h.opened hs _)
    · exact h

/-- A connection of the worker: nothing waits on one that does not exist. -/
structure Conn.Agrees (c : Conn) : Prop where
  idle : c.connected = false → c.streams.Ok ∧ c.streams.slots = []
  tandem : ∀ {h2 : Connection}, c.h2 = some h2 → Tandem h2 c.streams

theorem fillStreams_agrees (cfg : Config) (stop : Bool) (now : Nat) {c : Conn}
    (hcon : c.connected = true) (h : c.Agrees) (started : Nat) :
    (fillStreams cfg stop now c started).1.Agrees := by
  unfold fillStreams
  cases hh : c.h2 with
  | none => exact h
  | some h2 =>
    have hpumped := (h.tandem hh).keeps (Connection.pumpBodies_keeps (h.tandem hh).tidy cfg.body)
    have hidle : c.connected = false → ∀ {p : Prop}, p :=
      fun hc => absurd (hcon.symm.trans hc) (by simp)
    dsimp only
    split
    · exact h
    · split
      · exact ⟨fun hc => hidle hc, fun heq => Option.some.inj heq ▸ hpumped⟩
      · refine ⟨fun hc => hidle hc, fun heq => ?_⟩
        exact Option.some.inj heq ▸ startStreams_tandem cfg now cfg.parallel started hpumped

/-! ## Feeding -/

theorem feedAll_settled (segments : List Bytes) : ∀ {h2 : Connection} (events : List Event),
    h2.Tidy → ∃ new, (feedAll h2 segments events).2.2 = events ++ new ∧
      (feedAll h2 segments events).2.1.Tidy ∧
      (feedAll h2 segments events).2.1.nextId = h2.nextId ∧
      Connection.Settled h2 (feedAll h2 segments events).2.1 new := by
  induction segments with
  | nil =>
    exact fun events h => ⟨[], (List.append_nil _).symm, h, rfl,
      Connection.Settled.of_has rfl fun _ => rfl⟩
  | cons plain rest ih =>
    intro h2 events h
    obtain ⟨new, hnew, ht, hnext, hs⟩ := Connection.feed_settled h plain events
    unfold feedAll
    rcases hfeed : h2.feed plain events with ⟨r, h2₁, events₁⟩
    rw [hfeed] at hnew ht hnext hs
    obtain rfl : events₁ = events ++ new := hnew
    cases r with
    | error e => exact ⟨new, rfl, ht, hnext, hs⟩
    | ok _ =>
      obtain ⟨more, hmore, ht', hnext', hs'⟩ := ih (events ++ new) ht
      refine ⟨new ++ more, hmore.trans (List.append_assoc _ _ _), ht', hnext'.trans hnext,
        fun id => ?_⟩
      rw [ended_append, List.count_append, Nat.add_assoc, hs' id]
      exact hs id

/-- Whatever a receive made of the connection, its events end exactly what it closed. -/
theorem Feeds.settled {c : Conn} {r : Recv} {fed : Fed} (hf : Feeds c h2 r fed) (h : h2.Tidy) :
    fed.h2.Tidy ∧ fed.h2.nextId = h2.nextId ∧
      Connection.Settled h2 fed.h2 fed.events := by
  cases hf with
  | @plain bytes _ =>
    obtain ⟨new, hnew, ht, hnext, hs⟩ := Connection.feed_settled h bytes []
    obtain rfl : (h2.feed bytes []).2.2 = new := hnew
    exact ⟨ht, hnext, hs⟩
  | @tls tls read _ =>
    obtain ⟨new, hnew, ht, hnext, hs⟩ := feedAll_settled read.plain [] h
    obtain rfl : (feedAll h2 read.plain []).2.2 = new := hnew
    have hk : Connection.Keeps (feedAll h2 read.plain []).2.1 (feedTls h2 tls read).h2 := by
      unfold feedTls
      dsimp only
      split
      · exact Connection.Keeps.of_eq ht rfl rfl
      · exact Connection.Keeps.refl ht
    refine ⟨hk.tidy, hk.nextId.trans hnext, fun id => ?_⟩
    rw [hk.has]
    exact hs id

theorem afterEvents_tandem (cfg : Config) (w : Worker) {c : Conn} {r : Recv} {fed : Fed}
    (h : Tandem h2 c.streams) (hf : Feeds c h2 r fed) :
    Tandem fed.h2 (w.afterEvents cfg c fed).1.streams := by
  obtain ⟨ht, hnext, hs⟩ := hf.settled h.tidy
  exact Tandem.processed (c := { c with h2 := some fed.h2, tls := fed.tls }) h ht hnext hs _ _

/-! ## Every event of the worker -/

namespace Worker

variable {cfg : Config} {w w' : Worker} {i now : Nat} {c : Conn} {re : Bool} {e : Ev}

def Agrees (w : Worker) : Prop := ∀ c ∈ w.conns, c.Agrees

section

variable (h : w.Agrees)
include h

theorem Agrees.set (hc : c.Agrees) (hconns : w'.conns = w.conns.set i c) : w'.Agrees := by
  intro c' hin
  rw [hconns] at hin
  rcases List.mem_or_eq_of_mem_set hin with hold | rfl
  · exact h c' hold
  · exact hc

theorem Agrees.replace (c : Conn) (stats : Stats) (started : Nat) :
    (w.replace cfg i c stats started now re).Agrees := by
  obtain ⟨c', ⟨hok, howed, _, hnone⟩, hconns, _⟩ := w.replace_cases cfg i c stats started now re
  refine h.set ⟨fun _ => ?_, fun heq => absurd (hnone.symm.trans heq) (by simp)⟩ hconns
  exact ⟨hok.ring, hok.ring.slots_eq_nil (Nat.eq_zero_of_add_eq_zero_right howed)⟩

theorem Agrees.broken (c : Conn) (stats : Stats) (started : Nat) :
    (w.broken cfg i c stats started now re).Agrees := by
  exact h.replace c _ _

theorem Agrees.onCheck (hc : c.Agrees) (limit : Nat) : (w.onCheck cfg i c limit now re).Agrees := by
  have hsame : (c.timedOut now limit (cfg.budget.mayStart w.started)).2.Agrees := by
    unfold Conn.timedOut
    split
    · exact ⟨hc.idle, hc.tandem⟩
    · exact hc
  unfold Worker.onCheck
  dsimp only
  split
  · exact h.set hsame rfl
  · exact h.replace _ _ _

theorem Agrees.onConnect (hc : c.Agrees) (hcon : c.connecting = true) (ok : Bool) :
    (w.onConnect cfg i c now ok re).Agrees := by
  obtain ⟨hring, hslots⟩ : c.streams.Ok ∧ c.streams.slots = [] := by
    refine hc.idle ?_
    simpa using (Bool.and_eq_true_iff.mp hcon).2
  have hfirst : Tandem (if cfg.tls then Connection.new else Connection.new.initiate) c.streams := by
    split
    · exact tandem_new hring hslots
    · exact (tandem_new hring hslots).keeps (Connection.Keeps.of_eq Connection.tidy_new rfl rfl)
  unfold Worker.onConnect
  split
  · exact h.broken c _ _
  · refine h.set (fillStreams_agrees cfg w.stop now rfl ?_ _) rfl
    exact ⟨fun hcon => Bool.noConfusion hcon, fun heq => Option.some.inj heq ▸ hfirst⟩

theorem Agrees.onFed {h2 : Connection} {r : Recv} {fed : Fed} (hc : c.Agrees) (hh : c.h2 = some h2)
    (hcon : c.connected = true) (hf : Feeds c h2 r fed) : (w.onFed cfg i c fed now re).Agrees := by
  have htandem := afterEvents_tandem cfg w (hc.tandem hh) hf
  obtain ⟨hcon', hh', _⟩ := afterEvents_frame cfg w c fed
  unfold Worker.onFed
  dsimp only
  split
  · exact h.broken _ _ _
  · refine h.set (fillStreams_agrees cfg w.stop now (hcon'.trans hcon) ⟨?_, ?_⟩ _) rfl
    · exact fun hoff => absurd ((hcon'.trans hcon).symm.trans hoff) (by simp)
    · exact fun heq => Option.some.inj (hh'.symm.trans heq) ▸ htandem

theorem Agrees.step (hs : w.step cfg e = some w') : w'.Agrees := by
  have hget : ∀ {i : Nat} {c : Conn}, w.conns[i]? = some c → c.Agrees :=
    fun hi => h _ (List.mem_of_getElem? hi)
  cases step_stepped hs with
  | same hconns =>
    unfold Agrees
    exact hconns ▸ h
  | check hi => exact h.onCheck (hget hi) _
  | connect hi hc => exact h.onConnect (hget hi) hc _
  | broken => exact h.broken _ _ _
  | fed hi hcon hh hf => exact h.onFed (hget hi) hh hcon hf

end

theorem agrees_init (cfg : Config) (now : Nat) : (Worker.init cfg now).Agrees := by
  intro c hin
  obtain ⟨i, _, rfl⟩ := List.mem_map.mp hin
  exact ⟨fun _ => ⟨Ring.new_ok, rfl⟩, fun heq => nomatch heq⟩

end Worker

/-- **Streams end exactly once, and both sides agree on which are open.** Over any calls that
do not fail, an opened stream is open or has ended once, and no other stream has; a frame ends
the streams that leave the ring with it and none that was never opened or has ended. In every
run of the worker its ring holds the ids the connection holds, and it does as soon as the events
of a receive have been processed. -/
theorem streams_end_once {c : Connection} {log : List Event} {opened : List Nat}
    (h : c.Session log opened) {cfg : Config} {now : Nat} {es : List Ev} {w : Worker}
    (hw : run (Worker.step cfg) (Worker.init cfg now) es = some w) :
    (∀ id, (id ∈ opened → (ended log).count id = if c.has id then 0 else 1) ∧
        (id ∉ opened → c.has id = false ∧ (ended log).count id = 0)) ∧
      (∀ kind flags stream payload, ∃ c' new,
        (c.onFrame kind flags stream payload log).2 = (c', log ++ new) ∧
          (∀ id, (ended new).count id ≤ 1 ∧
            (id ∈ ended new ↔ c.has id = true ∧ c'.has id = false) ∧
            (id ∉ opened ∨ id ∈ ended log → id ∉ ended new)) ∧
          (kind ≠ FrameType.goaway → stream ∉ opened ∨ stream ∈ ended log → ended new = [])) ∧
      ∀ conn ∈ w.conns, ∀ h2, conn.h2 = some h2 →
        (∀ id, (conn.streams.get id).isSome = h2.has id) ∧
          ∀ r fed, Feeds conn h2 r fed → ∀ id,
            ((w.afterEvents cfg conn fed).1.streams.get id).isSome = fed.h2.has id := by
  have hbooks := h.books
  refine ⟨fun id => ?_, fun kind flags stream payload => ?_, fun conn hin h2 hh => ?_⟩
  · have hbal := hbooks.balance id
    refine ⟨fun hid => ?_, fun hid => ?_⟩
    · rw [if_pos hid] at hbal
      cases hhas : c.has id <;> simp [hhas] at hbal ⊢ <;> omega
    · rw [if_neg hid] at hbal
      exact ⟨hbooks.closed (Or.inl hid), Nat.eq_zero_of_add_eq_zero_right hbal⟩
  · obtain ⟨new, hnew, _, hs, hnone⟩ :=
      Connection.onFrame_settled hbooks.tidy kind flags stream payload log
    refine ⟨_, new, Prod.ext rfl hnew, fun id => ⟨?_, hs.mem_ended id, fun hid hmem => ?_⟩,
      fun hkind hid => hnone hkind (hbooks.closed hid)⟩
    · exact Nat.le_trans (Nat.le.intro (hs id)) (Bool.toNat_le _)
    · have hopen := ((hs.mem_ended id).mp hmem).1
      exact absurd (hopen.symm.trans (hbooks.closed hid)) (by simp)
  · have hagrees := run_invariant (fun hs hstep => Worker.Agrees.step hs hstep)
      (Worker.agrees_init cfg now) hw conn hin
    have htandem := hagrees.tandem hh
    exact ⟨htandem.same, fun r fed hf => (afterEvents_tandem cfg w htandem hf).same⟩

/-- An empty SETTINGS, and the `:status: 200` that ends stream 1. -/
def shortAnswer : Bytes :=
  [0, 0, 0, 4, 0, 0, 0, 0, 0] ++ [0, 0, 1, 1, 5, 0, 0, 0, 1, 0x88]

/-- A connection that has sent one request without a body. -/
def asked : Connection := (Connection.new.startStream [0x82, 0x86, 0x84] []).2

/-- The same, answered. -/
def answered : Connection := (asked.feed shortAnswer []).2.1

def oneShort : Config :=
  { tls := false, connections := 1, budget := .requests 2, timeout := none, parallel := 1
    parallel_pos := Nat.one_pos, headerBlock := [0x82, 0x86, 0x84], body := [] }

def answeredRun : List Ev := [.connect 0 0 0 true true, .recv 0 0 1 (.data shortAnswer) true]

def answeredEnd : Worker :=
  (run (Worker.step oneShort) (Worker.init oneShort 0) answeredRun).getD (Worker.init oneShort 0)

theorem streams_end_once_answered :
    answered.Session [.status 1 200, .finished 1] [1] ∧
      run (Worker.step oneShort) (Worker.init oneShort 0) answeredRun = some answeredEnd ∧
      (ended [.status 1 200, .finished 1]).count 1 = (if answered.has 1 then 0 else 1) := by
  have hstart : Connection.new.startStream [0x82, 0x86, 0x84] [] = (some 1, asked) := rfl
  have hfeed : asked.feed shortAnswer [] = (.ok (), answered, [.status 1 200, .finished 1]) := by
    decide +kernel
  have hsession : answered.Session [.status 1 200, .finished 1] [1] :=
    .feed hfeed (.opened hstart .new)
  have hrun : run (Worker.step oneShort) (Worker.init oneShort 0) answeredRun =
      some answeredEnd := by
    decide +kernel
  exact ⟨hsession, hrun, ((streams_end_once hsession hrun).1 1).1 (by decide)⟩

end Shb.Http2
