import Shb.Lib.Ledger
import Shb.Http2.Accounting

/-!
# What a reconnect costs

A slot whose connection is lost is given another one while the budget lasts. A server that
answers nothing must not be able to go on losing connections for nothing, so each connection
that is replaced without having completed a request should have cost an error. The ledger
beside the worker books completions and errors on the connection they are due to.

The charge falls where a connection carried a request (it is failed with the connection), and
where it never got to carry one because it did not connect, did not finish its handshake or
did not agree to `h2`. **One case is charged nowhere: a connection that got through its
handshake and is lost before a stream was opened on it.** `CarriesFirst` excludes it, and every
run without it pays for its reconnects.
-/

namespace Shb.Http2

open Lib

/-- A worker and its books. -/
structure Booked where
  worker : Worker
  ledger : Ledger
  deriving DecidableEq

namespace Booked

def init (cfg : Config) (now : Nat) : Booked :=
  ⟨Worker.init cfg now, Ledger.new cfg.connections⟩

/-- What an event changed, booked on the connection it was about. -/
def book (s : Booked) (e : Ev) (w : Worker) : Ledger :=
  match e.slot with
  | none => s.ledger
  | some i =>
    s.ledger.book i (w.stats.completed - s.worker.stats.completed)
      (w.stats.errors - s.worker.stats.errors) (s.worker.opened < w.opened)

def step (cfg : Config) (s : Booked) (e : Ev) : Option Booked :=
  match s.worker.step cfg e with
  | none => none
  | some w => some ⟨w, s.book e w⟩

end Booked

/-- No stream has been opened on the connection yet. -/
def Connection.unused (h2 : Connection) : Bool := h2.nextId == 1

/-- A connection past its handshake is not lost unused while there is budget to replace it. -/
def CarriesFirst (cfg : Config) (s : Booked) (e : Ev) : Prop :=
  ∀ i c h2, s.worker.conns[i]? = some c → c.h2 = some h2 → Drops i c h2 e →
    h2.unused = false ∨ cfg.budget.mayStart s.worker.started = false

/-! ## Streams and their ids -/

theorem nextId_pumpBodies (c : Connection) (body : Bytes) : (c.pumpBodies body).nextId = c.nextId :=
  Connection.pumpBodies_invariant (P := fun d => d.nextId = c.nextId) (fun _ _ _ h _ _ _ => h) rfl

/-- Ids are used up by opening streams and by nothing else. -/
theorem startStreams_nextId (cfg : Config) (now fuel : Nat) :
    ∀ {h2 h2' : Connection} {streams streams' : H2Ring InFlight} {started started' : Nat},
      streams.Ok → startStreams cfg now fuel h2 streams started = (h2', streams', started') →
      streams'.len = streams.len → h2'.nextId = h2.nextId := by
  induction fuel with
  | zero =>
    intro h2 h2' streams streams' started started' _ h _
    simp only [startStreams, Prod.mk.injEq] at h
    rw [h.1]
  | succ fuel ih =>
    intro h2 h2' streams streams' started started' hok h hlen
    unfold startStreams at h
    split at h
    · split at h
      · rename_i h2₁ heq
        simp only [Prod.mk.injEq] at h
        unfold Connection.startStream at heq
        split at heq
        · simp only [Prod.mk.injEq, true_and] at heq
          rw [← h.1, ← heq]
        · exact absurd heq (by simp)
      · have := (startStreams_spec cfg now fuel (hok.push _ _) h).2.1
        rw [Ring.len_push] at this
        omega
    · simp only [Prod.mk.injEq] at h
      rw [h.1]

/-- If filling used an id up, there is a stream for it. -/
theorem fillStreams_unused (cfg : Config) (stop : Bool) (now : Nat) {c : Conn} (hc : c.Ok)
    (started : Nat) {h2 h2' : Connection} (hh : c.h2 = some h2)
    (hh' : (fillStreams cfg stop now c started).1.h2 = some h2')
    (hlen : (fillStreams cfg stop now c started).1.streams.len = c.streams.len) :
    h2'.unused = h2.unused := by
  unfold fillStreams at hh' hlen
  rw [hh] at hh' hlen
  dsimp only at hh' hlen
  split at hh'
  · rw [hh, Option.some.injEq] at hh'
    rw [hh']
  · rename_i hs
    rw [if_neg hs] at hlen
    split at hh'
    · simp only [Option.some.injEq] at hh'
      rw [← hh', Connection.unused, nextId_pumpBodies]
      rfl
    · rename_i hstop
      rw [if_neg hstop] at hlen
      rcases heq : startStreams cfg now cfg.parallel (h2.pumpBodies cfg.body) c.streams started with
        ⟨h2₁, streams₁, started₁⟩
      rw [heq] at hh' hlen
      simp only [Option.some.injEq] at hh'
      have := startStreams_nextId cfg now cfg.parallel hc.ring heq hlen
      rw [Connection.unused, Connection.unused, ← hh', this, nextId_pumpBodies]

theorem nextId_feedAll (chunks : List Bytes) :
    ∀ (h2 : Connection) (events : List Event),
      (feedAll h2 chunks events).2.1.nextId = h2.nextId := by
  induction chunks with
  | nil => exact fun _ _ => rfl
  | cons plain chunks ih =>
    intro h2 events
    have hone := Connection.nextId_feed h2 plain events
    unfold feedAll
    split
    · rename_i heq
      rw [heq] at hone
      exact hone
    · rename_i heq
      rw [heq] at hone
      exact (ih _ _).trans hone

theorem Feeds.unused {c : Conn} {h2 : Connection} {r : Recv} {fed : Fed} (h : Feeds c h2 r fed) :
    fed.h2.unused = h2.unused := by
  cases h with
  | @plain bytes _ =>
    show ((h2.feed bytes []).2.1.nextId == 1) = (h2.nextId == 1)
    rw [Connection.nextId_feed]
  | @tls tls read _ =>
    have hall := nextId_feedAll read.plain h2 []
    unfold feedTls Connection.unused
    dsimp only
    split
    · rw [← hall]
      rfl
    · rw [hall]

/-! ## The books -/

/-- The entry of a slot covers its connection: its answers, and one request of it if it ever
had one. -/
structure Covered (c : Conn) (entry : Entry) : Prop where
  answered : c.answered ≤ entry.completed
  carried : ∀ h2, c.h2 = some h2 → h2.unused = false → c.answered = 0 → 1 ≤ entry.errors + c.owed

/-- Moving a connection, with what that changed booked on it, keeps it covered, if a request is
in flight on it once it has been used. -/
theorem Covered.move {c c' : Conn} {entry : Entry} {stats stats' : Stats} {started started' : Nat}
    (h : Covered c entry) (hm : Moves c stats started c' stats' started')
    (hused : ∀ h2', c'.h2 = some h2' → h2'.unused = false →
      0 < c'.owed ∨ ∃ h2, c.h2 = some h2 ∧ h2.unused = false) :
    Covered c' (entry.add (stats'.completed - stats.completed) (stats'.errors - stats.errors)) := by
  have hans := hm.answered
  have hle := hm.answered_le
  refine ⟨?_, fun h2' hh' hu' h0 => ?_⟩
  · have := h.answered
    simp only [Entry.add]
    omega
  · have hc0 : c.answered = 0 := by omega
    have hch := hm.charged h0
    simp only [Entry.add]
    rcases hused h2' hh' hu' with hpos | ⟨h2, hh, hu⟩
    · omega
    · have := h.carried h2 hh hu hc0
      omega

namespace Booked

structure Inv (cfg : Config) (s : Booked) : Prop where
  worker : s.worker.Inv
  total : s.worker.stats.finished = s.ledger.total
  opened : s.worker.opened ≤ cfg.connections + s.ledger.replaced.length
  paid : ∀ entry ∈ s.ledger.replaced, entry.Paid
  length : s.ledger.live.length = s.worker.conns.length
  covered : ∀ (i : Nat) c entry, s.worker.conns[i]? = some c → s.ledger.live[i]? = some entry →
    Covered c entry

theorem inv_init (cfg : Config) (now : Nat) : (init cfg now).Inv cfg where
  worker := Worker.Inv.init cfg now
  total := (Ledger.total_new _).symm
  opened := by
    refine Nat.le_trans List.countP_le_length ?_
    simp [init, Ledger.new]
  paid := nofun
  length := by simp [init, Ledger.new, Worker.init]
  covered := by
    intro i c entry hc he
    obtain ⟨j, _, rfl⟩ := List.mem_map.mp (List.mem_of_getElem? hc)
    exact ⟨Nat.zero_le _, fun h2 hh => absurd hh (by simp [Conn.new])⟩

variable {cfg : Config} {s : Booked} {w : Worker} {e : Ev} {i : Nat} {c c' : Conn}

theorem Inv.entry (hs : s.Inv cfg) (hi : s.worker.conns[i]? = some c) :
    ∃ entry, s.ledger.live[i]? = some entry := by
  have hlt : i < s.ledger.live.length := by
    rw [hs.length]
    exact (List.getElem?_eq_some_iff.mp hi).1
  exact ⟨_, List.getElem?_eq_getElem hlt⟩

/-- The slots of the books, after one of them has changed. -/
theorem covered_set {conns : List Conn} {live : List Entry} {entry : Entry}
    (h : ∀ (j : Nat) d en, conns[j]? = some d → live[j]? = some en → Covered d en)
    (hc : Covered c' entry) :
    ∀ (j : Nat) d en, (conns.set i c')[j]? = some d → (live.set i entry)[j]? = some en →
      Covered d en := by
  intro j d en hd hen
  by_cases hj : i = j
  · subst hj
    rw [eq_of_getElem?_set hd, eq_of_getElem?_set hen]
    exact hc
  · rw [List.getElem?_set_ne hj] at hd hen
    exact h j d en hd hen

theorem book_of_slot (hslot : e.slot = some i) :
    s.book e w = s.ledger.book i (w.stats.completed - s.worker.stats.completed)
      (w.stats.errors - s.worker.stats.errors) (s.worker.opened < w.opened) := by
  simp only [book, hslot]

/-- Whatever happens to the connection of one slot, the books stay right if its new entry
covers its new connection and a replacement is paid for. -/
theorem Inv.update (hs : s.Inv cfg) (hat : s.worker.At e i c) (hw : w.Inv)
    (hconns : w.conns = s.worker.conns.set i c')
    (hcompleted : s.worker.stats.completed ≤ w.stats.completed)
    (herrors : s.worker.stats.errors ≤ w.stats.errors) (hopened : w.opened = s.worker.opened ∧
        (∀ entry, s.ledger.live[i]? = some entry → Covered c entry → Covered c'
          (entry.add (w.stats.completed - s.worker.stats.completed)
            (w.stats.errors - s.worker.stats.errors))) ∨
      w.opened = s.worker.opened + 1 ∧ Covered c' Entry.zero ∧
        (∀ entry, s.ledger.live[i]? = some entry → Covered c entry →
          (entry.add (w.stats.completed - s.worker.stats.completed)
            (w.stats.errors - s.worker.stats.errors)).Paid)) : Inv cfg ⟨w, s.book e w⟩ := by
  obtain ⟨entry, hentry⟩ := hs.entry hat.2
  have hcov := hs.covered i c entry hat.2 hentry
  have htotal : w.stats.finished = (s.book e w).total := by
    rw [book_of_slot hat.1, Ledger.total_book hentry, ← hs.total]
    simp only [Stats.finished]
    omega
  have hlength : (s.book e w).live.length = w.conns.length := by
    rw [book_of_slot hat.1, Ledger.length_live_book, hconns, List.length_set, hs.length]
  rcases hopened with ⟨ho, hc⟩ | ⟨ho, hz, hp⟩
  · have hbook : s.book e w = ⟨s.ledger.live.set i
        (entry.add (w.stats.completed - s.worker.stats.completed)
          (w.stats.errors - s.worker.stats.errors)), s.ledger.replaced⟩ := by
      rw [book_of_slot hat.1, Ledger.book, hentry]
      simp [ho]
    refine ⟨hw, htotal, ?_, ?_, hlength, ?_⟩
    · rw [hbook, ho]
      exact hs.opened
    · rw [hbook]
      exact hs.paid
    · rw [hbook, hconns]
      exact covered_set hs.covered (hc entry hentry hcov)
  · have hbook : s.book e w = ⟨s.ledger.live.set i Entry.zero, s.ledger.replaced ++
        [entry.add (w.stats.completed - s.worker.stats.completed)
          (w.stats.errors - s.worker.stats.errors)]⟩ := by
      rw [book_of_slot hat.1, Ledger.book, hentry]
      simp [ho]
    refine ⟨hw, htotal, ?_, ?_, hlength, ?_⟩
    · have := hs.opened
      rw [hbook, ho, List.length_append, List.length_singleton]
      omega
    · rw [hbook]
      intro en hen
      rcases List.mem_append.mp hen with hen | hen
      · exact hs.paid en hen
      · rw [List.mem_singleton.mp hen]
        exact hp entry hentry hcov
    · rw [hbook, hconns]
      exact covered_set hs.covered hz

/-- A connection that stays in its slot. -/
theorem Inv.kept (hs : s.Inv cfg) (hat : s.worker.At e i c) (hw : w.Inv)
    (hconns : w.conns = s.worker.conns.set i c') (hopened : w.opened = s.worker.opened)
    (hm : Moves c s.worker.stats s.worker.started c' w.stats w.started)
    (hused : ∀ h2', c'.h2 = some h2' → h2'.unused = false →
      0 < c'.owed ∨ ∃ h2, c.h2 = some h2 ∧ h2.unused = false) : Inv cfg ⟨w, s.book e w⟩ := by
  have hans := hm.answered
  have hle := hm.answered_le
  exact hs.update hat hw hconns (by omega) hm.errors_le
    (Or.inl ⟨hopened, fun _ _ hc => hc.move hm hused⟩)

/-- Closing a slot, and opening another connection there only if the old one was paid for. -/
theorem Inv.replace (hs : s.Inv cfg) (hat : s.worker.At e i c) {c₁ : Conn} {stats : Stats}
    {started : Nat} (hm : Moves c s.worker.stats s.worker.started c₁ stats started) (now : Nat)
    (re : Bool)
    (hpaid : cfg.budget.mayStart started = true → c₁.answered = 0 → ∀ entry, Covered c entry →
      s.worker.stats.errors < entry.errors + stats.errors + c₁.owed) :
    Inv cfg ⟨s.worker.replace cfg i c₁ stats started now re,
      s.book e (s.worker.replace cfg i c₁ stats started now re)⟩ := by
  have hw := hs.worker.replaced cfg hat.2 hm now re
  obtain ⟨c', ⟨_, _, ha, hh⟩, hconns, hstats, _, hopened⟩ :=
    s.worker.replace_cases cfg i c₁ stats started now re
  have hcov : ∀ entry, Covered c' entry :=
    fun _ => ⟨ha ▸ Nat.zero_le _, fun h2 h => absurd (hh.symm.trans h) (by simp)⟩
  have hans := hm.answered
  have hle := hm.answered_le
  have herr := hm.errors_le
  refine hs.update hat hw hconns ?_ ?_ ?_
  · rw [hstats, Stats.completed_fail]
    omega
  · rw [hstats, Stats.errors_fail]
    omega
  · rcases hopened with ho | ⟨ho, hmay⟩
    · exact Or.inl ⟨ho, fun _ _ _ => hcov _⟩
    · refine Or.inr ⟨ho, hcov _, fun entry _ hentry h0 => ?_⟩
      -- No completion is booked on the connection, so it had answered nothing.
      have hbooked := hentry.answered
      simp only [Entry.add, hstats, Stats.completed_fail] at h0
      have := hpaid hmay (by omega) entry hentry
      simp only [Entry.add, hstats, Stats.errors_fail]
      omega

theorem Inv.change (hs : s.Inv cfg) (hcond : CarriesFirst cfg s e)
    (h : Change cfg s.worker e w) : Inv cfg ⟨w, s.book e w⟩ := by
  have hw := hs.worker.change h
  cases h with
  | idle hconns hstats hstarted hopened =>
    have hbook : s.book e w = s.ledger := by
      unfold book
      split
      · rfl
      · rw [hstats, hopened, Nat.sub_self, Nat.sub_self, decide_eq_false (Nat.lt_irrefl _)]
        exact Ledger.book_zero _ _
    rw [hbook]
    exact ⟨hw, hstats ▸ hs.total, hopened ▸ hs.opened, hs.paid, hconns ▸ hs.length,
      hconns ▸ hs.covered⟩
  | @noted i now c hi =>
    exact hs.kept hi hw rfl rfl (Moves.of_eq rfl rfl) fun h2' hh' hu' => Or.inr ⟨h2', hh', hu'⟩
  | @connected i now c c₀ hi hcon h₀ =>
    obtain ⟨hstreams, hheld, hans, hc, h2, hh, hnew⟩ := h₀
    have hok := hs.worker.conns _ (List.mem_of_getElem? hi.2)
    have hok₀ := hok.reconnected hstreams hheld hans hc hh
    have hfill := fillStreams_spec cfg s.worker.stop now hok₀ hc s.worker.started
    refine hs.kept hi hw rfl rfl ((Moves.of_eq (by simp only [Conn.owed, hstreams, hheld])
      hans).trans (hfill.moves s.worker.stats)) fun h2' hh' hu' => Or.inl ?_
    by_contra hzero
    have hlen : (fillStreams cfg s.worker.stop now c₀ s.worker.started).1.streams.len =
        c₀.streams.len := by
      have := hfill.len_le
      unfold Conn.owed at hzero
      omega
    have hunused := fillStreams_unused cfg s.worker.stop now hok₀ s.worker.started hh hh' hlen
    rw [hu', Connection.unused, hnew] at hunused
    exact absurd hunused (by simp)
  | @received i g now c h2 r fed re he hi hg hh hcon hf hok href hopen =>
    obtain ⟨hok', hm⟩ := afterEvents_spec cfg s.worker
      (hs.worker.conns _ (List.mem_of_getElem? hi.2)) hcon fed
    obtain ⟨hcon', hh₁, _, _⟩ := afterEvents_frame cfg s.worker c fed
    have hfill := fillStreams_spec cfg s.worker.stop now hok' (hcon'.trans hcon)
      (s.worker.afterEvents cfg c fed).2.2
    refine hs.kept hi hw rfl rfl (hm.trans (hfill.moves _)) fun h2' hh' hu' => ?_
    by_cases hlen : (fillStreams cfg s.worker.stop now (s.worker.afterEvents cfg c fed).1
        (s.worker.afterEvents cfg c fed).2.2).1.streams.len =
          (s.worker.afterEvents cfg c fed).1.streams.len
    · have hunused := fillStreams_unused cfg s.worker.stop now hok' _ hh₁ hh' hlen
      exact Or.inr ⟨h2, hh, by rw [← hf.unused, ← hunused, hu']⟩
    · have := hfill.len_le
      refine Or.inl ?_
      unfold Conn.owed
      omega
  | @failed i now c c₁ stats started re hi hm hpaid =>
    refine hs.replace hi hm now re fun hmay h0 entry _ => ?_
    have := hpaid h0 hmay
    omega
  | @dropped i now c c₁ h2 stats started re hi hh hm hd =>
    refine hs.replace hi hm now re fun hmay h0 entry hc => ?_
    have hch := hm.charged h0
    have hc0 : c.answered = 0 := by
      have := hm.answered_le
      omega
    rcases hcond i c h2 hi.2 hh hd with hu | hspent
    · have := hc.carried h2 hh hu hc0
      omega
    · have := Budget.mayStart_of_le (hm.started_le h0) hmay
      exact absurd (hspent.symm.trans this) (by simp)
  | @wedged i now c c₁ re hi hm ho =>
    refine hs.replace hi hm now re fun _ _ entry _ => ?_
    omega

theorem Inv.step {s' : Booked} (hs : s.Inv cfg) (hcond : CarriesFirst cfg s e)
    (h : s.step cfg e = some s') : s'.Inv cfg := by
  unfold Booked.step at h
  cases hw : s.worker.step cfg e with
  | none => rw [hw] at h; exact absurd h (by simp)
  | some w =>
    rw [hw, Option.some.injEq] at h
    exact h ▸ hs.change hcond (step_change hs.worker.conns hw)

/-- Every run in which no connection is lost unused pays for its reconnects. -/
theorem paid_of_carriesFirst {now : Nat} {es : List Ev}
    (hm : Meets (Booked.step cfg) (CarriesFirst cfg) (init cfg now) es)
    (h : run (Booked.step cfg) (init cfg now) es = some s) :
    (∀ entry ∈ s.ledger.replaced, entry.Paid) ∧
      s.worker.opened ≤ cfg.connections + s.worker.stats.finished := by
  have hinv := hm.invariant (fun hs hcond hstep => Inv.step hs hcond hstep) (inv_init cfg now) h
  refine ⟨hinv.paid, ?_⟩
  rw [hinv.total]
  exact Ledger.tenants_le hinv.opened hinv.paid

/-- One request over TLS, on one connection. -/
def oneSecure : Config :=
  { tls := true, connections := 1, budget := .requests 1, timeout := none, parallel := 1
    parallel_pos := Nat.one_pos, headerBlock := [0x82, 0x87, 0x84], body := [] }

/-- What a server sends along with its Finished: an empty SETTINGS, and a GOAWAY that names no
stream. -/
def goodbye : TlsRead :=
  { plain := [[0, 0, 0, 4, 0, 0, 0, 0, 0] ++
      [0, 0, 8, 7, 0, 0, 0, 0, 0, 0, 0, 0, 0, 0, 0, 0, 0]]
    failed := false, handshaking := false, alpnH2 := true }

def goodbyeRun : List Ev := [.connect 0 0 0 true true, .recv 0 0 1 (.ciphertext goodbye) true]

end Booked

end Shb.Http2
