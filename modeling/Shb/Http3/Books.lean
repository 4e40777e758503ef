import Shb.Http3.Steps

/-!
# The books of an HTTP/3 worker

`Worker.Inv` is the sum over the connections of what `Conn.Tallied` says of each: what was
started is answered, an error, or owed, and the counts of the worker are those of the
connections it has and has had. Each event keeps it, by the cases of `Change`.

The bound on what is sent again is one of each connection, and the bound on the streams of a
whole run follows from it: a stream is opened for a request of the budget or for one that is
sent again.
-/

namespace Shb.Http3

open Lib

variable {cfg : Config} {c c' : Conn} {n n' : Counts}

/-! ## The worker -/

/-- A connection that was closed: it owes nothing. -/
structure Past.Ok (cfg : Config) (p : Past) : Prop where
  conn : p.conn.Ok cfg
  owed : p.conn.owed = 0

namespace Worker

/-- The books of a worker. -/
structure Inv (cfg : Config) (w : Worker) : Prop where
  conns : ∀ c ∈ w.conns, c.Ok cfg
  past : ∀ p ∈ w.past, p.Ok cfg
  balance : w.counts.started = w.counts.stats.finished + sumOf Conn.owed w.conns
  completed : w.counts.stats.completed = sumOf (·.giveBacks.completed) w.conns +
    sumOf (·.conn.giveBacks.completed) w.past
  errors : w.counts.stats.errors = sumOf Conn.errors w.conns + sumOf (·.conn.errors) w.past
  within : ∀ m, cfg.budget = .requests m → w.counts.started ≤ m

variable {w w' : Worker} {i now : Nat}

/-- Whether the loop goes on is not in the books. -/
theorem Inv.of_eq (h : w.Inv cfg) (hc : w'.conns = w.conns) (hn : w'.counts = w.counts)
    (hp : w'.past = w.past) : w'.Inv cfg := by
  refine ⟨hc ▸ h.conns, hp ▸ h.past, ?_, ?_, ?_, hn ▸ h.within⟩
  · rw [hn, hc]
    exact h.balance
  · rw [hn, hc, hp]
    exact h.completed
  · rw [hn, hc, hp]
    exact h.errors

theorem Inv.set (h : w.Inv cfg) (hi : w.conns[i]? = some c) (hc : c'.Ok cfg)
    (hm : Moves cfg c 0 w.counts c' 0 n') : (w.set i c' n').Inv cfg := by
  have hset := fun f => sumOf_set f hi c'
  refine ⟨forall_mem_set h.conns hc, h.past, ?_, ?_, ?_, fun m hb => hm.within m hb (h.within m hb)⟩
  · have howed := hset Conn.owed
    have hle := le_sumOf Conn.owed (List.mem_of_getElem? hi)
    have hb := hm.balance (sumOf Conn.owed w.conns - c.owed) (by rw [h.balance]; omega)
    show n'.started = n'.stats.finished + sumOf Conn.owed (w.conns.set i c')
    omega
  · have hsum := hset (·.giveBacks.completed)
    have hone := hm.completed
    have hall := h.completed
    show n'.stats.completed = sumOf (·.giveBacks.completed) (w.conns.set i c') +
      sumOf (·.conn.giveBacks.completed) w.past
    omega
  · have hsum := hset Conn.errors
    have hone := hm.errors
    have hall := h.errors
    show n'.stats.errors = sumOf Conn.errors (w.conns.set i c') + sumOf (·.conn.errors) w.past
    omega

theorem getElem?_set (hi : i < w.conns.length) (c : Conn) (n : Counts) :
    (w.set i c n).conns[i]? = some c := by
  simp [set, hi]

/-- A connection that owes nothing is closed and goes on record, and its slot is taken by
something that nothing is counted on. -/
theorem Inv.retire (h : (w.set i c n).Inv cfg) (hi : i < w.conns.length) (ho : c.owed = 0)
    (hc : c'.Ok cfg) (hb : c'.Blank) (replaced ended : Bool) :
    ({ w.set i c' n with
        past := w.past ++ [{ conn := c, replaced := replaced }], ended := ended } :
      Worker).Inv cfg := by
  have hget := getElem?_set hi c n
  have hset := fun f => sumOf_set f hget c'
  have hconns : (w.set i c n).conns.set i c' = (w.set i c' n).conns := List.set_set c
  rw [hconns] at hset
  refine ⟨fun d hd => ?_, fun p hp => ?_, ?_, ?_, ?_, h.within⟩
  · exact forall_mem_set h.conns hc d (hconns ▸ hd)
  · rcases List.mem_append.mp hp with hp | hp
    · exact h.past p hp
    · rw [List.mem_singleton.mp hp]
      exact ⟨h.conns c (List.mem_of_getElem? hget), ho⟩
  · have hsum := hset Conn.owed
    have hall := h.balance
    have := hb.owed
    show n.started = n.stats.finished + sumOf Conn.owed (w.set i c' n).conns
    have hall' : n.started = n.stats.finished + sumOf Conn.owed (w.set i c n).conns := hall
    omega
  · have hsum := hset (·.giveBacks.completed)
    have hall : n.stats.completed = sumOf (·.giveBacks.completed) (w.set i c n).conns +
      sumOf (·.conn.giveBacks.completed) w.past := h.completed
    have := hb.completed
    show n.stats.completed = sumOf (·.giveBacks.completed) (w.set i c' n).conns +
      sumOf (·.conn.giveBacks.completed) (w.past ++ [{ conn := c, replaced := replaced }])
    simp only [sumOf_append, sumOf_cons, sumOf_nil]
    omega
  · have hsum := hset Conn.errors
    have hall : n.stats.errors = sumOf Conn.errors (w.set i c n).conns +
      sumOf (·.conn.errors) w.past := h.errors
    have := hb.errors
    show n.stats.errors = sumOf Conn.errors (w.set i c' n).conns +
      sumOf (·.conn.errors) (w.past ++ [{ conn := c, replaced := replaced }])
    simp only [sumOf_append, sumOf_cons, sumOf_nil]
    omega

/-- Moving one connection on, whatever else happened to the loop. -/
theorem Inv.moved (h : w.Inv cfg) (hi : w.conns[i]? = some c) (hc : c'.Ok cfg)
    (hm : Moves cfg c 0 w.counts c' 0 w'.counts) (hconns : w'.conns = w.conns.set i c')
    (hpast : w'.past = w.past) : w'.Inv cfg :=
  (h.set hi hc hm).of_eq hconns rfl hpast

theorem Inv.retired {replaced : Bool} (h : (w.set i c n).Inv cfg) (hi : i < w.conns.length)
    (ho : c.owed = 0) (hr : Retires cfg w i c n c' replaced w') : w'.Inv cfg :=
  (h.retire hi ho hr.ok hr.blank replaced w'.ended).of_eq hr.conns hr.counts hr.past

theorem Inv.change {e : Ev} (h : w.Inv cfg) (hch : Change cfg w e w') : w'.Inv cfg := by
  cases hch with
  | idle hconns hcounts hpast => exact h.of_eq hconns hcounts hpast
  | kept hi hok hm _ _ _ hconns hpast => exact h.moved hi hok hm hconns hpast
  | @givenUp i now c c₁ n₁ hi hok hm hq _ _ _ _ hw =>
    obtain ⟨hok₂, hm₂, ho, _, _⟩ := settle_spec now hok hq n₁
    have hset := h.set hi hok₂ (hm.trans hm₂)
    rcases hw with ⟨_, hconns, hcounts, hpast⟩ | ⟨_, c', replaced, hr⟩
    · exact hset.of_eq hconns hcounts hpast
    · exact hset.retired (List.getElem?_eq_some_iff.mp hi).1 ho hr
  | expired hi hclosing hw =>
    have hc := h.conns _ (List.mem_of_getElem? hi)
    have hset := h.set hi hc (Moves.of_eq rfl rfl rfl)
    exact hset.retired (List.getElem?_eq_some_iff.mp hi).1 (hc.settled hclosing) hw

theorem step_inv (h : w.Inv cfg) {e : Ev} (hs : w.step cfg e = some w') : w'.Inv cfg :=
  h.change (step_change h.conns hs)

theorem init_inv (now : Nat) (sessions : Nat → Session) : (init cfg now sessions).Inv cfg := by
  have hconn : ∀ c ∈ (init cfg now sessions).conns, c.Ok cfg ∧ c.Blank := by
    intro c hc
    simp only [init, List.map_map, List.mem_map] at hc
    obtain ⟨i, _, rfl⟩ := hc
    simp only [Function.comp]
    split
    · exact Conn.vacant_new.connect_ok cfg now (sessions i)
    · exact Conn.vacant_new.self_ok cfg
  refine ⟨fun c hc => (hconn c hc).1, fun p hp => absurd hp List.not_mem_nil, ?_, ?_, ?_,
    fun _ _ => Nat.zero_le _⟩
  · rw [sumOf_eq_zero _ fun c hc => (hconn c hc).2.owed]
    rfl
  · rw [sumOf_eq_zero _ fun c hc => (hconn c hc).2.completed]
    rfl
  · rw [sumOf_eq_zero _ fun c hc => (hconn c hc).2.errors]
    rfl

theorem run_inv {sessions : Nat → Session} {es : List Ev}
    (h : run (step cfg) (init cfg now sessions) es = some w) : w.Inv cfg :=
  run_invariant (P := Inv cfg) (fun hw hs => step_inv hw hs) (init_inv now sessions) h

/-! ## Retries -/

/-- Every connection the worker has, and has had. -/
def connections (w : Worker) : List Conn := w.conns ++ w.past.map (·.conn)

namespace Inv

theorem connections_ok (h : w.Inv cfg) : ∀ c ∈ w.connections, c.Ok cfg := by
  intro c hc
  rcases List.mem_append.mp hc with hc | hc
  · exact h.conns c hc
  · obtain ⟨p, hp, rfl⟩ := List.mem_map.mp hc
    exact (h.past p hp).conn

theorem connections_errors (h : w.Inv cfg) :
    w.counts.stats.errors = sumOf Conn.errors w.connections := by
  rw [connections, sumOf_append, sumOf_map]
  exact h.errors

theorem connections_completed (h : w.Inv cfg) :
    w.counts.stats.completed = sumOf (·.giveBacks.completed) w.connections := by
  rw [connections, sumOf_append, sumOf_map]
  exact h.completed

theorem connections_owed (h : w.Inv cfg) :
    sumOf Conn.owed w.connections = sumOf Conn.owed w.conns := by
  rw [connections, sumOf_append, sumOf_map, sumOf_eq_zero _ fun p hp => (h.past p hp).owed]
  rfl

/-- A stream was opened for a request of the budget, or for one that is sent again. -/
theorem requests_le (h : w.Inv cfg) :
    sumOf Conn.requests w.connections ≤ w.counts.started * (1 + cfg.parallel) := by
  have heach : ∀ c ∈ w.connections, c.requests ≤
      (1 + cfg.parallel) * (c.giveBacks.completed + (c.errors + c.owed)) := by
    intro c hc
    have ht := (h.connections_ok c hc).tallied
    have hbound := ht.bound
    have hbal := ht.balance
    have hle := Nat.le_mul_of_pos_left (c.errors + c.owed)
      (Nat.add_pos_left Nat.one_pos cfg.parallel)
    rw [Nat.mul_add, Nat.add_mul 1 cfg.parallel c.giveBacks.completed, Nat.one_mul]
    unfold Conn.errors at hle ⊢
    omega
  have htotal : sumOf (fun c => c.giveBacks.completed + (c.errors + c.owed)) w.connections =
      w.counts.started := by
    rw [sumOf_add, sumOf_add, ← h.connections_completed, ← h.connections_errors, h.connections_owed,
      h.balance, Stats.finished]
    omega
  calc sumOf Conn.requests w.connections
      ≤ sumOf (fun c => (1 + cfg.parallel) * (c.giveBacks.completed + (c.errors + c.owed)))
          w.connections := sumOf_le_sumOf heach
    _ = (1 + cfg.parallel) * w.counts.started := by rw [sumOf_mul, htotal]
    _ = w.counts.started * (1 + cfg.parallel) := Nat.mul_comm _ _

end Inv

/-- A connection sends no more again than `parallel` for each of its answers, so the streams of
a run are bounded; and without an answer every give-back is an error once the connection has
drained or is over. -/
theorem retries_bounded {sessions : Nat → Session} {es : List Ev}
    (h : run (step cfg) (init cfg now sessions) es = some w) :
    (∀ c ∈ w.connections, c.giveBacks.retried ≤ cfg.parallel * c.giveBacks.completed) ∧
      (∀ m, cfg.budget = .requests m →
        sumOf Conn.requests w.connections ≤ m * (1 + cfg.parallel)) ∧
      (∀ c ∈ w.connections, c.giveBacks.completed = 0 →
        c.giveBacks.retried = 0 ∧ c.given = c.giveBacks.charged + c.giveBacks.unjudged ∧
          (c.streams.len = 0 ∨ c.closing.isSome = true → c.given = c.giveBacks.charged)) ∧
      (∀ p ∈ w.past, p.conn.giveBacks.completed = 0 →
        p.conn.given = p.conn.giveBacks.charged) ∧
      w.counts.stats.errors =
        sumOf (fun c => c.failed + c.giveBacks.charged + c.connectFailed) w.connections := by
  have hinv := run_inv h
  have hnone : ∀ c ∈ w.connections, c.giveBacks.completed = 0 →
      c.giveBacks.retried = 0 ∧ c.given = c.giveBacks.charged + c.giveBacks.unjudged := by
    intro c hc hzero
    have ht := (hinv.connections_ok c hc).tallied
    have hbound := ht.bound
    have hgiven := ht.given
    rw [hzero, Nat.mul_zero] at hbound
    omega
  refine ⟨fun c hc => (hinv.connections_ok c hc).tallied.bound, fun m hm => ?_,
    fun c hc hzero => ?_, fun p hp hzero => ?_, hinv.connections_errors⟩
  · exact Nat.le_trans hinv.requests_le (Nat.mul_le_mul_right _ (hinv.within m hm))
  · obtain ⟨hretried, hgiven⟩ := hnone c hc hzero
    have hok := hinv.connections_ok c hc
    refine ⟨hretried, hgiven, fun hover => ?_⟩
    have hunjudged : c.giveBacks.unjudged = 0 := by
      rcases hover with hlen | hclosing
      · exact hok.drained hlen
      · exact (Nat.add_eq_zero_iff.mp (hok.settled hclosing)).2
    omega
  · have hmem : p.conn ∈ w.connections := List.mem_append_right _ (List.mem_map_of_mem hp)
    have hgiven := (hnone p.conn hmem hzero).2
    have := (Nat.add_eq_zero_iff.mp (hinv.past p hp).owed).2
    omega

end Worker

/-! ## A server

One connection, one request at a time, and a server that lets the client open as many request
streams as it says. -/

def smallConfig (requests : Nat) : Config where
  connections := 1
  budget := .requests requests
  connectTimeout := 5000000000
  timeout := none
  parallel := 1
  fieldSection := []
  body := []
  gso := false

/-- The connection ids, 50 bytes on the connection, 40 on a stream, and three streams of our
own beside those for requests. -/
def peerParams (streams : UInt8) : Bytes :=
  [0, 8] ++ Quic.serverCid.bytes ++ [15, 8] ++ Quic.serverCid.bytes ++
    [4, 1, 50, 6, 1, 40, 7, 1, 40, 8, 1, streams, 9, 1, 3]

def smallSession (streams : UInt8) : Session where
  localCid := Quic.ourCid
  initialDcid := Quic.serverCid
  tls :=
    { writes := [{ data := [1, 2, 3] }, { data := [] }, { data := [], change := some .handshake },
        { data := [], change := some (.oneRtt (some (peerParams streams))) }, { data := [4] },
        { data := [] }] }
  once := Nat.le_refl 1

def serverHello : Quic.Datagram :=
  ⟨[.packet (Quic.serverPacket .initial (.initial Quic.serverCid) 0 (Quic.putCrypto 0 [9]))], none⟩

def oneRttDatagram (number : Nat) (payload : Bytes) : Quic.Datagram :=
  ⟨[.packet (Quic.serverPacket .data (.oneRtt 0) number payload)], none⟩

def smallInit (requests : Nat) (streams : UInt8) : Worker :=
  Worker.init (smallConfig requests) 0 fun _ => smallSession streams

/-- The server resets the first request with H3_REQUEST_REJECTED. -/
def rejectedRun : List Ev :=
  [ .recv 0 0 1 (.datagrams [serverHello]) none,
    .pass 0 1 none,
    .recv 0 0 2 (.datagrams [oneRttDatagram 0 [4, 0, 0x41, 0x0b, 0]]) none,
    .pass 0 2 none ]

def rejectedEnd : Worker :=
  (run (Worker.step (smallConfig 1)) (smallInit 1 2) rejectedRun).getD (smallInit 1 2)

/-- The one request was given back, and with nothing else in flight it is an error. -/
theorem retries_bounded_rejected :
    rejectedEnd.counts.stats.errors = 1 ∧
      (∀ c ∈ rejectedEnd.connections, c.given = 1 ∧ c.given = c.giveBacks.charged) ∧
      sumOf Conn.requests rejectedEnd.connections ≤ 1 * (1 + 1) := by
  have hrun : run (Worker.step (smallConfig 1)) (smallInit 1 2) rejectedRun = some rejectedEnd := by
    decide +kernel
  obtain ⟨_, hstreams, hgiven, _, _⟩ := Worker.retries_bounded hrun
  have hstate : ∀ c ∈ rejectedEnd.connections,
      c.given = 1 ∧ c.giveBacks.completed = 0 ∧ c.streams.len = 0 := by decide +kernel
  refine ⟨by decide +kernel, fun c hc => ?_, hstreams 1 rfl⟩
  obtain ⟨hone, hzero, hlen⟩ := hstate c hc
  exact ⟨hone, (hgiven c hc hzero).2.2 (Or.inl hlen)⟩

end Shb.Http3
