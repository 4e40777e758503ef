import Shb.Lib.RunQueue
import Shb.Quic.Conn.Lookups

/-!
# The scheduling of request streams

`Board` is what a connection keeps about its request streams to schedule them: which are
there, with their flags, the queue of those with something to send, how many are unanswered
and which have been reported as finished. A stream that is settled leaves the ring; its id may
stay in the queue. `Exact` is the invariant, and the lemmas are the moves on the board that the
handlers are made of.

Events leave a connection when the worker polls them, so the board is that of a connection and
of the events polled so far.
-/

namespace Shb.Quic

open Lib

/-- The streams that events say have finished. -/
def finishedIds (events : List Event) : List Nat :=
  events.filterMap fun e =>
    match e with
    | .finished id _ => some id
    | _ => none

structure Board where
  /-- The request streams that are there, by id. -/
  pair : Nat → Option StreamPair
  ringEnd : Nat
  next : Nat
  queue : List Nat
  unanswered : Nat
  /-- How many that are there have not been marked finished. -/
  unfinished : Nat
  reported : List Nat

namespace Board

/-- What is kept about the streams besides the queue. -/
structure Tracked (b : Board) : Prop where
  ring : b.ringEnd = b.next
  live : ∀ {id p}, b.pair id = some p → id / 4 < b.next
  queued : ∀ id ∈ b.queue, id / 4 < b.next
  unanswered : b.unanswered = b.unfinished
  retired : ∀ {id p}, b.pair id = some p → p.retired = true → p.finished = true
  once : b.reported.Nodup
  done : ∀ id ∈ b.reported, id / 4 < b.next ∧ ∀ p, b.pair id = some p → p.finished = true

/-- The bookkeeping is exact, but for a stream that may be due its place in the queue. -/
structure Exact (due : Option Nat) (b : Board) : Prop extends Tracked b where
  scheduled : Scheduled StreamPair.queued (fun p => p.send.hasPending) due b.pair b.queue

variable {b : Board} {due : Option Nat} {id : Nat} {p r : StreamPair} {queue : List Nat}

/-- A stream changes, without being marked, and so does the queue. -/
theorem Tracked.change (h : b.Tracked) (hp : b.pair id = some p) (hf : r.finished = p.finished)
    (hr : r.retired = true → p.retired = true ∨ p.finished = true)
    (hqueue : ∀ id ∈ queue, id / 4 < b.next) :
    Tracked { b with pair := Function.update b.pair id (some r), queue := queue } where
  ring := h.ring
  live hq := by
    rcases Scheduled.of_update hq with ⟨rfl, -⟩ | ⟨-, hq⟩
    · exact h.live hp
    · exact h.live hq
  queued := hqueue
  unanswered := h.unanswered
  retired hq := by
    rcases Scheduled.of_update hq with ⟨rfl, heq⟩ | ⟨-, hq⟩
    · cases heq
      rw [hf]
      exact fun hret => (hr hret).elim (h.retired hp) id
    · exact h.retired hq
  once := h.once
  done id' hid' := by
    obtain ⟨hlt, hall⟩ := h.done id' hid'
    refine ⟨hlt, fun q hq => ?_⟩
    rcases Scheduled.of_update hq with ⟨rfl, heq⟩ | ⟨-, hq⟩
    · cases heq
      rw [hf]
      exact hall p hp
    · exact hall q hq

theorem Exact.owe (h : b.Exact none) (id : Nat) : b.Exact (some id) :=
  ⟨h.toTracked, h.scheduled.owe id⟩

theorem Exact.settled (h : b.Exact (some id))
    (hi : ∀ p, b.pair id = some p → p.send.hasPending = true → p.queued = true) : b.Exact none :=
  ⟨h.toTracked, h.scheduled.settled hi⟩

/-- A stream changes, not what is kept about it. -/
theorem Exact.change (h : b.Exact due) (hp : b.pair id = some p) (hq : r.queued = p.queued)
    (hf : r.finished = p.finished) (hr : r.retired = true → p.retired = true ∨ p.finished = true)
    (hw : r.send.hasPending = true → p.send.hasPending = true ∨ due = some id) :
    Exact due { b with pair := Function.update b.pair id (some r) } :=
  ⟨h.toTracked.change hp hf hr h.queued, h.scheduled.change hp hq hw⟩

theorem Exact.enqueue (h : b.Exact (some id)) (hp : b.pair id = some p) (hq : p.queued = false)
    (hq' : r.queued = true) (hf : r.finished = p.finished)
    (hr : r.retired = true → p.retired = true ∨ p.finished = true) :
    Exact none { b with
      pair := Function.update b.pair id (some r), queue := b.queue ++ [id] } := by
  refine ⟨h.toTracked.change hp hf hr fun id' hid' => ?_, h.scheduled.push hp hq hq'⟩
  rcases List.mem_append.mp hid' with hid' | hid'
  · exact h.queued id' hid'
  · rw [List.mem_singleton.mp hid']
    exact h.live hp

/-- The stream at the head of the queue gets its turn. -/
theorem Exact.dequeue (h : b.Exact none) (hqueue : b.queue = id :: queue) (hp : b.pair id = some p)
    (hq' : r.queued = false) (hf : r.finished = p.finished)
    (hr : r.retired = true → p.retired = true ∨ p.finished = true) :
    Exact (some id) { b with pair := Function.update b.pair id (some r), queue := queue } :=
  ⟨h.toTracked.change hp hf hr fun id' hid' => h.queued id' (hqueue ▸ List.mem_cons_of_mem id hid'),
   (hqueue ▸ h.scheduled).pop hp hq'⟩

theorem Exact.skip (h : b.Exact due) (hqueue : b.queue = id :: queue) (hp : b.pair id = none) :
    Exact due { b with queue := queue } :=
  ⟨{ h.toTracked with
      queued := fun id' hid' => h.queued id' (hqueue ▸ List.mem_cons_of_mem id hid') },
   (hqueue ▸ h.scheduled).skip hp⟩

theorem Exact.opened (h : b.Exact due) (hid : id / 4 = b.next) (hr : p.retired = false)
    (hq : p.queued = false) (hw : p.send.hasPending = false) :
    Exact due { b with
      pair := Function.update b.pair id (some p)
      ringEnd := b.ringEnd + 1
      next := b.next + 1
      unanswered := b.unanswered + 1
      unfinished := b.unfinished + 1 } where
  ring := congrArg (· + 1) h.ring
  live hq := by
    rcases Scheduled.of_update hq with ⟨rfl, -⟩ | ⟨-, hq⟩
    · exact Nat.lt_succ_of_le (Nat.le_of_eq hid)
    · exact Nat.lt_succ_of_lt (h.live hq)
  queued id' hid' := Nat.lt_succ_of_lt (h.queued id' hid')
  unanswered := congrArg (· + 1) h.unanswered
  retired hq' hret := by
    rcases Scheduled.of_update hq' with ⟨rfl, heq⟩ | ⟨-, hq'⟩
    · cases heq
      simp [hr] at hret
    · exact h.retired hq' hret
  once := h.once
  done id' hid' := by
    obtain ⟨hlt, hall⟩ := h.done id' hid'
    refine ⟨Nat.lt_succ_of_lt hlt, fun q hq' => ?_⟩
    rcases Scheduled.of_update hq' with ⟨rfl, -⟩ | ⟨-, hq'⟩
    · exact absurd hid (Nat.ne_of_lt hlt)
    · exact hall q hq'
  scheduled := h.scheduled.start (fun hmem => absurd hid (Nat.ne_of_lt (h.queued id hmem))) hq hw

theorem Exact.gone (h : b.Exact due) (id : Nat) :
    Exact due { b with pair := Function.update b.pair id none } where
  ring := h.ring
  live hq := by
    rcases Scheduled.of_update hq with ⟨-, heq⟩ | ⟨-, hq⟩
    · cases heq
    · exact h.live hq
  queued := h.queued
  unanswered := h.unanswered
  retired hq := by
    rcases Scheduled.of_update hq with ⟨-, heq⟩ | ⟨-, hq⟩
    · cases heq
    · exact h.retired hq
  once := h.once
  done id' hid' := by
    obtain ⟨hlt, hall⟩ := h.done id' hid'
    refine ⟨hlt, fun q hq => ?_⟩
    rcases Scheduled.of_update hq with ⟨-, heq⟩ | ⟨-, hq⟩
    · cases heq
    · exact hall q hq
  scheduled := h.scheduled.gone id

/-- A stream is marked finished for the first time, with or without a report. -/
theorem Exact.answered (h : b.Exact due) (hp : b.pair id = some p) (hpf : p.finished = false)
    (hf : r.finished = true) (hq : r.queued = p.queued)
    (hw : r.send.hasPending = true → p.send.hasPending = true ∨ due = some id) {report : List Nat}
    (hreport : report = [] ∨ report = [id]) :
    Exact due { b with
      pair := Function.update b.pair id (some r)
      unanswered := b.unanswered - 1
      unfinished := b.unfinished - 1
      reported := b.reported ++ report } where
  ring := h.ring
  live hq := by
    rcases Scheduled.of_update hq with ⟨rfl, -⟩ | ⟨-, hq⟩
    · exact h.live hp
    · exact h.live hq
  queued := h.queued
  unanswered := congrArg (· - 1) h.unanswered
  retired hq' hret := by
    rcases Scheduled.of_update hq' with ⟨rfl, heq⟩ | ⟨-, hq'⟩
    · cases heq
      exact hf
    · exact h.retired hq' hret
  once := by
    have hout : id ∉ b.reported := by
      intro hmem
      simp [(h.done id hmem).2 p hp] at hpf
    rcases hreport with rfl | rfl
    · rw [List.append_nil]
      exact h.once
    · exact List.nodup_append.mpr ⟨h.once, List.nodup_singleton id, fun a ha c hc => by
        rw [List.mem_singleton.mp hc]
        exact fun heq => hout (heq ▸ ha)⟩
  done id' hid' := by
    have hlt : id' / 4 < b.next ∧ (id' = id ∨ ∀ p, b.pair id' = some p → p.finished = true) := by
      rcases List.mem_append.mp hid' with hid' | hid'
      · exact ⟨(h.done id' hid').1, Or.inr (h.done id' hid').2⟩
      · rcases hreport with rfl | rfl
        · exact absurd hid' List.not_mem_nil
        · rw [List.mem_singleton.mp hid']
          exact ⟨h.live hp, Or.inl rfl⟩
    refine ⟨hlt.1, fun q hq' => ?_⟩
    rcases Scheduled.of_update hq' with ⟨-, heq⟩ | ⟨hne, hq'⟩
    · cases heq
      exact hf
    · exact (hlt.2.resolve_left hne) q hq'
  scheduled := h.scheduled.change hp hq hw

end Board

/-! ## The board of a connection -/

/-- How many of the streams in a ring are there and not marked finished. -/
def unfinishedIn (streams : List (Option StreamPair)) : Nat :=
  streams.countP fun o => o.any fun p => !p.finished

namespace Connection

def board (polled : List Event) (c : Connection) : Board where
  pair := c.half (fun p => p) []
  ringEnd := c.baseStream + c.streams.length
  next := c.nextBidi
  queue := c.sendQueue
  unanswered := c.unanswered
  unfinished := unfinishedIn c.streams
  reported := finishedIds (polled ++ c.events)

variable {polled : List Event} {c : Connection} {id i : Nat} {p : StreamPair}

theorem pair_of_pairAt (hi : c.streamIndex id = some i) (hp : c.pairAt i = some p) :
    (c.board polled).pair id = some p := by
  simp [board, half, hi, hp]

theorem pair_eq_none
    (h : c.streamIndex id = none ∨ ∃ i, c.streamIndex id = some i ∧ c.pairAt i = none) :
    (c.board polled).pair id = none := by
  rcases h with hi | ⟨i, hi, hp⟩
  · simp only [board, half, hi, findStream]
  · simp [board, half, hi, hp]

theorem getElem?_of_pairAt (hp : c.pairAt i = some p) : c.streams[i]? = some (some p) := by
  unfold pairAt at hp
  cases hs : c.streams[i]? with
  | none => simp [hs] at hp
  | some o =>
    rw [hs] at hp
    exact congrArg some hp

variable {f : StreamPair → StreamPair}

theorem unfinishedIn_modify {l : List (Option StreamPair)} (h : l[i]? = some (some p)) :
    unfinishedIn (l.modify i (Option.map f)) =
      unfinishedIn l - (if p.finished then 0 else 1) + if (f p).finished then 0 else 1 := by
  have hlt : i < l.length := (List.getElem?_eq_some_iff.mp h).1
  have hget : l[i] = some p := (List.getElem?_eq_some_iff.mp h).2
  have hset : l.modify i (Option.map f) = l.set i (some (f p)) := by
    rw [List.modify_eq_set_getElem?, h]
    rfl
  unfold unfinishedIn
  rw [hset, List.countP_set hlt, hget]
  cases hpf : p.finished <;> cases hff : (f p).finished <;> simp [hpf, hff]

theorem unfinishedIn_pos {l : List (Option StreamPair)} (h : l[i]? = some (some p))
    (hp : p.finished = false) : 0 < unfinishedIn l :=
  List.countP_pos_iff.mpr ⟨some p, List.mem_of_getElem? h, by simp [hp]⟩

theorem board_modifyPair (hi : c.streamIndex id = some i) (hp : c.pairAt i = some p)
    (f : StreamPair → StreamPair) :
    (c.modifyPair i f).board polled = { c.board polled with
      pair := Function.update (c.board polled).pair id (some (f p))
      unfinished := (c.board polled).unfinished - (if p.finished then 0 else 1) +
        if (f p).finished then 0 else 1 } := by
  have hpair := half_modifyPair hi hp f (fun p => p) []
  have hcount := unfinishedIn_modify (f := f) (getElem?_of_pairAt hp)
  have hlen : (c.modifyPair i f).streams.length = c.streams.length := by simp [modifyPair]
  simp only [board, hpair, hlen]
  rw [show (c.modifyPair i f).streams = c.streams.modify i (Option.map f) from rfl, hcount]
  rfl

theorem board_modifyPair_same (hi : c.streamIndex id = some i) (hp : c.pairAt i = some p)
    (hf : (f p).finished = p.finished) :
    (c.modifyPair i f).board polled = { c.board polled with
      pair := Function.update (c.board polled).pair id (some (f p)) } := by
  have hcount : (c.board polled).unfinished - (if p.finished then 0 else 1) +
      (if p.finished then 0 else 1) = (c.board polled).unfinished := by
    cases hpf : p.finished with
    | true => rfl
    | false => exact Nat.sub_add_cancel (unfinishedIn_pos (getElem?_of_pairAt hp) hpf)
  rw [board_modifyPair hi hp, hf, hcount]

/-- A slot that is marked finished for the first time. -/
theorem board_modifyPair_marked (hi : c.streamIndex id = some i) (hp : c.pairAt i = some p)
    (hpf : p.finished = false) (hf : (f p).finished = true) :
    (c.modifyPair i f).board polled = { c.board polled with
      pair := Function.update (c.board polled).pair id (some (f p))
      unfinished := (c.board polled).unfinished - 1 } := by
  rw [board_modifyPair hi hp, hpf, hf]
  rfl

theorem unfinishedIn_trimFront (l : List (Option StreamPair)) (base : Nat) :
    unfinishedIn (trimFront l base).1 = unfinishedIn l := by
  induction l generalizing base with
  | nil => rfl
  | cons o l ih =>
    cases o with
    | some p => rfl
    | none =>
      rw [trimFront, ih]
      rfl

theorem board_settle (hi : c.streamIndex id = some i) (hp : c.pairAt i = some p)
    (hf : p.finished = true) (h : (p.retired && p.send.isSettled) = true) :
    (c.settle id).board polled = { c.board polled with
      pair := Function.update (c.board polled).pair id none } := by
  obtain ⟨streams, base, ht, hsettle, hlen, hring⟩ := settle_eq hi (by rw [hp]; exact h)
  obtain ⟨rfl, hlt⟩ := streamIndex_eq_some.mp hi
  have hpair := half_update (v := none) hring (fun p : StreamPair => p) (l := [])
    fun _ _ => List.not_mem_nil
  have hcount : unfinishedIn streams = unfinishedIn c.streams := by
    have htrim := unfinishedIn_trimFront (c.streams.set i none) c.baseStream
    rw [ht] at htrim
    have hget := (List.getElem?_eq_some_iff.mp (getElem?_of_pairAt hp)).2
    rw [htrim]
    unfold unfinishedIn
    rw [List.countP_set hlt, hget]
    simp [hf]
  rw [hsettle]
  simp [board, hpair, hcount, hlen]

theorem board_push {d : Connection} (hring : c.baseStream + c.streams.length = c.nextBidi)
    (hfin : p.finished = false) (hstreams : d.streams = c.streams ++ [some p])
    (hbase : d.baseStream = c.baseStream) (hnext : d.nextBidi = c.nextBidi + 1)
    (hunanswered : d.unanswered = c.unanswered + 1) (hqueue : d.sendQueue = c.sendQueue)
    (hevents : d.events = c.events) :
    d.board polled = { c.board polled with
      pair := Function.update (c.board polled).pair (4 * c.nextBidi) (some p)
      ringEnd := (c.board polled).ringEnd + 1
      next := (c.board polled).next + 1
      unanswered := (c.board polled).unanswered + 1
      unfinished := (c.board polled).unfinished + 1 } := by
  have hpair := half_update (ringAt_push hring p hstreams hbase) (fun p : StreamPair => p) (l := [])
    fun _ _ => List.not_mem_nil
  have hcount : unfinishedIn d.streams = unfinishedIn c.streams + 1 := by
    rw [hstreams]
    unfold unfinishedIn
    simp [hfin]
  have hlen : d.baseStream + d.streams.length = c.baseStream + c.streams.length + 1 := by
    rw [hstreams, hbase, List.length_append, List.length_singleton]
    omega
  simp [board, hpair, hcount, hlen, hnext, hunanswered, hqueue, hevents]

end Connection

end Shb.Quic
