import Shb.Inflight.Map
import Shb.Http2.Accounting
import Shb.Http2.Split

/-!
# Streams end exactly once

A connection keeps the streams it has opened in a ring, and the worker keeps the requests it is
waiting for in another. What ties them together are the events that end a stream: each move
of the connection emits one for exactly the ids it takes out of its ring,

`ended events + open after = open before`,

and `process_events` takes the same ids out of the worker's.
-/

namespace Shb.Http2

open Lib

/-- The streams the events end. -/
def ended (events : List Event) : List Nat := events.filterMap Event.endedStream

theorem ended_append (a b : List Event) : ended (a ++ b) = ended a ++ ended b :=
  List.filterMap_append

theorem ended_eq_nil {events : List Event} (h : ∀ e ∈ events, e.endedStream = none) :
    ended events = [] :=
  List.filterMap_eq_nil_iff.mpr h

namespace Connection

/-- The stream is open. -/
def has (c : Connection) (stream : Nat) : Bool := (c.opens.get stream).isSome

/-- What a connection keeps of its ring: ids are odd and come one after another, and every
stream is under its own. -/
structure Tidy (c : Connection) : Prop where
  ring : c.opens.Ok
  odd : c.nextId % 2 = 1
  expects : c.opens.Expects (c.nextId / 2)
  own : ∀ {stream : Nat} {s : OpenStream}, c.opens.get stream = some s → s.id = stream

theorem tidy_new : Connection.new.Tidy where
  ring := Ring.new_ok
  odd := rfl
  expects := Or.inl rfl
  own h := absurd ((Ring.get_of_slots_nil rfl _).symm.trans h) (by simp)

variable {c c' : Connection} {events log : List Event} {stream id : Nat} {block body : Bytes}

/-- The next id is not one of an open stream. -/
theorem Tidy.fresh (h : c.Tidy) : c.has c.nextId = false := by
  rw [has, Ring.get_eq_cell]
  split
  · rw [h.expects.cell_none (Nat.le_of_eq (Nat.shiftRight_eq_div_pow _ 1).symm)]
    rfl
  · rfl

/-- A write to the streams that leaves their ids alone. -/
theorem Tidy.written (h : c.Tidy) (hring : c'.opens.Ok) (hnext : c'.nextId = c.nextId)
    (hexp : c'.opens.Expects (c.nextId / 2))
    (hget : ∀ stream, ∃ f : OpenStream → OpenStream, (∀ s, (f s).id = s.id) ∧
      c'.opens.get stream = (c.opens.get stream).map f) :
    c'.Tidy ∧ ∀ stream, c'.has stream = c.has stream := by
  refine ⟨⟨hring, by rw [hnext]; exact h.odd, by rw [hnext]; exact hexp, fun {stream s} hs => ?_⟩,
    fun stream => ?_⟩
  · obtain ⟨f, hf, heq⟩ := hget stream
    rw [heq, Option.map_eq_some_iff] at hs
    obtain ⟨s₀, hs₀, rfl⟩ := hs
    exact (hf s₀).trans (h.own hs₀)
  · obtain ⟨f, _, heq⟩ := hget stream
    rw [has, heq, Option.isSome_map]
    rfl

/-! ## Moves -/

/-- What ends and what stays open are what was open. -/
def Settled (c c' : Connection) (events : List Event) : Prop :=
  ∀ stream, (ended events).count stream + (c'.has stream).toNat = (c.has stream).toNat

theorem Settled.of_has (he : ended events = []) (h : ∀ stream, c'.has stream = c.has stream) :
    Settled c c' events := by
  intro stream
  rw [he, h]
  exact Nat.zero_add _

theorem finish_settled (h : c.Tidy) {event : Event} (he : event.endedStream = some stream) :
    ({ c with opens := (c.opens.take stream).2 } : Connection).Tidy ∧
      Settled c { c with opens := (c.opens.take stream).2 }
        (if (c.opens.take stream).1.isSome then [event] else []) := by
  have hget : ∀ j, j ≠ stream → (c.opens.take stream).2.get j = c.opens.get j :=
    fun j hj => Ring.get_take_of_ne c.opens hj
  have hself : (c.opens.take stream).2.get stream = none := Ring.get_take_self c.opens stream
  refine ⟨⟨h.ring.take stream, h.odd, h.expects.take stream, fun {j s} hs => ?_⟩, fun j => ?_⟩
  · by_cases hj : j = stream
    · subst hj
      exact absurd (hself.symm.trans hs) (by simp)
    · exact h.own ((hget j hj).symm.trans hs)
  · have hended : ended (if (c.opens.take stream).1.isSome then [event] else []) =
        if c.has stream then [stream] else [] := by
      rw [Ring.take_fst]
      show ended (if c.has stream then [event] else []) = _
      cases c.has stream with
      | true => simp [ended, he]
      | false => rfl
    rw [hended]
    by_cases hj : j = stream
    · subst hj
      show _ + ((c.opens.take j).2.get j).isSome.toNat = _
      rw [hself]
      cases c.has j <;> simp
    · show _ + ((c.opens.take stream).2.get j).isSome.toNat = _
      rw [hget j hj, show List.count j (if c.has stream then [stream] else []) = 0 from
        List.count_eq_zero.mpr (by split <;> simp [hj]), Nat.zero_add]
      rfl

/-- The ids a GOAWAY retires are those of the streams beyond it. -/
theorem retired_ids (h : c.Tidy) (last : Nat) :
    (c.opens.retireAfter last).1.map OpenStream.id = (c.opens.entries.above last).map Prod.fst := by
  rw [(Ring.retireAfter_entries h.ring last).1, Entries.values, List.map_map]
  refine List.map_congr_left fun e he => ?_
  have hmem : (e.1, e.2) ∈ c.opens.entries := (List.mem_filter.mp he).1
  exact h.own ((Ring.mem_entries (by decide) c.opens).mp hmem)

theorem goaway_settled (h : c.Tidy) (last : Nat) :
    ({ c with goaway := true, opens := (c.opens.retireAfter last).2 } : Connection).Tidy ∧
      Settled c { c with goaway := true, opens := (c.opens.retireAfter last).2 }
        ((c.opens.retireAfter last).1.map (fun s => .unprocessed s.id) ++ [.goaway]) := by
  have hget := Ring.get_retireAfter h.ring last
  refine ⟨⟨(Ring.retireAfter_spec h.ring last).1, h.odd, h.expects.retireAfter last,
    fun {j s} hs => ?_⟩, fun j => ?_⟩
  · rw [hget j] at hs
    split at hs
    · exact h.own hs
    · exact absurd hs (by simp)
  · have hended : ended ((c.opens.retireAfter last).1.map (fun s => Event.unprocessed s.id) ++
        [.goaway]) = (c.opens.entries.above last).map Prod.fst := by
      rw [ended_append, ← retired_ids h last]
      simp [ended, Event.endedStream, List.filterMap_map, Function.comp_def]
    have hnodup : ((c.opens.entries.above last).map Prod.fst).Nodup :=
      List.pairwise_map.mpr
        (((Ring.ascending_entries c.opens).filter _).imp fun hab => Nat.ne_of_lt hab)
    have hmem : j ∈ (c.opens.entries.above last).map Prod.fst ↔ last < j ∧ c.has j = true := by
      rw [List.mem_map]
      constructor
      · rintro ⟨e, he, hej⟩
        obtain ⟨he, hlt⟩ := List.mem_filter.mp he
        have hsome := (Ring.mem_entries (x := e.2) (by decide) c.opens).mp he
        subst hej
        exact ⟨by simpa using hlt, by rw [has, hsome]; rfl⟩
      · rintro ⟨hlt, hhas⟩
        obtain ⟨s, hs⟩ := Option.isSome_iff_exists.mp hhas
        exact ⟨(j, s), List.mem_filter.mpr ⟨(Ring.mem_entries (by decide) c.opens).mpr hs,
          by simpa using hlt⟩, rfl⟩
    rw [hended, hnodup.count, has, hget j]
    by_cases hlast : j ≤ last
    · have hout := fun hin => Nat.not_lt.mpr hlast (hmem.mp hin).1
      rw [if_pos hlast, if_neg hout, Nat.zero_add]
      rfl
    · rw [if_neg hlast]
      cases hhas : c.has j with
      | true =>
        rw [if_pos (hmem.mpr ⟨Nat.not_le.mp hlast, hhas⟩)]
        rfl
      | false =>
        rw [if_neg fun hin => absurd ((hmem.mp hin).2.symm.trans hhas) (by simp)]
        rfl

/-- Every move keeps the ring in order and ends exactly what leaves it. -/
theorem move_settled {sent : List Wire} (h : c.Tidy) (hm : Move c events sent c') :
    c'.Tidy ∧ Settled c c' events := by
  cases hm with
  | quiet hq =>
    refine ⟨⟨hq.opens ▸ h.ring, hq.nextId ▸ h.odd, ?_, ?_⟩, .of_has (ended_eq_nil hq.events) ?_⟩
    · rw [hq.opens, hq.nextId]
      exact h.expects
    · rw [hq.opens]
      exact h.own
    · intro stream
      rw [has, hq.opens]
      rfl
  | finish he => exact finish_settled h he
  | goaway last => exact goaway_settled h last
  | initialWindow _ =>
    refine And.imp_right (Settled.of_has rfl)
      (h.written (h.ring.mapLive _) rfl (h.expects.mapLive _) fun stream => ?_)
    exact ⟨_, by exact fun _ => rfl, Ring.get_mapLive h.ring _ stream⟩
  | maxFrame _ | tableSize _ | credit _ =>
    exact ⟨⟨h.ring, h.odd, h.expects, h.own⟩, .of_has rfl fun _ => rfl⟩
  | streamCredit id n =>
    refine And.imp_right (Settled.of_has rfl)
      (h.written (h.ring.modify id _) rfl (h.expects.modify id _) fun stream => ?_)
    by_cases hs : stream = id
    · exact ⟨_, by exact fun _ => rfl, (Ring.get_modify ..).trans (if_pos hs)⟩
    · exact ⟨fun s => s, fun _ => rfl, by rw [Ring.get_modify, if_neg hs, Option.map_id']⟩

theorem moved_settled {sent : List Wire} (h : c.Tidy) (hm : Moved c events sent c') :
    c'.Tidy ∧ Settled c c' events := by
  induction hm with
  | refl => exact ⟨h, .of_has rfl fun _ => rfl⟩
  | snoc _ hmove ih =>
    obtain ⟨ht, hs⟩ := ih
    obtain ⟨ht', hs'⟩ := move_settled ht hmove
    refine ⟨ht', fun stream => ?_⟩
    rw [ended_append, List.count_append, Nat.add_assoc, hs' stream, hs stream]

theorem reaches_settled {r : Connection × List Event} (h : c.Tidy) (hr : Reaches c events r) :
    ∃ new, r.2 = events ++ new ∧ r.1.Tidy ∧ Settled c r.1 new := by
  obtain ⟨new, _, heq, hm⟩ := hr
  exact ⟨new, heq, moved_settled h hm⟩

/-! ## Reading and writing -/

/-- A write that neither opens nor ends a stream. -/
structure Keeps (c c' : Connection) : Prop where
  nextId : c'.nextId = c.nextId
  tidy : c'.Tidy
  has : ∀ stream, c'.has stream = c.has stream

theorem Keeps.refl (h : c.Tidy) : Keeps c c := ⟨rfl, h, fun _ => rfl⟩

theorem Keeps.trans {a b : Connection} (h : Keeps a b) (h' : Keeps b c) : Keeps a c :=
  ⟨h'.nextId.trans h.nextId, h'.tidy, fun stream => (h'.has stream).trans (h.has stream)⟩

theorem Keeps.of_eq (h : c.Tidy) (hnext : c'.nextId = c.nextId) (hopens : c'.opens = c.opens) :
    Keeps c c' := by
  refine ⟨hnext, ⟨hopens ▸ h.ring, hnext ▸ h.odd, ?_, ?_⟩, fun stream => ?_⟩
  · rw [hopens, hnext]
    exact h.expects
  · rw [hopens]
    exact h.own
  · rw [Connection.has, hopens]
    rfl

theorem feed_settled (h : c.Tidy) (data : Bytes) (events : List Event) :
    ∃ new, (c.feed data events).2.2 = events ++ new ∧ (c.feed data events).2.1.Tidy ∧
      (c.feed data events).2.1.nextId = c.nextId ∧ Settled c (c.feed data events).2.1 new := by
  obtain ⟨c', hr, heq⟩ := feed_reaches c data events
  have hstart : Keeps c { c with pending := [] } := Keeps.of_eq h rfl rfl
  obtain ⟨new, hnew, ht, hs⟩ := reaches_settled hstart.tidy hr
  have hend : Keeps c' (c.feed data events).2.1 :=
    Keeps.of_eq ht (by rw [heq]) (by rw [heq])
  refine ⟨new, hnew, hend.tidy, nextId_feed c data events, fun stream => ?_⟩
  rw [hend.has]
  exact hs stream

theorem sendSlice_keeps (h : c.Tidy) (pos : Nat) (s : OpenStream) (body : Bytes) :
    Keeps c (c.sendSlice pos s body) := by
  obtain ⟨ht, hhas⟩ : (c.sendSlice pos s body).Tidy ∧
      ∀ stream, (c.sendSlice pos s body).has stream = c.has stream := by
    refine h.written (h.ring.slotModify pos _) rfl (h.expects.slotModify pos _) fun stream => ?_
    by_cases hp : stream >>> 1 = c.opens.base + pos
    · exact ⟨_, by exact fun _ => rfl, (Ring.get_slotModify ..).trans (if_pos hp)⟩
    · refine ⟨fun s => s, fun _ => rfl, ?_⟩
      rw [Option.map_id']
      exact (Ring.get_slotModify ..).trans (if_neg hp)
  exact ⟨rfl, ht, hhas⟩

theorem writeBody_keeps (h : c.Tidy) (fuel pos : Nat) (body : Bytes) :
    Keeps c (writeBody fuel c pos body) :=
  writeBody_invariant (P := Keeps c)
    (fun _ s hk _ _ _ => hk.trans (sendSlice_keeps hk.tidy pos s body)) fuel (Keeps.refl h)

theorem pumpBodies_keeps (h : c.Tidy) (body : Bytes) : Keeps c (c.pumpBodies body) :=
  pumpBodies_invariant (P := Keeps c)
    (fun _ pos s hk _ _ _ => hk.trans (sendSlice_keeps hk.tidy pos s body)) (Keeps.refl h)

theorem nextId_le_of_canOpen (h : c.canOpen = true) : c.nextId ≤ maxStreamId := by
  unfold canOpen streamIdsExhausted at h
  simpa using (Bool.and_eq_true_iff.mp (Bool.and_eq_true_iff.mp h).1).2

/-- A number and its successor but one, halved. -/
theorem Tidy.number (h : c.Tidy) :
    c.nextId &&& Ring.mask 1 = 1 ∧ c.nextId >>> 1 = c.nextId / 2 ∧
      (c.nextId + 2) / 2 = c.nextId / 2 + 1 := by
  refine ⟨?_, Nat.shiftRight_eq_div_pow _ 1, Nat.add_div_right _ (by decide)⟩
  rw [show Ring.mask 1 = 2 ^ 1 - 1 from rfl, Nat.and_two_pow_sub_one_eq_mod]
  exact h.odd

theorem opening_has (h : c.Tidy) (hle : c.nextId ≤ maxStreamId) (block body : Bytes) :
    (c.opening block body).Tidy ∧ (c.opening block body).nextId = c.nextId + 2 ∧
      ∀ stream, (c.opening block body).has stream = (stream == c.nextId || c.has stream) := by
  obtain ⟨hmask, hshift, hnumber⟩ := h.number
  have hnext : (c.opening block body).nextId = c.nextId + 2 := by
    have hmax : maxStreamId = 2 ^ 31 - 1 := rfl
    rw [nextId_opening]
    exact Nat.min_eq_left (by omega)
  have hexp : c.opens.Expects (c.nextId >>> 1) := hshift ▸ h.expects
  have hget := Ring.get_push h.ring hmask hexp
    { id := c.nextId, sent := 0, window := (c.peerInitialWindow : Int) }
  refine ⟨⟨?_, ?_, ?_, fun {stream s} hs => ?_⟩, hnext, fun stream => ?_⟩
  · rw [opens_opening]
    exact h.ring.push _ _
  · rw [hnext, Nat.add_mod_right]
    exact h.odd
  · rw [hnext, hnumber, ← hshift, opens_opening]
    exact Ring.Expects.push h.ring hexp _
  · rw [opens_opening, hget] at hs
    split at hs
    · rename_i heq
      cases hs
      exact heq.symm
    · exact h.own hs
  · rw [Connection.has, opens_opening, hget]
    by_cases heq : stream = c.nextId
    · rw [if_pos heq, heq]
      simp
    · rw [if_neg heq, beq_eq_false_iff_ne.mpr heq]
      rfl

theorem startStream_has (h : c.Tidy) (hs : c.startStream block body = (some id, c')) :
    c'.Tidy ∧ id = c.nextId ∧ c'.nextId = c.nextId + 2 ∧
      ∀ stream, c'.has stream = (stream == id || c.has stream) := by
  cases hcan : c.canOpen with
  | false => rw [startStream_refused hcan] at hs; cases hs
  | true =>
    obtain ⟨ht, hnext, hhas⟩ := opening_has h (nextId_le_of_canOpen hcan) block body
    rw [startStream_opened hcan] at hs
    obtain ⟨rfl, rfl⟩ := hs
    split
    · exact ⟨ht, rfl, hnext, hhas⟩
    · have hk := writeBody_keeps ht body.length ((c.opening block body).opens.slotCount - 1) body
      exact ⟨hk.tidy, rfl, hk.nextId.trans hnext, fun stream => (hk.has stream).trans (hhas stream)⟩

theorem startStream_none (hs : c.startStream block body = (none, c')) : c' = c := by
  cases hcan : c.canOpen with
  | false =>
    rw [startStream_refused hcan] at hs
    cases hs
    rfl
  | true => rw [startStream_opened hcan] at hs; cases hs

/-! ## Which frames end a stream -/

/-- The events of a frame on a stream end that stream, or none. -/
def About (stream : Nat) (events : List Event) (r : Connection × List Event) : Prop :=
  ∃ new, r.2 = events ++ new ∧ ∀ id ∈ ended new, id = stream

variable (c)

theorem About.none : About stream events (c, events) :=
  ⟨[], (List.append_nil _).symm, nofun⟩

theorem finishStream_about {event : Event} (he : event.endedStream = some stream)
    (events : List Event) : About stream events (c.finishStream stream event events) := by
  unfold finishStream
  dsimp only
  split
  · refine ⟨[event], rfl, fun id hid => ?_⟩
    simpa [ended, he] using hid
  · exact About.none _

theorem onData_about (stream : Nat) (flags : UInt8) (payload : Bytes)
    (events : List Event) : About stream events (c.onData stream flags payload events) := by
  unfold onData
  split
  · exact finishStream_about _ rfl events
  · exact About.none _

theorem completeHeaders_about (stream : Nat) (endStream : Bool)
    (block : Bytes) (events : List Event) :
    About stream events (c.completeHeaders stream endStream block events).2 := by
  unfold completeHeaders
  cases findStatus block with
  | error e => exact About.none c
  | ok found =>
    -- what comes before the end of the stream ends nothing
    have hfinish : ∀ early, ended early = [] → About stream events
        (if endStream then
            (Except.ok (), c.finishStream stream (.finished stream) (events ++ early))
          else (Except.ok (), c, events ++ early) : Handled).2 := by
      intro early hearly
      split
      · have hend : (Event.finished stream).endedStream = some stream := rfl
        obtain ⟨new, hnew, hin⟩ := finishStream_about c hend (events ++ early)
        refine ⟨early ++ new, hnew.trans (List.append_assoc _ _ _), ?_⟩
        rw [ended_append, hearly]
        exact hin
      · refine ⟨early, rfl, ?_⟩
        rw [hearly]
        exact nofun
    cases found with
    | none => simpa using hfinish [] rfl
    | some status =>
      dsimp only
      cases isInformational status with
      | true => simpa using hfinish [] rfl
      | false => exact hfinish [.status stream status] rfl

theorem onFrame_about {kind : UInt8} (hkind : kind ≠ FrameType.goaway)
    (flags : UInt8) (stream : Nat) (payload : Bytes) (events : List Event) :
    About stream events (c.onFrame kind flags stream payload events).2 := by
  unfold onFrame
  split
  · exact About.none c
  split
  · exact onData_about c _ _ _ _
  split
  · unfold onHeaders
    repeat' split
    all_goals first | exact About.none _ | exact completeHeaders_about _ _ _ _ _
  split
  · unfold onContinuation
    repeat' split
    all_goals first | exact About.none _ | exact completeHeaders_about _ _ _ _ _
  split
  · exact About.none _
  split
  · exact About.none _
  split
  · exact About.none _
  split
  · unfold onRstStream
    split
    · exact About.none c
    · refine finishStream_about c ?_ events
      split <;> rfl
  · exact About.none c

variable {c}

/-- One frame ends exactly what leaves the ring, and only a GOAWAY reaches beyond its stream. -/
theorem onFrame_settled (h : c.Tidy) (kind flags : UInt8) (stream : Nat) (payload : Bytes)
    (events : List Event) :
    ∃ new, (c.onFrame kind flags stream payload events).2.2 = events ++ new ∧
      (c.onFrame kind flags stream payload events).2.1.Tidy ∧
      Settled c (c.onFrame kind flags stream payload events).2.1 new ∧
      (kind ≠ FrameType.goaway → c.has stream = false → ended new = []) := by
  obtain ⟨new, hnew, ht, hs⟩ :=
    reaches_settled h (onFrame_reaches c kind flags stream payload events)
  refine ⟨new, hnew, ht, hs, fun hkind hclosed => ?_⟩
  obtain ⟨new', hnew', habout⟩ := onFrame_about c hkind flags stream payload events
  obtain rfl : new = new' := List.append_cancel_left (hnew.symm.trans hnew')
  refine List.eq_nil_iff_forall_not_mem.mpr fun id hid => ?_
  obtain rfl : id = stream := habout id hid
  have hcount := hs id
  have hpos := List.count_pos_iff.mpr hid
  rw [hclosed, Bool.toNat_false] at hcount
  exact absurd (Nat.eq_zero_of_add_eq_zero_right hcount) (Nat.ne_of_gt hpos)

/-! ## Whole runs -/

/-- A connection, what it has emitted and the streams opened on it, after any calls of which
none failed. A frame comes as part of a receive, or alone as the loop of `run` hands it on. -/
inductive Session : Connection → List Event → List Nat → Prop
  | new : Session Connection.new [] []
  | initiate {c : Connection} {log : List Event} {opened : List Nat} :
      Session c log opened → Session c.initiate log opened
  | opened {c c' : Connection} {log : List Event} {opened : List Nat} {block body : Bytes}
      {id : Nat} (h : c.startStream block body = (some id, c')) :
      Session c log opened → Session c' log (opened ++ [id])
  | refused {c c' : Connection} {log : List Event} {opened : List Nat} {block body : Bytes}
      (h : c.startStream block body = (none, c')) : Session c log opened → Session c' log opened
  | pumpBodies {c : Connection} {log : List Event} {opened : List Nat} (body : Bytes) :
      Session c log opened → Session (c.pumpBodies body) log opened
  | takeOutput {c : Connection} {log : List Event} {opened : List Nat} :
      Session c log opened → Session c.takeOutput.2 log opened
  | frame {c c' : Connection} {log log' : List Event} {opened : List Nat} {kind flags : UInt8}
      {stream : Nat} {payload : Bytes}
      (h : c.onFrame kind flags stream payload log = (.ok (), c', log')) :
      Session c log opened → Session c' log' opened
  | feed {c c' : Connection} {log log' : List Event} {opened : List Nat} {data : Bytes}
      (h : c.feed data log = (.ok (), c', log')) : Session c log opened → Session c' log' opened

/-- Every stream opened is open, or has ended once; no other is, or has. -/
structure Books (c : Connection) (log : List Event) (opened : List Nat) : Prop where
  tidy : c.Tidy
  below : ∀ id ∈ opened, id < c.nextId
  balance : ∀ id, (ended log).count id + (c.has id).toNat = if id ∈ opened then 1 else 0

theorem Books.keeps {opened : List Nat} (h : Books c log opened) (hk : Keeps c c') :
    Books c' log opened where
  tidy := hk.tidy
  below id hid := hk.nextId ▸ h.below id hid
  balance id := by
    rw [hk.has]
    exact h.balance id

theorem Books.settled {new : List Event} {opened : List Nat} (h : Books c log opened) (ht : c'.Tidy)
    (hnext : c'.nextId = c.nextId) (hs : Settled c c' new) : Books c' (log ++ new) opened where
  tidy := ht
  below id hid := hnext ▸ h.below id hid
  balance id := by
    rw [ended_append, List.count_append, Nat.add_assoc, hs id]
    exact h.balance id

theorem Books.opened {opened : List Nat} (h : Books c log opened)
    (hs : c.startStream block body = (some id, c')) : Books c' log (opened ++ [id]) := by
  obtain ⟨ht, rfl, hnext, hhas⟩ := startStream_has h.tidy hs
  have hfresh : c.nextId ∉ opened := fun hin => Nat.lt_irrefl _ (h.below _ hin)
  refine ⟨ht, fun id hid => ?_, fun id => ?_⟩
  · rw [hnext]
    rcases List.mem_append.mp hid with hold | hnew
    · exact Nat.lt_add_right 2 (h.below id hold)
    · rw [List.mem_singleton.mp hnew]
      exact Nat.lt_add_of_pos_right (by decide)
  · have hbal := h.balance id
    rw [hhas id]
    by_cases heq : id = c.nextId
    · subst heq
      rw [if_neg hfresh, h.tidy.fresh, Bool.toNat_false, Nat.add_zero] at hbal
      rw [hbal, if_pos (List.mem_append_right _ List.mem_cons_self)]
      simp
    · have hmem : id ∈ opened ++ [c.nextId] ↔ id ∈ opened := by simp [heq]
      rw [beq_eq_false_iff_ne.mpr heq, Bool.false_or, hbal]
      exact if_congr hmem.symm rfl rfl

theorem Session.books {opened : List Nat} (h : Session c log opened) : Books c log opened := by
  induction h with
  | new =>
    refine ⟨tidy_new, nofun, fun id => ?_⟩
    rw [has, Ring.get_of_slots_nil rfl]
    rfl
  | initiate _ ih => exact ih.keeps (Keeps.of_eq ih.tidy rfl rfl)
  | opened hs _ ih => exact ih.opened hs
  | refused hs _ ih =>
    rw [startStream_none hs]
    exact ih
  | pumpBodies body _ ih => exact ih.keeps (pumpBodies_keeps ih.tidy body)
  | takeOutput _ ih =>
    refine ih.keeps (Keeps.of_eq ih.tidy ?_ ?_)
    all_goals
      unfold Connection.takeOutput
      split <;> rfl
  | frame hf _ ih =>
    rename_i c c' log log' opened kind flags stream payload _
    obtain ⟨new, hnew, ht, hs, _⟩ := onFrame_settled ih.tidy kind flags stream payload log
    have hnext := (onFrame_reaches c kind flags stream payload log).nextId
    rw [hf] at hnew ht hs hnext
    obtain rfl : log' = log ++ new := hnew
    exact ih.settled ht hnext hs
  | feed hf _ ih =>
    rename_i c c' log log' opened data _
    obtain ⟨new, hnew, ht, hnext, hs⟩ := feed_settled ih.tidy data log
    rw [hf] at hnew ht hs hnext
    obtain rfl : log' = log ++ new := hnew
    exact ih.settled ht hnext hs

/-- A stream that was never opened, or has ended, is not open. -/
theorem Books.closed {opened : List Nat} (h : Books c log opened)
    (hid : id ∉ opened ∨ id ∈ ended log) : c.has id = false := by
  have hbal := h.balance id
  cases hhas : c.has id with
  | false => rfl
  | true =>
    rw [hhas, Bool.toNat_true] at hbal
    rcases hid with hid | hid
    · rw [if_neg hid] at hbal
      exact absurd hbal (Nat.succ_ne_zero _)
    · have hpos := List.count_pos_iff.mpr hid
      split at hbal <;> omega

/-- What a frame ended was open before it and is not after it. -/
theorem Settled.mem_ended (h : Settled c c' events) (id : Nat) :
    id ∈ ended events ↔ c.has id = true ∧ c'.has id = false := by
  have hcount := h id
  rw [← List.count_pos_iff]
  generalize (ended events).count id = n, c.has id = a, c'.has id = b at hcount ⊢
  cases a <;> cases b <;> simp at hcount ⊢ <;> omega

end Connection

end Shb.Http2
