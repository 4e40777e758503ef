import Shb.Http3.Books
import Shb.Http3.Framing

/-!
# When a response counts as an answer

A pass reads what is ready of each response, and at the end of a stream it asks the reader for the
status, and for nothing else. The reader has taken the status from the HEADERS frame and may be in
the middle of another frame when the stream ends: a response that is cut short counts like one that
is whole.

`Reads` says what a reader has been fed, by the reads of any passes.
-/

namespace Shb.Http3

open Lib Quic

namespace Pass

/-- What a read of the stream shows the reader. -/
def shown (p : Pass) (id : Nat) : Bytes := (p.quic.recvMut id).elim [] (·.ready)

end Pass

/-- A reader of stream `id`, fresh when the request was sent, after reads that did not fail have
shown it these pieces. -/
inductive Reads (id : Nat) : List Bytes → ResponseReader → Prop
  | fresh : Reads id [] {}
  | read {segs : List Bytes} {p p' : Pass} {s s' : InFlight} :
    Reads id segs s.reader → p.conn.streams.get id = some s → p.read id = (.ok (), p') →
      p'.conn.streams.get id = some s' → Reads id (segs ++ [p.shown id]) s'.reader

theorem Reads.one {id : Nat} {p : Pass} {s : InFlight}
    (hfresh : (p.conn.streams.get id).map (·.reader) = some {}) (hread : (p.read id).1 = .ok ())
    (hs : (p.read id).2.conn.streams.get id = some s) : Reads id [p.shown id] s.reader := by
  obtain ⟨s₀, hs₀, hreader⟩ := Option.map_eq_some_iff.mp hfresh
  have hone : Reads id ([] ++ [p.shown id]) s.reader :=
    .read (hreader ▸ .fresh) hs₀ (Prod.ext hread rfl) hs
  exact hone

/-- A callback that fails makes the read fail, if there is anything to read. -/
theorem consume_error {ε : Type} {quic : Connection} {id : Nat} {e : ε}
    (h : (quic.recvMut id).elim [] (·.ready) ≠ []) :
    (quic.consume id fun _ => .error e).1 = .error e := by
  cases hr : quic.recvMut id with
  | none =>
    rw [hr] at h
    exact absurd rfl h
  | some recv =>
    rw [hr] at h
    have hready : recv.ready.isEmpty = false := List.isEmpty_eq_false_iff.mpr h
    simp only [Connection.consume, hr, RecvStream.consume, hready, Bool.false_eq_true, if_false]

/-- A read that does not fail feeds the reader what is shown, if that is anything. -/
theorem consumeInto_ok {ρ : Type} {quic quic' : Connection} {id : Nat} {reader reader' : ρ}
    {feed : ρ → Bytes → Except ProtoError Unit × ρ}
    (h : Pass.consumeInto quic id reader feed = (.ok (), reader', quic')) :
    let shown := (quic.recvMut id).elim [] (·.ready)
    if shown.isEmpty then reader' = reader else feed reader shown = (.ok (), reader') := by
  intro shown
  unfold Pass.consumeInto at h
  by_cases hempty : shown.isEmpty
  · rw [if_pos hempty]
    simp only [shown] at hempty
    simp only [hempty, if_true] at h
    split at h
    · cases h
    · cases h
      rfl
  · rw [if_neg hempty]
    simp only [shown] at hempty ⊢
    simp only [Bool.eq_false_of_not_eq_true hempty, Bool.false_eq_true, if_false] at h
    have herror := fun e => consume_error (ε := ProtoError) (e := e)
      fun hnil => hempty (List.isEmpty_iff.mpr hnil)
    cases hfeed : feed reader ((quic.recvMut id).elim [] (·.ready)) with
    | mk verdict r =>
      rw [hfeed] at h
      cases verdict with
      | error e =>
        have hfails := herror e
        split at h
        · cases h
        · rename_i heq
          rw [heq] at hfails
          cases hfails
      | ok u =>
        split at h
        · cases h
        · cases h
          rfl

/-- The reader has scanned what it was shown. -/
theorem Reads.scans {id : Nat} {segs : List Bytes} {r : ResponseReader}
    (h : Reads id segs r) : Scans responseRules.scanner (0, 0) segs.flatten (.ok r.view) := by
  induction h with
  | fresh => exact .wait rfl
  | @read segs p p' s s' _ hs hread hs' ih =>
    rw [List.flatten_append, List.flatten_singleton]
    simp only [Pass.read, hs] at hread
    cases hc : Pass.consumeInto p.quic id s.reader ResponseReader.feed with
    | mk verdict out =>
      obtain ⟨reader, quic⟩ := out
      rw [hc] at hread
      cases verdict with
      | error e => cases hread
      | ok u =>
        cases hread
        have hreader : s'.reader = reader := by
          simp only [Ring.get_modify, if_true, hs, Option.map_some, Option.some.injEq] at hs'
          rw [← hs']
        have hfed := consumeInto_ok hc
        rw [hreader]
        simp only [Pass.shown] at hfed ⊢
        split at hfed
        · rename_i hempty
          rw [List.isEmpty_iff.mp hempty, List.append_nil, hfed]
          exact ih
        · -- one more piece, behind what is carried over
          have hscan := ResponseReader.tracks s.reader ((p.quic.recvMut id).elim [] (·.ready))
          rw [hfed] at hscan
          exact ih.append hscan

theorem Reads.status {id : Nat} {segs : List Bytes} {r : ResponseReader}
    (h : Reads id segs r) : r.status = lastStatus (frames segs.flatten).1 := by
  have hverdict := (responseRules.scans_verdict 0 segs.flatten).unique h.scans
  exact readAll_responseRules (Rules.verdict_ok hverdict).1

/-- At the end of a stream that is not reset, the status alone decides. -/
theorem completed_finish (cfg : Config) {p : Pass} {id : Nat} {s : InFlight}
    (hs : p.conn.streams.get id = some s) :
    (p.finish cfg (id, none)).counts.stats.completed =
      p.counts.stats.completed + if s.reader.status = 0 then 0 else 1 := by
  unfold Pass.finish
  cases ht : p.conn.streams.take id with
  | mk taken streams =>
    have htaken : taken = some s := by
      have h := Ring.take_fst p.conn.streams id
      rw [ht, hs] at h
      exact h
    subst htaken
    by_cases hzero : s.reader.status = 0
    · simp [Pass.conclude, hzero, Pass.fail, Counts.fail]
    · simp [Pass.conclude, hzero, Pass.succeed, Stats.recordSuccess]

variable (stream : Bytes)

/-- The stream stops between two frames. -/
def Whole : Prop := (frames stream).2 = []

/-- A complete HEADERS frame has a status that is not 1xx. -/
def Answered : Prop := ∃ f ∈ (frames stream).1, f.finalStatus.isSome

theorem answered_of_lastStatus {stream : Bytes} (h : lastStatus (frames stream).1 ≠ 0) :
    Answered stream := by
  unfold lastStatus at h
  cases hl : ((frames stream).1.filterMap Frame.finalStatus).getLast? with
  | none =>
    rw [hl] at h
    exact absurd rfl h
  | some status =>
    obtain ⟨f, hf, hstatus⟩ := List.mem_filterMap.mp (List.mem_of_getLast? hl)
    exact ⟨f, hf, by rw [hstatus]; rfl⟩

/-- **A response counts as an answer.** Whatever the stream of a request brought, in whatever
pieces it was read: it is counted only if it is whole and answered, exactly if it does not stop
inside a frame with an answer before that. -/
theorem success_is_whole_iff (cfg : Config) {p : Pass} {id : Nat} {s : InFlight} {segs : List Bytes}
    (hread : Reads id segs s.reader) (hs : p.conn.streams.get id = some s) :
    ((p.finish cfg (id, none)).counts.stats.completed = p.counts.stats.completed + 1 →
        Whole segs.flatten ∧ Answered segs.flatten) ↔
      ((frames segs.flatten).2 ≠ [] → lastStatus (frames segs.flatten).1 = 0) := by
  rw [completed_finish cfg hs, hread.status]
  by_cases hzero : lastStatus (frames segs.flatten).1 = 0
  · simp [hzero]
  · rw [if_neg hzero]
    constructor
    · intro h hrest
      exact absurd (h rfl).1 hrest
    · intro h _
      refine ⟨?_, answered_of_lastStatus hzero⟩
      by_contra hrest
      exact hzero (h hrest)

/-! ## A server that stops in the middle of a body -/

/-- A HEADERS frame with status 200, and a DATA frame of as many bytes as it says, of which this
comes. -/
def response (len : UInt8) (body : Bytes) : Bytes := [1, 3, 0, 0, 0xd9, 0, len] ++ body

/-- The server sends that in one frame, and ends the stream. -/
def responseRun : List Ev :=
  [ .recv 0 0 1 (.datagrams [serverHello]) none,
    .pass 0 1 none,
    .recv 0 0 2 (.datagrams [oneRttDatagram 0 (putStream 0 0 true stream)]) none ]

def responseWorker : Worker :=
  (run (Worker.step (smallConfig 1)) (smallInit 1 2) (responseRun stream)).getD (smallInit 1 2)

/-- The pass over the response, as it begins. -/
def responsePass : Pass :=
  let conn := (responseWorker stream).conns.head?.getD Conn.new
  Pass.start conn (conn.quic.getD newConnection) (responseWorker stream).counts

/-- All three bytes of three: the response is counted, whole and answered. -/
theorem success_is_whole_iff_three_bytes :
    ((((responsePass (response 3 [7, 7, 7])).read 0).2.finish (smallConfig 1)
      (0, none)).counts.stats = { completed := 1, errors := 0, connectErrors := 0 }) ∧
      Whole (response 3 [7, 7, 7]) ∧ Answered (response 3 [7, 7, 7]) := by
  have hfresh : ((responsePass (response 3 [7, 7, 7])).conn.streams.get 0).map (·.reader) =
      some {} := by decide +kernel
  have hread : ((responsePass (response 3 [7, 7, 7])).read 0).1 = .ok () := by decide +kernel
  have hstill : (((responsePass (response 3 [7, 7, 7])).read 0).2.conn.streams.get 0).isSome := by
    decide +kernel
  have hshown : (responsePass (response 3 [7, 7, 7])).shown 0 = response 3 [7, 7, 7] := by
    decide +kernel
  have hcounted : (((responsePass (response 3 [7, 7, 7])).read 0).2.finish (smallConfig 1)
      (0, none)).counts.stats = { completed := 1, errors := 0, connectErrors := 0 } := by
    decide +kernel
  have hbefore : ((responsePass (response 3 [7, 7, 7])).read 0).2.counts.stats.completed = 0 := by
    decide +kernel
  obtain ⟨s, hs⟩ := Option.isSome_iff_exists.mp hstill
  have hreads := Reads.one hfresh hread hs
  rw [hshown] at hreads
  refine ⟨hcounted, (success_is_whole_iff (smallConfig 1) hreads hs).mpr (fun hrest => ?_) ?_⟩
  · exact absurd (by decide +kernel) hrest
  · rw [hcounted, hbefore]

/-- Three bytes of ten, and the request was answered. -/
theorem truncated_response_counts :
    (run (Worker.step (smallConfig 1)) (smallInit 1 2)
        (responseRun (response 10 [7, 7, 7]) ++ [.pass 0 2 none])).map (·.counts.stats) =
      some { completed := 1, errors := 0, connectErrors := 0 } ∧
    ¬ Whole (response 10 [7, 7, 7]) := by
  refine ⟨by decide +kernel, ?_⟩
  unfold Whole
  decide +kernel

end Shb.Http3
