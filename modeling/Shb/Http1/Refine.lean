import Shb.Http1.Split

/-!
# The incremental parser is the reference parser

One keeps the bytes of an incomplete head and scans them again; the other keeps what it read
from the complete lines, and the unfinished one. They are related (`Sim`) when the second is
what `scan_head` makes of the first. Both then agree with the byte machine on the next
receive, and so with each other: on the count, on the error and its text, on `status` and on
`keep_alive` — the last two also after a failure.
-/

namespace Shb.Http1

open Shb.Lib Http1.Parser

/-- The partial head and the pending line are what `scan_head` makes of the bytes retained by
the reference; in a body both retain the same part of a line. -/
structure Sim (p : Parser) (r : Reference.Parser) : Prop where
  resting : p.Resting
  reader : p.toReader = r.toReader
  head : r.state = .head → ∃ used,
    scanHead r.pending none = (.ok (used, none), p.partialHead) ∧ p.pending = r.pending.drop used
  body : r.state ≠ .head → p.partialHead = none ∧ p.pending = r.pending

/-- Reading part of a line in a body collects it. -/
theorem consume_body {r : Reader} {left : Bytes} (hno : lf ∉ left)
    (hbody : r.state.readsLines = false → left = []) :
    consume byte (clean r none) left = .ok (0, holding r none left) := by
  cases hlines : r.state.readsLines with
  | true => exact consume_collect hlines none hno
  | false =>
    rw [hbody hlines]
    rfl

variable {p : Parser} {r : Reference.Parser}

/-- The machine gets from the retained bytes to the incremental parser. -/
theorem Sim.consume (h : Sim p r) :
    Lib.consume byte (clean r.toReader none) r.pending = .ok (0, p) := by
  by_cases hr : r.state = .head
  · obtain ⟨used, hscan, hpend⟩ := h.head hr
    rw [consume_incomplete hr hscan, ← hpend, ← h.reader]
    rfl
  · obtain ⟨hph, hpend⟩ := h.body hr
    have hno := h.resting.no_lf
    have hbody := h.resting.body
    rw [hpend] at hno hbody
    rw [h.reader] at hbody
    rw [consume_body hno hbody, ← hpend, ← hph, ← h.reader]
    rfl

/-- What is left over when the reference's loop returns makes the pair related again. -/
theorem sim_of_leftover {q : Parser} {r : Reader} {left : Bytes}
    (hleft : Leftover IncompleteHead r left) (hq : q.Resting)
    (hconsume : Lib.consume byte (clean r none) left = .ok (0, q)) :
    Sim q { r with pending := left } := by
  by_cases hr : r.state = .head
  · obtain ⟨used, ph, hscan⟩ := hleft.head hr
    rw [consume_incomplete hr hscan] at hconsume
    simp only [Except.ok.injEq, Prod.mk.injEq, true_and] at hconsume
    subst hconsume
    exact ⟨hq, rfl, fun _ => ⟨used, hscan, rfl⟩, fun h => absurd hr h⟩
  · rw [consume_body (hleft.line hr) hleft.body] at hconsume
    simp only [Except.ok.injEq, Prod.mk.injEq, true_and] at hconsume
    subst hconsume
    exact ⟨hq, rfl, fun h => absurd h hr, fun _ => ⟨rfl, rfl⟩⟩

/-- Both paths of the reference's `feed` run over what was retained and what came. -/
theorem Reference.feed_eq (r : Reference.Parser) (data : Bytes) :
    r.feed data =
      match runWith Reference.scanner r.toReader () (r.pending ++ data) 0 0 with
      | (.error e, q, _) => (.error e, { q with pending := [] })
      | (.ok (used, done), q, _) =>
        (.ok done, { q with pending := (r.pending ++ data).drop used }) := by
  unfold Reference.Parser.feed Reference.Parser.run
  split
  · rename_i hempty
    rw [List.isEmpty_iff] at hempty
    simp only [hempty, List.nil_append]
    cases runWith Reference.scanner r.toReader () data 0 0 with
    | mk out q => cases out <;> rfl
  · simp only
    cases runWith Reference.scanner r.toReader () (r.pending ++ data) 0 0 with
    | mk out q => cases out <;> rfl

/-- One receive: the same result, the same answers afterwards, and if it did not fail the
parsers are related again. -/
theorem Sim.feed (h : Sim p r) (data : Bytes) :
    (p.feed data).1 = (r.feed data).1 ∧ (p.feed data).2.answers = (r.feed data).2.answers ∧
    ∀ n, (p.feed data).1 = .ok n → Sim (p.feed data).2 (r.feed data).2 := by
  have he : r.state ≠ .body (.exact 0) := by
    rw [← h.reader]
    exact h.resting.not_exact
  have hc : r.state ≠ .body (.chunk 0) := by
    rw [← h.reader]
    exact h.resting.not_chunk
  have hspec := feed_spec h.resting data
  obtain ⟨out, hran, heq⟩ := ran reference_scans r.toReader () (r.pending ++ data) 0 0
  have hfrom : consumeFrom r.toReader none (r.pending ++ data) = Lib.consume byte p data := by
    rw [consumeFrom_eq he hc, consume_append, h.consume, chain_zero]
  unfold FeedSpec at hspec
  rw [Reference.feed_eq, heq]
  obtain ⟨out, r', u⟩ := out
  cases out with
  | error e =>
    obtain ⟨q, hq, hq'⟩ := hran
    rw [hfrom] at hq'
    rw [hq'] at hspec
    refine ⟨hspec.1, hspec.2.trans hq, fun n hn => ?_⟩
    rw [hspec.1] at hn
    exact absurd hn (by simp)
  | ok x =>
    obtain ⟨-, hleft, q, hq, hconsume, hrest⟩ := hran
    rw [hfrom] at hconsume
    rw [hconsume] at hspec
    obtain ⟨hout, hresting⟩ := hspec
    rw [hout]
    refine ⟨by simp [Except.map], ?_, fun _ _ => ?_⟩
    · simp only [Except.map, Nat.zero_add]
      rw [hq]
    · simp only [Except.map, Nat.zero_add]
      exact sim_of_leftover hleft hresting hrest

/-! ## Any sequence of calls -/

inductive Call where
  | feed (data : Bytes)
  | markEof
  | setHeadRequest (head : Bool)
  | reset

/-- What a call returns. -/
inductive Answer where
  | fed (result : Except ParseError Nat)
  | eof (completed : Bool)
  | unit

def Answer.isError : Answer → Bool
  | .fed (.error _) => true
  | _ => false

def Parser.call (p : Parser) : Call → Answer × Parser
  | .feed data => (.fed (p.feed data).1, (p.feed data).2)
  | .markEof => (.eof p.markEof.1, p.markEof.2)
  | .setHeadRequest head => (.unit, p.setHeadRequest head)
  | .reset => (.unit, p.reset)

def Reference.Parser.call (r : Reference.Parser) : Call → Answer × Reference.Parser
  | .feed data => (.fed (r.feed data).1, (r.feed data).2)
  | .markEof => (.eof r.markEof.1, r.markEof.2)
  | .setHeadRequest head => (.unit, r.setHeadRequest head)
  | .reset => (.unit, r.reset)

/-- Whether calls are compared after `call`: from a reset on, up to the first error. -/
def compared (live : Bool) (call : Call) (answer : Answer) : Bool :=
  match call with
  | .reset => true
  | _ => live && !answer.isError

/-- The two parsers answer alike on every call that is compared, the failing one included,
and `status` and `keep_alive` agree after it. -/
def Agree : Bool → Parser → Reference.Parser → List Call → Prop
  | _, _, _, [] => True
  | live, p, r, call :: calls =>
    ((live = true ∨ call = .reset) →
      (p.call call).1 = (r.call call).1 ∧ (p.call call).2.status = (r.call call).2.status ∧
        (p.call call).2.keepAlive = (r.call call).2.keepAlive) ∧
    Agree (compared live call (p.call call).1) (p.call call).2 (r.call call).2 calls

theorem Sim.markEof (h : Sim p r) : p.markEof.1 = r.markEof.1 ∧ Sim p.markEof.2 r.markEof.2 := by
  have hresting := h.resting.markEof
  unfold Parser.markEof Reference.Parser.markEof Reader.markEof at *
  rw [h.reader] at hresting ⊢
  by_cases heof : r.state = .body .eof
  · obtain ⟨hph, hpend⟩ := h.body (by simp [heof])
    have hempty : p.pending = [] := by
      refine h.resting.body ?_
      rw [h.reader, heof]
      rfl
    simp only [heof, if_true] at hresting ⊢
    refine ⟨trivial, hresting, rfl, fun _ => ⟨0, ?_, ?_⟩, fun h => absurd rfl h⟩
    · rw [← hpend, hempty, hph]
      rfl
    · rw [← hpend, hempty]
      rfl
  · simp only [heof, if_false] at hresting ⊢
    exact ⟨trivial, hresting, rfl, h.head, h.body⟩

theorem Sim.setHeadRequest (h : Sim p r) (head : Bool) :
    Sim (p.setHeadRequest head) (r.setHeadRequest head) := by
  refine ⟨⟨h.resting.not_exact, h.resting.not_chunk, h.resting.no_lf, h.resting.body⟩, ?_,
    h.head, h.body⟩
  simp only [Parser.setHeadRequest, Reference.Parser.setHeadRequest, h.reader]

theorem sim_reset (h : p.headRequest = r.headRequest) : Sim p.reset r.reset := by
  refine ⟨resting_reset p, ?_, fun _ => ⟨0, rfl, rfl⟩, fun h => absurd rfl h⟩
  simp only [Parser.reset, Reference.Parser.reset, h]

/-! A parser that has failed is still the same parser in one respect: no receive touches the
request method, so a reset makes the two alike again. -/

theorem onHead_headRequest {r r' : Reader} {head : ResponseHead} (h : r.onHead head = .ok r') :
    r'.headRequest = r.headRequest := by
  unfold Reader.onHead at h
  split at h
  · split at h
    · exact absurd h (by simp)
    · simp only [Except.ok.injEq] at h
      exact h ▸ rfl
  · simp only [Except.ok.injEq] at h
    exact h ▸ rfl

/-- The reader a turn leaves. -/
def Turn.reader {H : Type} : Turn H → Reader
  | .fail _ r _ => r
  | .stop _ r _ => r
  | .next _ _ r _ => r

theorem turn_headRequest {H : Type} (scanner : HeadScanner H) (r : Reader) (h : H)
    (rest : Bytes) : (turn scanner r h rest).reader.headRequest = r.headRequest := by
  unfold turn
  split
  · split
    · rfl
    · rfl
    · split
      · rfl
      · exact onHead_headRequest ‹_›
  · rfl
  · simp only
    split <;> rfl
  · split
    · rfl
    · split
      · rfl
      · split
        · rfl
        · split <;> rfl
  · simp only
    split
    · rfl
    · split <;> rfl
  · split
    · rfl
    · split <;> rfl
  · rfl

theorem runWith_headRequest {H : Type} (scanner : HeadScanner H) (r : Reader) (h : H) (rest : Bytes)
    (pos done : Nat) : (runWith scanner r h rest pos done).2.1.headRequest = r.headRequest := by
  induction r, h, rest, pos, done using runWith.induct scanner with
  | case1 r h rest pos done e r' h' ht =>
    have hturn := turn_headRequest scanner r h rest
    rw [runWith.eq_def]
    split <;> simp_all [Turn.reader]
  | case2 r h rest pos done used r' h' ht | case3 r h rest pos done used d r' h' ht ih =>
    have hturn := turn_headRequest scanner r h rest
    rw [runWith.eq_def]
    split <;> simp_all [Turn.reader]

theorem Parser.run_headRequest (p : Parser) (buf : Bytes) :
    (p.run buf).2.headRequest = p.headRequest :=
  runWith_headRequest Parser.scanner p.toReader p.partialHead buf 0 0

theorem Parser.feed_headRequest (p : Parser) (data : Bytes) :
    (p.feed data).2.headRequest = p.headRequest := by
  unfold Parser.feed
  split
  · have hrun := p.run_headRequest data
    cases hout : p.run data with
    | mk out p' =>
      rw [hout] at hrun
      cases out <;> exact hrun
  · split
    · rfl
    · rename_i nl hnl
      have hrun := run_headRequest { p with pending := [] } (p.pending ++ data.take (nl + 1))
      cases hout : run { p with pending := [] } (p.pending ++ data.take (nl + 1)) with
      | mk out p' =>
        rw [hout] at hrun
        cases out with
        | error e => exact hrun
        | ok x =>
          have hrest := p'.run_headRequest (data.drop (nl + 1))
          simp only
          cases hout' : p'.run (data.drop (nl + 1)) with
          | mk out' p'' =>
            rw [hout'] at hrest
            cases out' <;> exact hrest.trans hrun

theorem Reference.feed_headRequest (r : Reference.Parser) (data : Bytes) :
    (r.feed data).2.headRequest = r.headRequest := by
  rw [Reference.feed_eq]
  have hrun := runWith_headRequest Reference.scanner r.toReader () (r.pending ++ data) 0 0
  cases hout : runWith Reference.scanner r.toReader () (r.pending ++ data) 0 0 with
  | mk out q =>
    rw [hout] at hrun
    cases out <;> exact hrun

/-- Related while calls are compared; in any case set up for the same request method. -/
structure Paired (live : Bool) (p : Parser) (r : Reference.Parser) : Prop where
  method : p.headRequest = r.headRequest
  sim : live = true → Sim p r

theorem markEof_headRequest (r : Reader) : r.markEof.2.headRequest = r.headRequest := by
  unfold Reader.markEof
  split <;> rfl

theorem Paired.call {live : Bool} (h : Paired live p r) (call : Call) :
    ((live = true ∨ call = .reset) →
      (p.call call).1 = (r.call call).1 ∧ (p.call call).2.status = (r.call call).2.status ∧
        (p.call call).2.keepAlive = (r.call call).2.keepAlive) ∧
    Paired (compared live call (p.call call).1) (p.call call).2 (r.call call).2 := by
  cases call with
  | feed data =>
    constructor
    · rintro (hlive | hreset)
      · obtain ⟨h1, h2, -⟩ := (h.sim hlive).feed data
        simp only [Reader.answers, Prod.mk.injEq] at h2
        exact ⟨congrArg Answer.fed h1, h2.1, h2.2.1⟩
      · exact absurd hreset (by simp)
    · refine ⟨?_, fun hlive => ?_⟩
      · exact (p.feed_headRequest data).trans (h.method.trans
          (Reference.feed_headRequest r data).symm)
      · simp only [compared, Parser.call, Bool.and_eq_true, Bool.not_eq_true'] at hlive
        obtain ⟨-, -, hsim⟩ := (h.sim hlive.1).feed data
        cases hresult : (p.feed data).1 with
        | error e =>
          rw [hresult] at hlive
          exact absurd hlive.2 (by simp [Answer.isError])
        | ok n => exact hsim n hresult
  | markEof =>
    constructor
    · rintro (hlive | hreset)
      · obtain ⟨h1, h2⟩ := (h.sim hlive).markEof
        exact ⟨congrArg Answer.eof h1, by rw [Parser.call, Reference.Parser.call, h2.reader],
          by rw [Parser.call, Reference.Parser.call, h2.reader]⟩
      · exact absurd hreset (by simp)
    · refine ⟨?_, fun hlive => ?_⟩
      · exact (markEof_headRequest p.toReader).trans
          (h.method.trans (markEof_headRequest r.toReader).symm)
      · simp only [compared, Bool.and_eq_true] at hlive
        exact (h.sim hlive.1).markEof.2
  | setHeadRequest head =>
    constructor
    · rintro (hlive | hreset)
      · have hreader := ((h.sim hlive).setHeadRequest head).reader
        exact ⟨rfl, congrArg Reader.status hreader, congrArg Reader.keepAlive hreader⟩
      · exact absurd hreset (by simp)
    · refine ⟨rfl, fun hlive => ?_⟩
      simp only [compared, Bool.and_eq_true] at hlive
      exact (h.sim hlive.1).setHeadRequest head
  | reset => exact ⟨fun _ => ⟨rfl, rfl, rfl⟩, h.method, fun _ => sim_reset h.method⟩

theorem Paired.agree {calls : List Call} : ∀ {live : Bool} {p : Parser} {r : Reference.Parser},
    Paired live p r → Agree live p r calls := by
  induction calls with
  | nil => intros; trivial
  | cons call calls ih =>
    intro live p r h
    exact ⟨(h.call call).1, ih (h.call call).2⟩

/-- Any sequence of receives, closes, method changes and resets, applied to both parsers from
the start: they answer alike up to and including the first error after each reset. -/
theorem incremental_refines_reference (calls : List Call) :
    Agree true Parser.new Reference.Parser.new calls := by
  have hsim : Sim Parser.new.reset Reference.Parser.new.reset := sim_reset rfl
  exact Paired.agree ⟨rfl, fun _ => hsim⟩

end Shb.Http1
