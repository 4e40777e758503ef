import Shb.Http1.Loop

/-!
# Parsing does not depend on how the bytes were received

`feed` has two paths — parse the receive in place, or first complete the line left over from
the last one — and both come to the same thing: what the byte machine does with the receive.
The machine cannot see the cuts, so neither can the parser.
-/

namespace Shb.Http1

open Shb.Lib

namespace Parser

/-- A parser between two calls: nothing left to settle, and of the input only part of a line
that is still being collected. -/
structure Resting (p : Parser) : Prop where
  not_exact : p.state ≠ .body (.exact 0)
  not_chunk : p.state ≠ .body (.chunk 0)
  no_lf : lf ∉ p.pending
  body : p.state.readsLines = false → p.pending = []

theorem resting_holding {r : Reader} {left : Bytes} (ph : Option Head)
    (h : Leftover (fun left => lf ∉ left) r left) : (holding r ph left).Resting := by
  refine ⟨h.not_exact, h.not_chunk, ?_, h.body⟩
  by_cases hr : r.state = .head
  · exact h.head hr
  · exact h.line hr

variable (p : Parser)

/-- What `run` returns, in terms of the machine. -/
def RunSpec (buf : Bytes) : Except ParseError (Nat × Nat) × Parser → Prop
  | (.error e, p') => ∃ q : Parser, q.answers = p'.answers ∧
      consumeFrom p.toReader p.partialHead buf = .error (e, q)
  | (.ok (used, done), p') => p'.pending = p.pending ∧
      Leftover (fun left => lf ∉ left) p'.toReader (buf.drop used) ∧
      consumeFrom p.toReader p.partialHead buf =
        .ok (done, holding p'.toReader p'.partialHead (buf.drop used))

theorem run_spec (buf : Bytes) : p.RunSpec buf (p.run buf) := by
  obtain ⟨out, hran, heq⟩ := ran incremental_scans p.toReader p.partialHead buf 0 0
  obtain ⟨out, r, h⟩ := out
  unfold run
  rw [heq]
  cases out with
  | error e => exact hran
  | ok x =>
    obtain ⟨used, done⟩ := x
    obtain ⟨-, hleft, q, hq, hfrom, hrest⟩ := hran
    simp only [Except.map, Nat.zero_add]
    refine ⟨rfl, hleft, ?_⟩
    rw [hfrom]
    -- the machine only collects what is left over
    cases hr : r.state.readsLines with
    | true =>
      have hno : lf ∉ buf.drop used := (resting_holding h hleft).no_lf
      rw [clean, consume_collect hr h hno, List.nil_append] at hrest
      simp only [Except.ok.injEq, Prod.mk.injEq, true_and] at hrest
      rw [← hrest]
    | false =>
      rw [hleft.body hr] at hrest ⊢
      simp only [consume_nil, Except.ok.injEq, Prod.mk.injEq, true_and] at hrest
      rw [← hrest]
      rfl

/-- What a call returns, in terms of the machine. -/
def FeedSpec (data : Bytes) (out : Except ParseError Nat × Parser) : Prop :=
  match consume byte p data with
  | .error (e, q) => out.1 = .error e ∧ out.2.answers = q.answers
  | .ok (n, q) => out = (.ok n, q) ∧ q.Resting

/-- `run`, and the bytes it did not use kept for the next call. -/
def parseInPlace (data : Bytes) : Except ParseError Nat × Parser :=
  match p.run data with
  | (.error e, p) => (.error e, p)
  | (.ok (used, done), p) => (.ok done, { p with pending := p.pending ++ data.drop used })

variable {p q : Parser}

theorem parseInPlace_spec (hp : p.Resting) (hempty : p.pending = []) (data : Bytes) :
    p.FeedSpec data (p.parseInPlace data) := by
  have hclean : p = clean p.toReader p.partialHead := by
    rw [clean, holding, ← hempty]
  have hrun := p.run_spec data
  unfold parseInPlace FeedSpec
  have hfrom : consumeFrom p.toReader p.partialHead data = consume byte p data := by
    rw [consumeFrom_eq hp.not_exact hp.not_chunk, ← hclean]
  cases hout : p.run data with
  | mk out p' =>
    rw [hout] at hrun
    cases out with
    | error e =>
      obtain ⟨q, hq, hq'⟩ := hrun
      rw [hfrom] at hq'
      rw [hq']
      exact ⟨rfl, hq.symm⟩
    | ok x =>
      obtain ⟨hpend, hleft, hq⟩ := hrun
      rw [hfrom] at hq
      rw [hq]
      refine ⟨?_, resting_holding _ hleft⟩
      simp only [hpend, hempty, List.nil_append]
      rfl

/-- The second path of `feed`: complete the line, then parse the rest in place. -/
theorem feed_completing (hne : p.pending ≠ []) {data : Bytes} {nl : Nat}
    (hnl : memchr lf data = some nl) :
    p.feed data =
      match run { p with pending := [] } (p.pending ++ (data.take nl ++ [lf])) with
      | (.error e, p) => (.error e, p)
      | (.ok (_, done), p) =>
        ((p.parseInPlace (data.drop (nl + 1))).1.map fun more => done + more,
          (p.parseInPlace (data.drop (nl + 1))).2) := by
  unfold feed parseInPlace
  rw [if_neg (by simpa using hne)]
  simp only [hnl, memchr_take hnl]
  cases run { p with pending := [] } (p.pending ++ (data.take nl ++ [lf])) with
  | mk out p' =>
    cases out with
    | error e => rfl
    | ok x =>
      simp only
      cases p'.run (data.drop (nl + 1)) with
      | mk out' p'' => cases out' <;> rfl

/-- Completing the line: all of it is used, and the machine agrees on what it said. -/
theorem run_line (hp : p.Resting) (line : Bytes) :
    match run { p with pending := [] } (line ++ [lf]) with
    | (.error e, p') => ∃ q : Parser, q.answers = p'.answers ∧
        consume byte (clean p.toReader p.partialHead) (line ++ [lf]) = .error (e, q)
    | (.ok (_, done), p') => p'.pending = [] ∧ p'.Resting ∧
        consume byte (clean p.toReader p.partialHead) (line ++ [lf]) = .ok (done, p') := by
  have hrun := run_spec { p with pending := [] } (line ++ [lf])
  have hfrom : consumeFrom p.toReader p.partialHead (line ++ [lf]) =
      consume byte (clean p.toReader p.partialHead) (line ++ [lf]) :=
    consumeFrom_eq hp.not_exact hp.not_chunk _ _
  cases hout : run { p with pending := [] } (line ++ [lf]) with
  | mk out p' =>
    rw [hout] at hrun
    cases out with
    | error e =>
      obtain ⟨q, hq, hq'⟩ := hrun
      exact ⟨q, hq, by rw [← hfrom]; exact hq'⟩
    | ok x =>
      obtain ⟨hpend, hleft, hq⟩ := hrun
      have hempty : p'.pending = [] := hpend
      have hall := drop_concat_eq_nil (resting_holding p'.partialHead hleft).no_lf
      rw [hall] at hq
      refine ⟨hempty, ⟨hleft.not_exact, hleft.not_chunk, by simp [hempty], fun _ => hempty⟩, ?_⟩
      rw [← hfrom]
      refine hq.trans ?_
      rw [holding, ← hempty]

/-- **`feed` is the byte machine.** -/
theorem feed_spec (hp : p.Resting) (data : Bytes) : p.FeedSpec data (p.feed data) := by
  by_cases hempty : p.pending = []
  · have hfeed : p.feed data = p.parseInPlace data := by
      unfold feed
      rw [if_pos (by simp [hempty])]
      rfl
    rw [hfeed]
    exact parseInPlace_spec hp hempty data
  · have hlines : p.state.readsLines = true := by
      cases hr : p.state.readsLines with
      | true => rfl
      | false => exact absurd (hp.body hr) hempty
    cases hnl : memchr lf data with
    | none =>
      have hno := memchr_none hnl
      have hcollect : consume byte p data = .ok (0, { p with pending := p.pending ++ data }) :=
        consume_collect hlines p.partialHead hno
      have hfeed : p.feed data = (.ok 0, { p with pending := p.pending ++ data }) := by
        unfold feed
        rw [if_neg (by simpa using hempty)]
        simp only [hnl]
      unfold FeedSpec
      rw [hcollect, hfeed]
      exact ⟨rfl, hp.not_exact, hp.not_chunk, by simp [hp.no_lf, hno], by simp [hlines]⟩
    | some nl =>
      -- the machine has collected the line so far: it is where reading that line would put it
      have hpend : consume byte (clean p.toReader p.partialHead) p.pending = .ok (0, p) := by
        rw [clean, consume_collect hlines _ hp.no_lf]
        rfl
      have hdata : consume byte p data =
          chain (consume byte (clean p.toReader p.partialHead)
            ((p.pending ++ data.take nl) ++ [lf])) fun p =>
              consume byte p (data.drop (nl + 1)) := by
        rw [List.append_assoc, consume_append, hpend, chain_zero, ← consume_append,
          ← memchr_take hnl, List.take_append_drop]
      rw [feed_completing hempty hnl, ← List.append_assoc]
      have hline := run_line hp (p.pending ++ data.take nl)
      unfold FeedSpec
      rw [hdata]
      cases hout : run { p with pending := [] } ((p.pending ++ data.take nl) ++ [lf]) with
      | mk out p' =>
        rw [hout] at hline
        cases out with
        | error e =>
          obtain ⟨q, hq, hq'⟩ := hline
          rw [hq', chain_error]
          exact ⟨rfl, hq.symm⟩
        | ok x =>
          obtain ⟨hempty', hp', hq⟩ := hline
          have hrest := parseInPlace_spec hp' hempty' (data.drop (nl + 1))
          unfold FeedSpec at hrest
          rw [hq]
          cases hc : consume byte p' (data.drop (nl + 1)) with
          | error x =>
            rw [hc] at hrest
            rw [chain_ok_error hc]
            simp only [hrest.1]
            exact ⟨rfl, hrest.2⟩
          | ok x =>
            rw [hc] at hrest
            rw [chain_ok_ok hc]
            simp only [hrest.1]
            exact ⟨rfl, hrest.2⟩

/-! ## Any cut -/

/-- Feed the segments one after another, up to the first that fails. -/
def feedAll : Parser → List Bytes → Option (Nat × Parser)
  | p, [] => some (0, p)
  | p, segment :: segments =>
    match p.feed segment with
    | (.error _, _) => none
    | (.ok n, p) =>
      match feedAll p segments with
      | none => none
      | some (m, p) => some (n + m, p)

/-- The parsers that calls which do not fail lead to. -/
inductive Reachable : Parser → Prop
  | new : Reachable new
  | feed {p q : Parser} {data : Bytes} {n : Nat} (hp : Reachable p)
      (hok : p.feed data = (.ok n, q)) : Reachable q
  | markEof {p : Parser} (hp : Reachable p) : Reachable p.markEof.2
  | setHeadRequest {p : Parser} (hp : Reachable p) (head : Bool) :
      Reachable (p.setHeadRequest head)
  | reset {p : Parser} (hp : Reachable p) : Reachable p.reset

theorem Resting.feed {data : Bytes} {n : Nat} (hp : p.Resting)
    (hok : p.feed data = (.ok n, q)) : q.Resting := by
  have hspec := feed_spec hp data
  rw [hok] at hspec
  unfold FeedSpec at hspec
  split at hspec
  · exact absurd hspec.1 (by simp)
  · obtain ⟨heq, hrest⟩ := hspec
    simp only [Prod.mk.injEq] at heq
    exact heq.2 ▸ hrest

theorem Resting.markEof (hp : p.Resting) : p.markEof.2.Resting := by
  unfold Parser.markEof Reader.markEof
  split
  · rename_i out r heq
    split at heq
    · rename_i heof
      obtain ⟨-, rfl⟩ := heq
      -- a close-delimited body leaves nothing unread
      have hempty := hp.body (by simp [heof, State.readsLines])
      exact ⟨by simp, by simp, hp.no_lf, fun _ => hempty⟩
    · simp only [Prod.mk.injEq] at heq
      obtain ⟨-, rfl⟩ := heq
      exact hp

theorem resting_reset (p : Parser) : p.reset.Resting :=
  ⟨by simp [reset], by simp [reset], by simp [reset], fun _ => rfl⟩

theorem Reachable.resting (h : Reachable p) : p.Resting := by
  induction h with
  | new => exact resting_reset Parser.new
  | feed _ hok ih => exact ih.feed hok
  | markEof _ ih => exact ih.markEof
  | setHeadRequest _ head ih => exact ⟨ih.not_exact, ih.not_chunk, ih.no_lf, ih.body⟩
  | reset _ _ => exact resting_reset _

theorem feed_eq_ok (hp : p.Resting) (data : Bytes) (n : Nat) :
    p.feed data = (.ok n, q) ↔ consume byte p data = .ok (n, q) := by
  have hspec := feed_spec hp data
  unfold FeedSpec at hspec
  cases hc : consume byte p data with
  | error x =>
    rw [hc] at hspec
    constructor
    · intro h
      rw [h] at hspec
      exact absurd hspec.1 (by simp)
    · exact fun h => absurd h (by simp)
  | ok x =>
    rw [hc] at hspec
    rw [hspec.1]
    constructor
    · intro h
      simp only [Prod.mk.injEq, Except.ok.injEq] at h
      simp only [← h.1, ← h.2]
    · intro h
      simp only [Except.ok.injEq] at h
      rw [h]

theorem feedAll_eq_some (hp : p.Resting) (segments : List Bytes) (n : Nat) :
    feedAll p segments = some (n, q) ↔ consumeAll byte p segments = .ok (n, q) := by
  induction segments generalizing p q n with
  | nil => simp [feedAll, consumeAll]
  | cons segment segments ih =>
    cases hc : consume byte p segment with
    | error x =>
      have hfail : ∃ e p', p.feed segment = (.error e, p') := by
        have hspec := feed_spec hp segment
        unfold FeedSpec at hspec
        rw [hc] at hspec
        exact ⟨x.1, (p.feed segment).2, by rw [← hspec.1]⟩
      obtain ⟨e, p', hfeed⟩ := hfail
      simp [feedAll, consumeAll, hfeed, hc]
    | ok x =>
      obtain ⟨k, p'⟩ := x
      have hfeed := (feed_eq_ok hp segment k).mpr hc
      have hp' := hp.feed hfeed
      simp only [feedAll, hfeed, consumeAll, hc]
      cases hrest : consumeAll byte p' segments with
      | error x =>
        have hnone : feedAll p' segments = none := by
          cases hall : feedAll p' segments with
          | none => rfl
          | some out =>
            rw [(ih hp' out.1).mp hall] at hrest
            exact absurd hrest (by simp)
        rw [chain_ok_error hrest]
        simp [hnone]
      | ok out =>
        obtain ⟨m, p''⟩ := out
        have hsome : feedAll p' segments = some (m, p'') := (ih hp' m).mpr hrest
        rw [chain_ok_ok hrest]
        simp [hsome]

/-- However a byte stream is cut into receives, feeding them one after another gives the
responses and the parser that feeding it at once does, and fails exactly when that does. -/
theorem feed_any_cut {p : Parser} (hp : Reachable p) (segments : List Bytes) (n : Nat)
    (q : Parser) :
    feedAll p segments = some (n, q) ↔ p.feed segments.flatten = (.ok n, q) := by
  rw [feedAll_eq_some hp.resting, consumeAll_eq, feed_eq_ok hp.resting]

/-- `HTTP/1.1 204` and an empty line, cut inside the version and before the last newline. -/
theorem feed_any_cut_noContent :
    feedAll new [[72, 84, 84, 80], [47, 49, 46, 49, 32, 50, 48, 52, 10], [10]] =
      some (1, { new with status := 204 }) :=
  (feed_any_cut .new _ _ _).mpr
    ((feed_eq_ok (Reachable.resting .new) _ _).mpr rfl)

end Parser
end Shb.Http1
