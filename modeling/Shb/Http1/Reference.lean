import Shb.Http1.Parse

/-!
# `http1/parse/reference.rs` — the parser the tests compare with

The reference keeps every byte of an incomplete header block and scans the block again on
each receive; it has no partial head. Its loop, its framing rules and its helpers are those
of `Parse`, word for word, so they are not written twice: what is its own is `scan_head` and
`feed`.
-/

namespace Shb.Http1.Reference

open Shb.Lib

/-- The loop of `scan_head` over header lines. -/
def scanLines (head : Head) (rest : Bytes) (pos : Nat) :
    Except ParseError (Option (Nat × ResponseHead)) :=
  match _ : memchr lf rest with
  | none => .ok none
  | some rel =>
    let line := trimCr (rest.take rel)
    if line.isEmpty then .ok (some (pos + (rel + 1), head.finish))
    else
      match head.headerLine line with
      | .error e => .error e
      | .ok head => scanLines head (rest.drop (rel + 1)) (pos + (rel + 1))
termination_by rest.length
decreasing_by
  have := (memchr_some ‹_›).2.2
  rw [List.length_drop]
  omega

variable (buf : Bytes)

/-- Scan a status line and header block: nothing until all of it is in `buf`. -/
def scanHead : Except ParseError (Option (Nat × ResponseHead)) :=
  match memchr lf buf with
  | none => .ok none
  | some nl =>
    match statusLine buf nl with
    | .error e => .error e
    | .ok head => scanLines head (buf.drop (nl + 1)) (nl + 1)

theorem scanLines_unfinished {rest : Bytes} (h : lf ∉ rest) (head : Head) (pos : Nat) :
    scanLines head rest pos = .ok none := by
  rw [scanLines.eq_def]
  split
  · rfl
  · simp_all [memchr_eq_none h]

theorem scanLines_line {line : Bytes} (h : lf ∉ line) (head : Head) (rest : Bytes) (pos : Nat) :
    scanLines head (line ++ lf :: rest) pos =
      if (trimCr line).isEmpty then .ok (some (pos + (line.length + 1), head.finish))
      else
        match head.headerLine (trimCr line) with
        | .error e => .error e
        | .ok head => scanLines head rest (pos + (line.length + 1)) := by
  rw [scanLines.eq_def]
  split
  · simp_all [memchr_append h]
  · rename_i rel hrel
    rw [memchr_append h, Option.some.injEq] at hrel
    subst hrel
    have htake : (line ++ lf :: rest).take line.length = line := by simp
    have hdrop : (line ++ lf :: rest).drop (line.length + 1) = rest := by
      simp [List.drop_append]
    rw [htake, hdrop]

/-- The reference scans the same lines; it only forgets where an incomplete scan got to. -/
theorem scanLines_eq {rest : Bytes} : ∀ {head : Head} {pos : Nat},
    scanLines head rest pos = (Http1.scanLines head rest pos).1.map fun out =>
      out.2.map fun done => (out.1, done) := by
  induction rest using lines_induction with
  | unfinished buf hno =>
    intro head pos
    rw [scanLines_unfinished hno, Http1.scanLines_unfinished hno]
    rfl
  | line line rest hno ih =>
    intro head pos
    rw [scanLines_line hno, Http1.scanLines_line hno]
    split
    · rfl
    · cases head.headerLine (trimCr line) with
      | error e => rfl
      | ok head => exact ih

theorem scanHead_eq :
    scanHead buf = (Http1.scanHead buf none).1.map fun out =>
      out.2.map fun done => (out.1, done) := by
  unfold scanHead Http1.scanHead
  cases memchr lf buf with
  | none => rfl
  | some nl =>
    simp only
    cases statusLine buf nl with
    | error e => rfl
    | ok head => exact scanLines_eq

/-- `scan_head` as the loop calls it: it consumes the whole head or nothing. -/
def scan (_ : Unit) : Scan × Unit :=
  match scanHead buf with
  | .error e => (.error e, ())
  | .ok none => (.ok (0, none), ())
  | .ok (some (len, head)) => (.ok (len, some head), ())

theorem scan_progress {buf : Bytes} {u u' : Unit} {used : Nat} {done : ResponseHead}
    (h : scan buf u = (.ok (used, some done), u')) : 0 < used ∧ used ≤ buf.length := by
  unfold scan at h
  rw [scanHead_eq] at h
  cases hs : Http1.scanHead buf none with
  | mk out incomplete =>
    rw [hs] at h
    cases out with
    | error e => simp [Except.map] at h
    | ok out =>
      obtain ⟨n, head⟩ := out
      cases head with
      | none => simp [Except.map] at h
      | some head =>
        obtain ⟨⟨rfl, rfl⟩, -⟩ := h
        exact scanHead_progress hs

def scanner : HeadScanner Unit := ⟨scan, scan_progress⟩

structure Parser extends Reader where
  /-- Bytes of an incomplete message carried over from earlier receives. -/
  pending : Bytes
  deriving DecidableEq, Repr

namespace Parser

def new : Parser :=
  { pending := [], state := .head, status := 0, keepAlive := true, headRequest := false }

variable (p : Parser)

def reset : Parser :=
  { p with pending := [], state := .head, status := 0, keepAlive := true }

def setHeadRequest (head : Bool) : Parser := { p with headRequest := head }

def run (buf : Bytes) : Except ParseError (Nat × Nat) × Parser :=
  match runWith scanner p.toReader () buf 0 0 with
  | (out, r, _) => (out, { r with pending := p.pending })

def feed (data : Bytes) : Except ParseError Nat × Parser :=
  if p.pending.isEmpty then
    match p.run data with
    | (.error e, p) => (.error e, p)
    | (.ok (used, done), p) => (.ok done, { p with pending := p.pending ++ data.drop used })
  else
    match { p with pending := [] }.run (p.pending ++ data) with
    | (.error e, p) => (.error e, p)
    | (.ok (used, done), q) => (.ok done, { q with pending := (p.pending ++ data).drop used })

def markEof (p : Parser) : Bool × Parser :=
  match p.toReader.markEof with
  | (done, r) => (done, { p with toReader := r })

end Parser
end Shb.Http1.Reference
