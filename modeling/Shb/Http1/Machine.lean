import Mathlib.Algebra.Group.Nat.Defs
import Shb.Lib.Feed
import Shb.Http1.Parse

/-!
# The parser, a byte at a time

The same parser with the buffering taken out: a newline ends the line being collected, any
other byte joins it; a body byte counts down. `byte` is the reading of a single byte,
`Lib.consume byte` that of a sequence — which, by construction, does not see where one
receive ends and the next begins.

The rest of this file reads off what `consume byte` does to the stretches the loop of `run`
deals with at once: an unfinished line, part of a body of known length, part of a chunk.
-/

namespace Shb.Http1

open Shb.Lib

/-- What the loop does before it looks at another byte: an empty body is a finished
response, and a chunk that has been read to its end is followed by the next size. -/
def Reader.settle (r : Reader) : Nat × Reader :=
  match r.state with
  | .body (.exact 0) => (1, { r with state := .head })
  | .body (.chunk 0) => (0, { r with state := .body .chunkSize })
  | _ => (0, r)

theorem Reader.settle_eq {r : Reader} (he : r.state ≠ .body (.exact 0))
    (hc : r.state ≠ .body (.chunk 0)) : r.settle = (0, r) := by
  unfold settle
  split
  · exact absurd ‹_› he
  · exact absurd ‹_› hc
  · rfl

/-- What can be asked of the parser between calls. -/
def Reader.answers (r : Reader) : Nat × Bool × Bool := (r.status, r.keepAlive, r.headRequest)

/-- States in which bytes are collected into a line. -/
def State.readsLines : State → Bool
  | .head => true
  | .body .chunkSize => true
  | .body .trailers => true
  | _ => false

namespace Parser

variable (r : Reader)

variable (partialHead : Option Head)

/-- The reader with a line collected so far. -/
def holding (line : Bytes) : Parser :=
  { r with pending := line, partialHead := partialHead }

/-- Nothing collected. -/
def clean : Parser := holding r partialHead []

/-- The reader after a complete line, or a body byte. -/
def settled : Nat × Parser :=
  (r.settle.1, clean r.settle.2 partialHead)

theorem settled_eq {r : Reader} (he : r.state ≠ .body (.exact 0)) (hc : r.state ≠ .body (.chunk 0))
    (partialHead : Option Head) : settled r partialHead = (0, clean r partialHead) := by
  rw [settled, Reader.settle_eq he hc]

variable (p : Parser)

/-- A complete line of a header block. -/
def headLine : Except ParseError (Nat × Parser) :=
  match p.partialHead with
  | none =>
    match statusLine (p.pending ++ [lf]) p.pending.length with
    | .error e => .error e
    | .ok head => .ok (settled p.toReader (some head))
  | some head =>
    if (trimCr p.pending).isEmpty then
      match p.toReader.onHead head.finish with
      | .error e => .error e
      | .ok r => .ok (settled r none)
    else
      match head.headerLine (trimCr p.pending) with
      | .error e => .error e
      | .ok head => .ok (settled p.toReader (some head))

/-- A complete chunk-size line. -/
def sizeLine : Except ParseError (Nat × Parser) :=
  match parseChunkSize (trimCr p.pending) with
  | .error e => .error e
  | .ok size =>
    if size = 0 then .ok (settled { p.toReader with state := .body .trailers } p.partialHead)
    else
      match checkedAdd size 2 with
      | none => .error .chunkSizeOverflow
      | some want =>
        .ok (settled { p.toReader with state := .body (.chunk want) } p.partialHead)

/-- A complete trailer line. -/
def trailerLine : Nat × Parser :=
  if (trimCr p.pending).isEmpty then
    (1, { p with state := .head, pending := [] })
  else (0, { p with pending := [] })

/-- A byte of a chunk with `n` bytes to go, its CRLF included. -/
def chunkByte (n : Nat) (b : UInt8) : Except ParseError (Nat × Parser) :=
  if n = 2 && b ≠ cr || n = 1 && b ≠ lf then .error .invalidChunkTerminator
  else .ok (settled { p.toReader with state := .body (.chunk (n - 1)) } p.partialHead)

/-- Collect a byte of an unfinished line. -/
def collect (b : UInt8) : Except ParseError (Nat × Parser) :=
  .ok (0, { p with pending := p.pending ++ [b] })

/-- One byte. -/
def byte (b : UInt8) : Except ParseError (Nat × Parser) :=
  match p.state with
  | .head => if b = lf then p.headLine else p.collect b
  | .body .chunkSize => if b = lf then p.sizeLine else p.collect b
  | .body .trailers => if b = lf then .ok p.trailerLine else p.collect b
  | .body (.exact n) =>
    .ok (settled { p.toReader with state := .body (.exact (n - 1)) } p.partialHead)
  | .body (.chunk n) => p.chunkByte n b
  | .body .eof => .ok (0, p)

/-! ## Stretches -/

theorem byte_collect {p : Parser} (h : p.state.readsLines = true) {b : UInt8} (hb : b ≠ lf) :
    p.byte b = p.collect b := by
  unfold byte
  cases hs : p.state with
  | head => simp [hb]
  | body body =>
    cases body with
    | chunkSize => simp [hb]
    | trailers => simp [hb]
    | exact n | chunk n | eof => simp [hs, State.readsLines] at h

/-- Bytes without a newline only make the line longer. -/
theorem consume_collect {r : Reader} (hr : r.state.readsLines = true) (ph : Option Head)
    {bs : Bytes} : ∀ {line : Bytes}, lf ∉ bs →
    consume byte (holding r ph line) bs = .ok (0, holding r ph (line ++ bs)) := by
  induction bs with
  | nil => intro line _; simp
  | cons b bs ih =>
    intro line hno
    rw [List.mem_cons, not_or] at hno
    have hstep : (holding r ph line).byte b = .ok (0, holding r ph (line ++ [b])) :=
      byte_collect hr (Ne.symm hno.1)
    rw [consume_cons_ok hstep, chain_zero, ih hno.2]
    simp

/-- A line, collected from nothing, and its newline. -/
theorem consume_line {r : Reader} (hr : r.state.readsLines = true) (ph : Option Head)
    {line : Bytes} (hno : lf ∉ line) :
    consume byte (clean r ph) (line ++ [lf]) =
      match (holding r ph line).byte lf with
      | .error e => .error (e, holding r ph line)
      | .ok out => .ok out := by
  rw [consume_append, clean, consume_collect hr ph hno, List.nil_append, chain_zero]
  cases h : (holding r ph line).byte lf with
  | error e => rw [consume_cons_error h]
  | ok out =>
    rw [consume_cons_ok h]
    simp [chain]

theorem consume_eof {p : Parser} (hp : p.state = .body .eof) (bs : Bytes) :
    consume byte p bs = .ok (0, p) := by
  induction bs with
  | nil => rfl
  | cons b bs ih =>
    have hstep : p.byte b = .ok (0, p) := by simp [byte, hp]
    rw [consume_cons_ok hstep, chain_zero, ih]

theorem consume_exact (ph : Option Head) (bs : Bytes) : ∀ {n : Nat}, 0 < n →
    bs.length ≤ n →
    consume byte (clean { r with state := .body (.exact n) } ph) bs =
      .ok (settled { r with state := .body (.exact (n - bs.length)) } ph) := by
  induction bs with
  | nil =>
    intro n hn _
    rw [List.length_nil, Nat.sub_zero, settled_eq (by simp; omega) (by simp)]
    rfl
  | cons b bs ih =>
    intro n hn hle
    have hstep : (clean { r with state := .body (.exact n) } ph).byte b =
        .ok (settled { r with state := .body (.exact (n - 1)) } ph) := rfl
    rw [List.length_cons] at hle ⊢
    by_cases h1 : n = 1
    · -- the last byte of the body
      obtain rfl : bs = [] := List.length_eq_zero_iff.mp (by omega)
      rfl
    · rw [settled_eq (by simp; omega) (by simp)] at hstep
      rw [consume_cons_ok hstep, chain_zero, ih (by omega) (by omega), Nat.sub_sub,
        Nat.add_comm 1]

/-- What of the CRLF is among the next bytes of a chunk with `n` bytes to go. -/
def badChunk : Nat → Bytes → Bool
  | _, [] => false
  | n, b :: bs => (n = 2 && b ≠ cr || n = 1 && b ≠ lf) || badChunk (n - 1) bs

theorem consume_chunk (ph : Option Head) (bs : Bytes) : ∀ {n : Nat}, 0 < n →
    bs.length ≤ n → ∃ q : Parser, q.answers = r.answers ∧
      consume byte (clean { r with state := .body (.chunk n) } ph) bs =
        if badChunk n bs then .error (.invalidChunkTerminator, q)
        else .ok (settled { r with state := .body (.chunk (n - bs.length)) } ph) := by
  induction bs with
  | nil =>
    intro n hn _
    refine ⟨clean r ph, rfl, ?_⟩
    rw [List.length_nil, Nat.sub_zero, settled_eq (by simp) (by simp; omega)]
    rfl
  | cons b bs ih =>
    intro n hn hle
    rw [List.length_cons] at hle ⊢
    cases hbad : (n = 2 && b ≠ cr || n = 1 && b ≠ lf : Bool) with
    | true =>
      have hstep : (clean { r with state := .body (.chunk n) } ph).byte b =
          .error .invalidChunkTerminator := if_pos hbad
      refine ⟨clean { r with state := .body (.chunk n) } ph, rfl, ?_⟩
      rw [consume_cons_error hstep, badChunk, hbad, Bool.true_or, if_pos rfl]
    | false =>
      have hstep : (clean { r with state := .body (.chunk n) } ph).byte b =
          .ok (settled { r with state := .body (.chunk (n - 1)) } ph) :=
        if_neg (by rw [hbad]; exact Bool.false_ne_true)
      rw [badChunk, hbad, Bool.false_or]
      by_cases h1 : n = 1
      · obtain rfl : bs = [] := List.length_eq_zero_iff.mp (by omega)
        exact ⟨clean r ph, rfl, by rw [consume_cons_ok hstep]; rfl⟩
      · rw [settled_eq (by simp) (by simp; omega)] at hstep
        rw [consume_cons_ok hstep, chain_zero, Nat.add_comm, ← Nat.sub_sub]
        exact ih (by omega) (by omega)

/-- A byte with more than the terminator's length behind it is not looked at. -/
theorem badTerminator_cons (b : UInt8) {bs : Bytes} (h : 2 ≤ bs.length) (left : Nat) :
    badTerminator (b :: bs) left = badTerminator bs left := by
  have hne : bs.isEmpty = false := by
    cases bs with
    | nil => simp at h
    | cons c cs => rfl
  have hlen : min (b :: bs).length (2 - left) = min bs.length (2 - left) := by
    rw [List.length_cons]
    omega
  have hdrop : (b :: bs).drop ((b :: bs).length - min bs.length (2 - left)) =
      bs.drop (bs.length - min bs.length (2 - left)) := by
    have : (b :: bs).length - min bs.length (2 - left) =
        (bs.length - min bs.length (2 - left)) + 1 := by
      rw [List.length_cons]
      omega
    rw [this, List.drop_succ_cons]
  simp only [badTerminator, hlen, hdrop, hne, List.isEmpty_cons]

/-- The check of `run` on the whole stretch is the check of each of its bytes. -/
theorem badTerminator_eq (bs : Bytes) : ∀ n : Nat, bs.length ≤ n →
    badTerminator bs (n - bs.length) = badChunk n bs := by
  induction bs with
  | nil => intro n _; simp [badTerminator, badChunk]
  | cons b bs ih =>
    intro n hle
    rw [List.length_cons] at hle
    obtain ⟨left, rfl⟩ : ∃ left, n = bs.length + 1 + left := ⟨n - (bs.length + 1), by omega⟩
    have hsub : bs.length + 1 + left - (b :: bs).length = left := by
      rw [List.length_cons]
      omega
    rw [hsub]
    match bs, ih with
    | [], _ =>
      match left with
      | 0 | 1 => simp [badTerminator, badChunk]
      | left + 2 =>
        simp [badTerminator, badChunk]
        omega
    | [c], _ =>
      match left with
      | 0 =>
        by_cases hb : b = cr <;> by_cases hc : c = lf <;> simp [badTerminator, badChunk, hb, hc]
      | 1 => simp [badTerminator, badChunk]
      | left + 2 =>
        simp [badTerminator, badChunk]
        omega
    | c :: d :: tail, ih =>
      rw [badTerminator_cons b (by simp)]
      have := ih ((c :: d :: tail).length + left) (by omega)
      rw [Nat.add_sub_cancel_left] at this
      rw [this]
      simp only [List.length_cons]
      rw [show badChunk (tail.length + 1 + 1 + 1 + left) (b :: c :: d :: tail) =
        badChunk (tail.length + 1 + 1 + 1 + left - 1) (c :: d :: tail) by
          rw [badChunk]
          simp
          omega]
      congr 1
      omega

end Parser
end Shb.Http1
