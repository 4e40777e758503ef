import Shb.Status

/-!
# `http1/parse.rs` — the incremental response parser

The parser reads the status line, `Content-Length`, `Transfer-Encoding` and `Connection`, and
skips everything else. Between receives it keeps the metadata of the header lines seen so
far and at most one unfinished line.

The loop of `run` is written as one turn (`turn`) and its iteration (`runWith`), over the
scanner of the head: the reference parser of the tests has the same loop around another
`scan_head`. A scanner that reports a complete head has consumed something, which is why the
loop ends; `HeadScanner` carries that fact.

A method that can fail returns its result together with the state it leaves behind, since
`status` and `keep_alive` can be asked for after a failure too.
-/

namespace Shb.Http1

open Shb.Lib

inductive ParseError where
  | notHttp1
  | unsupportedVersion
  | malformedStatusLine
  | invalidStatusCode
  | emptyContentLength
  | invalidContentLength
  | contentLengthOverflow
  | conflictingContentLength
  | emptyChunkSize
  | invalidChunkSize
  | chunkSizeOverflow
  | invalidChunkTerminator
  | switchingProtocols
  | unterminatedParameter
  deriving DecidableEq, Repr

/-- How the body of the response being read is delimited. -/
inductive Body where
  /-- `Content-Length` bytes remain. -/
  | exact (n : Nat)
  | chunkSize
  /-- Bytes remaining in the current chunk, its trailing CRLF included. -/
  | chunk (n : Nat)
  | trailers
  | eof
  deriving DecidableEq, Repr

inductive State where
  | head
  | body (b : Body)
  deriving DecidableEq, Repr

/-- Metadata from complete header lines. -/
structure Head where
  contentLength : Option Nat
  status : Nat
  http10 : Bool
  tePresent : Bool
  teChunked : Bool
  close : Bool
  keepAliveToken : Bool
  deriving DecidableEq, Repr

structure ResponseHead where
  status : Nat
  body : Body
  keepAlive : Bool
  deriving DecidableEq, Repr

/-! ## Lines -/

def trimCr (line : Bytes) : Bytes :=
  if line.getLast? = some cr then line.dropLast else line

def isOws (b : UInt8) : Bool := b = 32 || b = 9

variable (b : Bytes)

def trimOws : Bytes :=
  ((b.dropWhile isOws).reverse.dropWhile isOws).reverse

/-- Equality up to the `0x20` bit of the left side. -/
def ciEq (a b : Bytes) : Bool :=
  a.length = b.length && (a.zip b).all fun p => (p.1 ||| 0x20) = p.2

def ciPrefix (line name : Bytes) : Bool :=
  name.length ≤ line.length &&
    ((line.take name.length).zip name).all fun p => (p.1 ||| 0x20) = p.2

/-- Three ASCII digits. -/
def parseStatus (a c d : UInt8) : Except ParseError Nat :=
  if !isAsciiDigit a || !isAsciiDigit c || !isAsciiDigit d then .error .invalidStatusCode
  else .ok (digit a * 100 + digit c * 10 + digit d)

/-- The loop of `parse_u64`. -/
def decimal (n : Nat) : Bytes → Except ParseError Nat
  | [] => .ok n
  | c :: rest =>
    if !isAsciiDigit c then .error .invalidContentLength
    else
      match (checkedMul n 10).bind fun n => checkedAdd n (digit c) with
      | none => .error .contentLengthOverflow
      | some n => decimal n rest

def parseU64 : Except ParseError Nat :=
  if b.isEmpty then .error .emptyContentLength else decimal 0 b

def hexDigit (c : UInt8) : Option Nat :=
  if 48 ≤ c && c ≤ 57 then some (c - 48).toNat
  else if 97 ≤ c && c ≤ 102 then some ((c - 97).toNat + 10)
  else if 65 ≤ c && c ≤ 70 then some ((c - 65).toNat + 10)
  else none

/-- The loop of `parse_chunk_size`. -/
def hexadecimal (n : Nat) : Bytes → Except ParseError Nat
  | [] => .ok n
  | c :: rest =>
    match hexDigit c with
    | none => .error .invalidChunkSize
    | some d =>
      match (checkedMul n 16).bind fun n => checkedAdd n d with
      | none => .error .chunkSizeOverflow
      | some n => hexadecimal n rest

/-- Hex chunk size, ignoring any `;ext=...` suffix. -/
def parseChunkSize : Except ParseError Nat :=
  let b := match memchr 59 b with
    | some i => b.take i
    | none => b
  let b := trimOws b
  if b.isEmpty then .error .emptyChunkSize else hexadecimal 0 b

def chunked : Bytes := ascii ['c', 'h', 'u', 'n', 'k', 'e', 'd']

/-- The verdict on one list element: an empty one leaves the last verdict alone. -/
def coding (last : Option Bool) (token : Bytes) : Option Bool :=
  let token := trimOws token
  if token.isEmpty then last else some (ciEq token chunked)

/-- The loop of `final_coding`; `token` is the slice since `start`. -/
def codings (last : Option Bool) (token : Bytes) (quoted escaped : Bool) :
    Bytes → Except ParseError (Option Bool)
  | [] => if quoted then .error .unterminatedParameter else .ok (coding last token)
  | byte :: rest =>
    if escaped then codings last (token ++ [byte]) quoted false rest
    else if quoted && byte = 92 then codings last (token ++ [byte]) quoted true rest
    else if byte = 34 then codings last (token ++ [byte]) (!quoted) false rest
    else if !quoted && byte = 44 then codings (coding last token) [] quoted false rest
    else codings last (token ++ [byte]) quoted false rest

/-- The last nonempty coding, honoring quoted commas in parameters. -/
def finalCoding (value : Bytes) : Except ParseError (Option Bool) :=
  let value := trimOws value
  if ciEq value chunked then .ok (some true) else codings none [] false false value

def contentLengthName : Bytes :=
  ascii ['c', 'o', 'n', 't', 'e', 'n', 't', '-', 'l', 'e', 'n', 'g', 't', 'h', ':']

def connectionName : Bytes :=
  ascii ['c', 'o', 'n', 'n', 'e', 'c', 't', 'i', 'o', 'n', ':']

def transferEncodingName : Bytes :=
  ascii ['t', 'r', 'a', 'n', 's', 'f', 'e', 'r', '-', 'e', 'n', 'c', 'o', 'd', 'i', 'n', 'g', ':']

/-- One token of a `Connection` field. -/
def Head.connectionToken (h : Head) (token : Bytes) : Head :=
  let token := trimOws token
  if ciEq token (ascii ['c', 'l', 'o', 's', 'e']) then { h with close := true }
  else if ciEq token (ascii ['k', 'e', 'e', 'p', '-', 'a', 'l', 'i', 'v', 'e']) then
    { h with keepAliveToken := true }
  else h

/-- A nonempty header line, its line ending already off. -/
def Head.headerLine (h : Head) (line : Bytes) : Except ParseError Head :=
  let first := line.headD 0 ||| 0x20
  if first = 99 && ciPrefix line contentLengthName then
    match parseU64 (trimOws (line.drop 15)) with
    | .error e => .error e
    | .ok n =>
      if h.contentLength.any fun prev => prev ≠ n then .error .conflictingContentLength
      else .ok { h with contentLength := some n }
  else if first = 99 && ciPrefix line connectionName then
    .ok (((line.drop 11).splitOn 44).foldl Head.connectionToken h)
  else if first = 116 && ciPrefix line transferEncodingName then
    match finalCoding (line.drop 18) with
    | .error e => .error e
    | .ok none => .ok { h with tePresent := true }
    | .ok (some c) => .ok { h with tePresent := true, teChunked := c }
  else .ok h

/-- The empty line: Transfer-Encoding overrides Content-Length, and its final coding decides
whether the body is chunked or close-delimited. -/
def Head.finish (h : Head) : ResponseHead :=
  { status := h.status
    body :=
      if h.tePresent then if h.teChunked then .chunkSize else .eof
      else
        match h.contentLength with
        | some n => .exact n
        | none => .eof
    keepAlive :=
      if h.http10 then h.keepAliveToken && !h.close && !h.tePresent else !h.close }

/-- The status line: `nl` is where the first newline of `buf` is. -/
def statusLine (buf : Bytes) (nl : Nat) : Except ParseError Head :=
  if nl < 12 || !(ascii ['H', 'T', 'T', 'P', '/', '1', '.']).isPrefixOf buf then .error .notHttp1
  else if buf.getD 7 0 ≠ 48 && buf.getD 7 0 ≠ 49 then .error .unsupportedVersion
  else if buf.getD 8 0 ≠ 32 then .error .malformedStatusLine
  else
    match parseStatus (buf.getD 9 0) (buf.getD 10 0) (buf.getD 11 0) with
    | .error e => .error e
    | .ok status =>
      if buf.getD 12 0 ≠ 32 && buf.getD 12 0 ≠ cr && buf.getD 12 0 ≠ lf then
        .error .malformedStatusLine
      else
        .ok { contentLength := none, status := status, http10 := buf.getD 7 0 = 48,
              tePresent := false, teChunked := false, close := false, keepAliveToken := false }

/-! ## `scan_head` -/

/-- What `scan_head` reports: how much it consumed, and the head if it is complete. -/
abbrev Scan := Except ParseError (Nat × Option ResponseHead)

/-- The loop of `scan_head` over header lines; `pos` is how much came before `rest`. -/
def scanLines (head : Head) (rest : Bytes) (pos : Nat) : Scan × Option Head :=
  match _ : memchr lf rest with
  | none => (.ok (pos, none), some head)
  | some rel =>
    let line := trimCr (rest.take rel)
    if line.isEmpty then (.ok (pos + (rel + 1), some head.finish), none)
    else
      match head.headerLine line with
      | .error e => (.error e, none)
      | .ok head => scanLines head (rest.drop (rel + 1)) (pos + (rel + 1))
termination_by rest.length
decreasing_by
  have := (memchr_some ‹_›).2.2
  rw [List.length_drop]
  omega

/-- Consume complete lines, keeping metadata across receives. -/
def scanHead (buf : Bytes) (incomplete : Option Head) : Scan × Option Head :=
  match incomplete with
  | some head => scanLines head buf 0
  | none =>
    match memchr lf buf with
    | none => (.ok (0, none), none)
    | some nl =>
      match statusLine buf nl with
      | .error e => (.error e, none)
      | .ok head => scanLines head (buf.drop (nl + 1)) (nl + 1)

theorem scanLines_unfinished {rest : Bytes} (h : lf ∉ rest) (head : Head) (pos : Nat) :
    scanLines head rest pos = (.ok (pos, none), some head) := by
  rw [scanLines.eq_def]
  split
  · rfl
  · simp_all [memchr_eq_none h]

theorem scanLines_line {line : Bytes} (h : lf ∉ line) (head : Head) (rest : Bytes) (pos : Nat) :
    scanLines head (line ++ lf :: rest) pos =
      if (trimCr line).isEmpty then (.ok (pos + (line.length + 1), some head.finish), none)
      else
        match head.headerLine (trimCr line) with
        | .error e => (.error e, none)
        | .ok head => scanLines head rest (pos + (line.length + 1)) := by
  rw [scanLines.eq_def]
  split
  · simp_all [memchr_append h]
  · rename_i rel hrel
    rw [memchr_append h, Option.some.injEq] at hrel
    subst hrel
    have htake : (line ++ lf :: rest).take line.length = line := by simp
    have hdrop : (line ++ lf :: rest).drop (line.length + 1) = rest := by
      simp [List.drop_append]
    rw [htake, hdrop]

theorem scanLines_progress {rest : Bytes} : ∀ {head : Head} {pos used : Nat}
    {done : ResponseHead} {incomplete : Option Head},
    scanLines head rest pos = (.ok (used, some done), incomplete) →
    pos < used ∧ used ≤ pos + rest.length := by
  induction rest using lines_induction with
  | unfinished buf hno =>
    intro head pos used done incomplete h
    simp [scanLines_unfinished hno] at h
  | line line rest hno ih =>
    intro head pos used done incomplete h
    rw [List.length_append, List.length_cons]
    rw [scanLines_line hno] at h
    split at h
    · simp only [Prod.mk.injEq, Except.ok.injEq] at h
      omega
    · split at h
      · simp at h
      · have := ih h
        omega

theorem scanHead_progress {buf : Bytes} {partialHead incomplete : Option Head} {used : Nat}
    {done : ResponseHead} (h : scanHead buf partialHead = (.ok (used, some done), incomplete)) :
    0 < used ∧ used ≤ buf.length := by
  unfold scanHead at h
  cases partialHead with
  | some head =>
    have := scanLines_progress h
    omega
  | none =>
    cases hnl : memchr lf buf with
    | none => simp [hnl] at h
    | some nl =>
      simp only [hnl] at h
      split at h
      · simp at h
      · have := scanLines_progress h
        rw [List.length_drop] at this
        omega

/-! ## `run` -/

/-- A scanner of heads with its own memory `H`. A complete head is not empty: this is what
bounds the loop around it. -/
structure HeadScanner (H : Type) where
  scan : Bytes → H → Scan × H
  progress : ∀ {buf h used head h'}, scan buf h = (.ok (used, some head), h') →
    0 < used ∧ used ≤ buf.length

/-- Where in a response the reader is, and what it says about the last one. -/
structure Reader where
  state : State
  /-- Status code of the response being read. -/
  status : Nat
  /-- Whether the connection can be reused after that response. -/
  keepAlive : Bool
  /-- Whether the request was a HEAD, whose response never has a body. -/
  headRequest : Bool
  deriving DecidableEq, Repr

/-- Responses that never carry a body, whatever the framing headers say. -/
def noBodyStatus (status : Nat) : Bool := status = 204 || status = 304

/-- A complete head, informational or final. -/
def Reader.onHead (r : Reader) (head : ResponseHead) : Except ParseError Reader :=
  if isInformational head.status then
    if head.status = 101 then .error .switchingProtocols
    else .ok { r with state := .head }
  else
    let body := if r.headRequest || noBodyStatus head.status then .exact 0 else head.body
    .ok { r with
      status := head.status
      keepAlive := head.keepAlive && body ≠ .eof
      state := .body body }

/-- One turn of the loop: it fails, returns, or goes round again. -/
inductive Turn (H : Type) where
  | fail (e : ParseError) (r : Reader) (h : H)
  | stop (used : Nat) (r : Reader) (h : H)
  | next (used done : Nat) (r : Reader) (h : H)

/-- The CRLF that ends a chunk, of which `left` bytes are still to come: what of it is in
the `take` bytes before the cut must be right. -/
def badTerminator (taken : Bytes) (left : Nat) : Bool :=
  left < 2 && !taken.isEmpty &&
    let stop := 2 - left
    let len := min taken.length stop
    taken.drop (taken.length - len) ≠ ([cr, lf].take stop).drop (stop - len)

/-- One turn of the loop of `run`; `rest` is `buf[pos..]`. -/
def turn {H : Type} (scanner : HeadScanner H) (r : Reader) (h : H) (rest : Bytes) : Turn H :=
  match r.state with
  | .head =>
    match scanner.scan rest h with
    | (.error e, h) => .fail e r h
    | (.ok (used, none), h) => .stop used r h
    | (.ok (used, some head), h) =>
      match r.onHead head with
      | .error e => .fail e r h
      | .ok r => .next used 0 r h
  | .body (.exact 0) => .next 0 1 { r with state := .head } h
  | .body (.exact n) =>
    let take := min n rest.length
    let r := { r with state := .body (.exact (n - take)) }
    if take = rest.length ∧ take < n then .stop take r h else .next take 0 r h
  | .body .chunkSize =>
    match memchr lf rest with
    | none => .stop 0 r h
    | some nl =>
      match parseChunkSize (trimCr (rest.take nl)) with
      | .error e => .fail e r h
      | .ok size =>
        if size = 0 then .next (nl + 1) 0 { r with state := .body .trailers } h
        else
          match checkedAdd size 2 with
          | none => .fail .chunkSizeOverflow r h
          | some want => .next (nl + 1) 0 { r with state := .body (.chunk want) } h
  | .body (.chunk n) =>
    let take := min n rest.length
    if badTerminator (rest.take take) (n - take) then .fail .invalidChunkTerminator r h
    else if take < n then .stop take { r with state := .body (.chunk (n - take)) } h
    else .next take 0 { r with state := .body .chunkSize } h
  | .body .trailers =>
    match memchr lf rest with
    | none => .stop 0 r h
    | some nl =>
      if (trimCr (rest.take nl)).isEmpty then .next (nl + 1) 1 { r with state := .head } h
      else .next (nl + 1) 0 r h
  | .body .eof => .stop rest.length r h

/-- States the loop leaves without consuming anything. -/
def State.rank : State → Nat
  | .body (.exact _) => 1
  | .body (.chunk _) => 1
  | _ => 0

/-- Going round again, the loop has consumed a byte or left a state of rank one. -/
theorem turn_decreases {H : Type} {scanner : HeadScanner H} {r r' : Reader} {h h' : H}
    {rest : Bytes} {used done : Nat} (ht : turn scanner r h rest = .next used done r' h') :
    2 * (rest.drop used).length + r'.state.rank < 2 * rest.length + r.state.rank := by
  have hrank : ∀ s : State, s.rank ≤ 1 := fun s => by
    unfold State.rank
    split <;> omega
  -- a turn that consumes something may end anywhere
  have hused : 0 < used → used ≤ rest.length →
      2 * (rest.drop used).length + r'.state.rank < 2 * rest.length + r.state.rank := by
    intro h0 hle
    have := hrank r'.state
    rw [List.length_drop]
    omega
  unfold turn at ht
  split at ht
  · split at ht
    · simp at ht
    · simp at ht
    · rename_i used' head h'' hscan
      have hprog := scanner.progress hscan
      split at ht
      · simp at ht
      · simp only [Turn.next.injEq] at ht
        exact hused (by omega) (by omega)
  · rename_i hstate
    obtain ⟨rfl, -, rfl, -⟩ := ht
    simp [hstate, State.rank]
  · rename_i n hn hstate
    have hpos : n ≠ 0 := hn
    simp only at ht
    split at ht
    · simp at ht
    · simp only [Turn.next.injEq] at ht
      exact hused (by omega) (by omega)
  · split at ht
    · simp at ht
    · rename_i nl hnl
      have hlt := (memchr_some hnl).2.2
      split at ht
      · simp at ht
      · split at ht
        · simp only [Turn.next.injEq] at ht
          exact hused (by omega) (by omega)
        · split at ht
          · simp at ht
          · simp only [Turn.next.injEq] at ht
            exact hused (by omega) (by omega)
  · rename_i n hstate
    simp only at ht
    split at ht
    · simp at ht
    · split at ht
      · simp at ht
      · simp only [Turn.next.injEq] at ht
        obtain ⟨rfl, -, rfl, -⟩ := ht
        simp only [hstate, State.rank, List.length_drop]
        omega
  · split at ht
    · simp at ht
    · rename_i nl hnl
      have hlt := (memchr_some hnl).2.2
      split at ht <;>
      · simp only [Turn.next.injEq] at ht
        exact hused (by omega) (by omega)
  · simp at ht

/-- The loop of `run`, from `pos` on with `done` responses behind it. -/
def runWith {H : Type} (scanner : HeadScanner H) (r : Reader) (h : H) (rest : Bytes)
    (pos done : Nat) : Except ParseError (Nat × Nat) × Reader × H :=
  match _ : turn scanner r h rest with
  | .fail e r h => (.error e, r, h)
  | .stop used r h => (.ok (pos + used, done), r, h)
  | .next used d r h => runWith scanner r h (rest.drop used) (pos + used) (done + d)
termination_by 2 * rest.length + r.state.rank
decreasing_by exact turn_decreases ‹_›

/-- The response a close completes: a close-delimited one. -/
def Reader.markEof (r : Reader) : Bool × Reader :=
  if r.state = .body .eof then (true, { r with state := .head, keepAlive := false })
  else (false, r)

/-! ## `Parser` -/

structure Parser extends Reader where
  /-- Bytes of one incomplete line carried over from earlier receives. -/
  pending : Bytes
  /-- Metadata of an incomplete header block. -/
  partialHead : Option Head
  deriving DecidableEq, Repr

namespace Parser

def new : Parser :=
  { pending := [], state := .head, partialHead := none, status := 0, keepAlive := true,
    headRequest := false }

variable (p : Parser)

/-- Forget any partially received message. -/
def reset : Parser :=
  { p with pending := [], partialHead := none, state := .head, status := 0, keepAlive := true }

def setHeadRequest (head : Bool) : Parser := { p with headRequest := head }

def scanner : HeadScanner (Option Head) := ⟨scanHead, scanHead_progress⟩

/-- Advance over `buf`: bytes consumed and responses completed. -/
def run (buf : Bytes) : Except ParseError (Nat × Nat) × Parser :=
  match runWith scanner p.toReader p.partialHead buf 0 0 with
  | (out, r, h) => (out, { r with pending := p.pending, partialHead := h })

/-- Consume received bytes and return how many responses completed. -/
def feed (data : Bytes) : Except ParseError Nat × Parser :=
  if p.pending.isEmpty then
    match p.run data with
    | (.error e, p) => (.error e, p)
    | (.ok (used, done), p) => (.ok done, { p with pending := p.pending ++ data.drop used })
  else
    match memchr lf data with
    | none => (.ok 0, { p with pending := p.pending ++ data })
    | some nl =>
      -- complete the one unfinished line, then parse what follows it in place
      match { p with pending := [] }.run (p.pending ++ data.take (nl + 1)) with
      | (.error e, p) => (.error e, p)
      | (.ok (_, done), p) =>
        match p.run (data.drop (nl + 1)) with
        | (.error e, p) => (.error e, p)
        | (.ok (used, more), p) =>
          (.ok (done + more), { p with pending := p.pending ++ (data.drop (nl + 1)).drop used })

/-- The peer closed the connection. -/
def markEof (p : Parser) : Bool × Parser :=
  match p.toReader.markEof with
  | (done, r) => (done, { p with toReader := r })

end Parser
end Shb.Http1
