import Mathlib.Tactic.Set
import Shb.Http1.Machine
import Shb.Http1.Reference

/-!
# The loop of `run` is the byte machine

`run` deals with a receive in stretches: a whole head, the part of a body that is there, a
line. Each turn of its loop is shown to do what the machine of `Machine` does on the bytes it
consumed, and the loop as a whole what the machine does on the buffer — up to what is left
over, which the machine reads without completing anything.

The argument is made once for any scanner that reads heads the way the machine does
(`Scans`). The incremental scanner does, with its partial head as the machine's; so does the
reference's, which remembers nothing and whose leftover is the head so far.
-/

namespace Shb.Http1

open Shb.Lib Http1.Parser

/-! ## Heads, line by line -/

variable (line rest : Bytes)

/-- The status line is decided by its own bytes. -/
theorem statusLine_append :
    statusLine (line ++ lf :: rest) line.length = statusLine (line ++ [lf]) line.length := by
  by_cases hlen : line.length < 12
  · simp [statusLine, hlen]
  · have hget : ∀ i, i ≤ 12 → (line ++ lf :: rest).getD i 0 = (line ++ [lf]).getD i 0 := by
      intro i hi
      simp only [List.getD_eq_getElem?_getD]
      by_cases hlt : i < line.length
      · rw [List.getElem?_append_left hlt, List.getElem?_append_left hlt]
      · have hi' : i = line.length := by omega
        rw [List.getElem?_append_right (by omega), List.getElem?_append_right (by omega), hi']
        simp
    have hhttp : ∀ tail, (ascii ['H', 'T', 'T', 'P', '/', '1', '.']).isPrefixOf (line ++ tail) =
        (ascii ['H', 'T', 'T', 'P', '/', '1', '.']).isPrefixOf line := by
      intro tail
      rw [Bool.eq_iff_iff, List.isPrefixOf_iff_prefix, List.isPrefixOf_iff_prefix]
      constructor
      · intro h
        refine List.prefix_of_prefix_length_le h (List.prefix_append _ _) ?_
        simp [ascii]
        omega
      · exact fun h => h.trans (List.prefix_append _ _)
    unfold statusLine
    rw [hhttp, hhttp, hget 7 (by omega), hget 8 (by omega), hget 9 (by omega),
      hget 10 (by omega), hget 11 (by omega), hget 12 (by omega)]

theorem take_line (k : Nat) :
    (line ++ lf :: rest).take (line.length + 1 + k) = (line ++ [lf]) ++ rest.take k := by
  rw [show line ++ lf :: rest = (line ++ [lf]) ++ rest by simp, List.take_append]
  simp [List.take_of_length_le]

theorem drop_line (k : Nat) : (line ++ lf :: rest).drop (line.length + 1 + k) = rest.drop k := by
  rw [show line ++ lf :: rest = (line ++ [lf]) ++ rest by simp, List.drop_append]
  simp

/-- A whole head, or what stops it: the machine's reading of the bytes `scan_head` took. -/
def headDone (r : Reader) (head : ResponseHead) (q : Parser) :
    Except (ParseError × Parser) (Nat × Parser) :=
  match r.onHead head with
  | .error e => .error (e, q)
  | .ok r => .ok (settled r none)

variable {line : Bytes} {r : Reader}

theorem consume_headLine (hr : r.state = .head) (head : Head) (hno : lf ∉ line) :
    consume byte (clean r (some head)) (line ++ [lf]) =
      if (trimCr line).isEmpty then
        headDone r head.finish (holding r (some head) line)
      else
        match head.headerLine (trimCr line) with
        | .error e => .error (e, (holding r (some head) line))
        | .ok head => .ok (0, clean r (some head)) := by
  rw [consume_line (by simp [hr, State.readsLines]) _ hno]
  have hbyte : (holding r (some head) line).byte lf =
      (holding r (some head) line).headLine := by
    simp [byte, holding, hr]
  rw [hbyte]
  cases hempty : (trimCr line).isEmpty with
  | true =>
    simp only [headLine, holding, headDone, hempty, if_true]
    cases r.onHead head.finish <;> rfl
  | false =>
    simp only [headLine, holding, hempty, Bool.false_eq_true, if_false]
    cases head.headerLine (trimCr line) with
    | error e => rfl
    | ok head' =>
      simp only [settled_eq (r := r) (by simp [hr]) (by simp [hr]) (some head')]

theorem consume_statusLine (hr : r.state = .head) (hno : lf ∉ line) :
    consume byte (clean r none) (line ++ [lf]) =
      match statusLine (line ++ [lf]) line.length with
      | .error e => .error (e, (holding r none line))
      | .ok head => .ok (0, clean r (some head)) := by
  rw [consume_line (by simp [hr, State.readsLines]) _ hno]
  have hbyte : (holding r none line).byte lf =
      (holding r none line).headLine := by
    simp [byte, holding, hr]
  rw [hbyte]
  simp only [headLine, holding]
  cases statusLine (line ++ [lf]) line.length with
  | error e => rfl
  | ok head =>
    simp only [settled_eq (r := r) (by simp [hr]) (by simp [hr]) (some head)]

/-- What a scan of `buf` means for the machine, `ph` being the head so far. -/
def Scanned (r : Reader) (ph : Option Head) (buf : Bytes) : Scan × Option Head → Prop
  | (.error e, _) => ∃ q, q.toReader = r ∧ consume byte (clean r ph) buf = .error (e, q)
  | (.ok (used, none), ph') => used ≤ buf.length ∧ lf ∉ buf.drop used ∧
      consume byte (clean r ph) (buf.take used) = .ok (0, clean r ph')
  | (.ok (used, some head), ph') => ph' = none ∧ used ≤ buf.length ∧
      ∃ q, q.toReader = r ∧ consume byte (clean r ph) (buf.take used) = headDone r head q

/-- A complete line in front of what was scanned. -/
theorem Scanned.after {ph ph' : Option Head} {rest : Bytes}
    (hthen : ∀ bs, consume byte (clean r ph) ((line ++ [lf]) ++ bs) = consume byte (clean r ph') bs)
    {out : Scan × Option Head} (h : Scanned r ph' rest out) :
    Scanned r ph (line ++ lf :: rest)
      (out.1.map fun x => (line.length + 1 + x.1, x.2), out.2) := by
  obtain ⟨out, ph''⟩ := out
  have hwhole : line ++ lf :: rest = (line ++ [lf]) ++ rest := by simp
  cases out with
  | error e =>
    obtain ⟨q, hq, hq'⟩ := h
    exact ⟨q, hq, by rw [hwhole, hthen]; exact hq'⟩
  | ok x =>
    obtain ⟨used, done⟩ := x
    cases done with
    | none =>
      obtain ⟨h1, h2, h3⟩ := h
      refine ⟨?_, ?_, ?_⟩
      · simp only [List.length_append, List.length_cons]
        omega
      · rw [drop_line]
        exact h2
      · rw [take_line, hthen]
        exact h3
    | some done =>
      obtain ⟨h1, h2, q, hq, h3⟩ := h
      refine ⟨h1, ?_, q, hq, ?_⟩
      · simp only [List.length_append, List.length_cons]
        omega
      · rw [take_line, hthen]
        exact h3

theorem scanned_lines (hr : r.state = .head) (rest : Bytes) :
    ∀ (head : Head) (pos : Nat), ∃ out : Scan × Option Head,
      Scanned r (some head) rest out ∧ scanLines head rest pos =
        (out.1.map fun x => (pos + x.1, x.2), out.2) := by
  induction rest using lines_induction with
  | unfinished buf hno =>
    intro head pos
    exact ⟨(.ok (0, none), some head), ⟨Nat.zero_le _, hno, rfl⟩, scanLines_unfinished hno head pos⟩
  | line line rest hno ih =>
    intro head pos
    have hlen : line.length + 1 ≤ (line ++ lf :: rest).length := by simp
    have htake := take_line line rest 0
    simp only [Nat.add_zero, List.take_zero, List.append_nil] at htake
    have hwhole : line ++ lf :: rest = (line ++ [lf]) ++ rest := by simp
    have hline := consume_headLine hr head hno
    rw [scanLines_line hno]
    cases hempty : (trimCr line).isEmpty with
    | true =>
      rw [hempty, if_pos rfl] at hline
      refine ⟨(.ok (line.length + 1, some head.finish), none),
        ⟨rfl, hlen, holding r (some head) line, rfl, ?_⟩, rfl⟩
      rw [htake]
      exact hline
    | false =>
      rw [hempty, if_neg Bool.false_ne_true] at hline
      cases hhead : head.headerLine (trimCr line) with
      | error e =>
        simp only [hhead] at hline
        refine ⟨(.error e, none), ⟨holding r (some head) line, rfl, ?_⟩, rfl⟩
        rw [hwhole, consume_append, hline, chain_error]
      | ok head' =>
        simp only [hhead] at hline
        obtain ⟨out, hout, heq⟩ := ih head' (pos + (line.length + 1))
        -- the line is behind the machine: what the scan says of the rest, it says of the whole
        have hthen : ∀ bs, consume byte (clean r (some head)) ((line ++ [lf]) ++ bs) =
            consume byte (clean r (some head')) bs := by
          intro bs
          rw [consume_append, hline, chain_zero]
        refine ⟨(out.1.map fun x => (line.length + 1 + x.1, x.2), out.2), hout.after hthen, ?_⟩
        simp only [heq]
        obtain ⟨out, ph⟩ := out
        cases out with
        | error e => rfl
        | ok x => simp [Except.map, Nat.add_assoc]

/-- `scan_head` reads a head the way the machine does. -/
theorem scanned_head (hr : r.state = .head) (buf : Bytes) (ph : Option Head) :
    Scanned r ph buf (scanHead buf ph) := by
  cases ph with
  | some head =>
    obtain ⟨out, hout, heq⟩ := scanned_lines hr buf head 0
    simp only [scanHead, heq, Nat.zero_add]
    obtain ⟨out, ph'⟩ := out
    cases out with
    | error e => exact hout
    | ok x => exact hout
  | none =>
    unfold scanHead
    cases hnl : memchr lf buf with
    | none => exact ⟨Nat.zero_le _, memchr_none hnl, rfl⟩
    | some nl =>
      obtain ⟨hbuf, hno, hlt⟩ := memchr_some hnl
      have hlen : (buf.take nl).length = nl := by
        rw [List.length_take]
        omega
      generalize buf.take nl = line at hbuf hno hlen
      generalize buf.drop (nl + 1) = rest at hbuf
      subst hbuf
      subst hlen
      have hdrop := drop_line line rest 0
      simp only [Nat.add_zero, List.drop_zero] at hdrop
      have hline := consume_statusLine hr hno
      have hwhole : line ++ lf :: rest = (line ++ [lf]) ++ rest := by simp
      simp only [hdrop]
      rw [statusLine_append]
      cases hs : statusLine (line ++ [lf]) line.length with
      | error e =>
        simp only [hs] at hline ⊢
        exact ⟨holding r none line, rfl, by rw [hwhole, consume_append, hline, chain_error]⟩
      | ok head =>
        simp only [hs] at hline ⊢
        have hthen : ∀ bs, consume byte (clean r none) ((line ++ [lf]) ++ bs) =
            consume byte (clean r (some head)) bs := by
          intro bs
          rw [consume_append, hline, chain_zero]
        obtain ⟨out, hout, heq⟩ := scanned_lines hr rest head (line.length + 1)
        rw [heq]
        exact hout.after hthen

/-! ## One turn of the loop -/

section
variable {H : Type}

/-- What a scan means for the machine when `view` is the head a scanner's memory stands for,
and `Left` what it may leave unread of an incomplete head. -/
def Read (view : H → Option Head) (Left : Bytes → Prop) (r : Reader) (h : H)
    (buf : Bytes) : Scan × H → Prop
  | (.error e, _) => ∃ q, q.toReader = r ∧ consume byte (clean r (view h)) buf = .error (e, q)
  | (.ok (used, none), h') => used ≤ buf.length ∧ Left (buf.drop used) ∧
      consume byte (clean r (view h)) (buf.take used) = .ok (0, clean r (view h')) ∧
      ∃ q, q.toReader = r ∧ consume byte (clean r (view h')) (buf.drop used) = .ok (0, q)
  | (.ok (used, some head), h') => view h' = none ∧ used ≤ buf.length ∧
      ∃ q, q.toReader = r ∧ consume byte (clean r (view h)) (buf.take used) = headDone r head q

/-- The scanner reads heads the way the machine does. -/
def Scans (scanner : HeadScanner H) (view : H → Option Head) (Left : Bytes → Prop) : Prop :=
  ∀ {r : Reader}, r.state = .head → ∀ buf h, Read view Left r h buf (scanner.scan buf h)

/-- The bytes a returning loop leaves unread: part of a line, or nothing. -/
structure Leftover (Left : Bytes → Prop) (r : Reader) (left : Bytes) : Prop where
  head : r.state = .head → Left left
  line : r.state ≠ .head → lf ∉ left
  body : r.state.readsLines = false → left = []
  not_exact : r.state ≠ .body (.exact 0)
  not_chunk : r.state ≠ .body (.chunk 0)

/-- The machine from where the loop is, whatever it does first without reading. -/
def consumeFrom (r : Reader) (ph : Option Head) (buf : Bytes) :
    Except (ParseError × Parser) (Nat × Parser) :=
  chain (.ok (settled r ph)) fun p => consume byte p buf

variable {r : Reader}

theorem consumeFrom_eq (he : r.state ≠ .body (.exact 0)) (hc : r.state ≠ .body (.chunk 0))
    (ph : Option Head) (buf : Bytes) : consumeFrom r ph buf = consume byte (clean r ph) buf := by
  rw [consumeFrom, settled_eq he hc, chain_zero]

theorem consumeFrom_append (r : Reader) (ph : Option Head) (xs ys : Bytes) :
    consumeFrom r ph (xs ++ ys) = chain (consumeFrom r ph xs) fun p => consume byte p ys := by
  simp only [consumeFrom, consume_append, chain_assoc]

/-- What one turn means for the machine. -/
def Turned (view : H → Option Head) (Left : Bytes → Prop) (r : Reader) (h : H)
    (rest : Bytes) : Turn H → Prop
  | .fail e r' _ => ∃ q : Parser, q.answers = r'.answers ∧
      consumeFrom r (view h) rest = .error (e, q)
  | .stop used r' h' => used ≤ rest.length ∧ Leftover Left r' (rest.drop used) ∧
      consumeFrom r (view h) (rest.take used) = .ok (0, clean r' (view h')) ∧
      ∃ q, q.toReader = r' ∧ consume byte (clean r' (view h')) (rest.drop used) = .ok (0, q)
  | .next used done r' h' => used ≤ rest.length ∧
      consumeFrom r (view h) (rest.take used) =
        .ok (done + (settled r' (view h')).1, (settled r' (view h')).2)

variable {scanner : HeadScanner H} {view : H → Option Head} {Left : Bytes → Prop}

theorem turned_head (hs : Scans scanner view Left) (hr : r.state = .head) (h : H)
    (rest : Bytes) : Turned view Left r h rest (turn scanner r h rest) := by
  have hfrom := consumeFrom_eq (by simp [hr]) (by simp [hr]) (r := r) (view h)
  have hread := hs hr rest h
  unfold turn
  simp only [hr]
  cases hscan : scanner.scan rest h with
  | mk out h' =>
    rw [hscan] at hread
    cases out with
    | error e =>
      obtain ⟨q, hq, hq'⟩ := hread
      exact ⟨q, by rw [hq], by rw [hfrom]; exact hq'⟩
    | ok x =>
      obtain ⟨used, done⟩ := x
      cases done with
      | none =>
        obtain ⟨hle, hleft, hconsume, q, hq, hq'⟩ := hread
        refine ⟨hle, ⟨fun _ => hleft, fun h => absurd hr h, ?_, by simp [hr], by simp [hr]⟩, ?_,
          q, hq, hq'⟩
        · simp [hr, State.readsLines]
        · rw [hfrom]
          exact hconsume
      | some head =>
        obtain ⟨hview, hle, q, hq, hq'⟩ := hread
        simp only
        cases hon : r.onHead head with
        | error e =>
          rw [headDone, hon] at hq'
          refine ⟨q, by rw [hq], ?_⟩
          rw [hfrom, ← List.take_append_drop used rest, consume_append, hq', chain_error]
        | ok r' =>
          rw [headDone, hon] at hq'
          refine ⟨hle, ?_⟩
          rw [hfrom, hq', hview, Nat.zero_add]

theorem turned_exact {n : Nat} (hr : r.state = .body (.exact n)) (h : H) (rest : Bytes) :
    Turned view Left r h rest (turn scanner r h rest) := by
  obtain ⟨state, status, keepAlive, headRequest⟩ := r
  subst hr
  cases n with
  | zero => exact ⟨Nat.zero_le _, rfl⟩
  | succ n =>
    set r : Reader := ⟨.body (.exact (n + 1)), status, keepAlive, headRequest⟩
    have htake : (rest.take (min (n + 1) rest.length)).length = min (n + 1) rest.length := by
      rw [List.length_take]
      omega
    have hconsume := consume_exact r (view h) (rest.take (min (n + 1) rest.length))
      (n := n + 1) (by omega) (by omega)
    rw [htake] at hconsume
    have hfrom := consumeFrom_eq (r := r) (by simp [r]) (by simp [r]) (view h)
    show Turned view Left r h rest (if _ then _ else _)
    split
    · rename_i hstop
      -- the body goes on past the buffer
      have hne : n + 1 - min (n + 1) rest.length ≠ 0 := by omega
      rw [settled_eq (by simpa using hne) (by simp)] at hconsume
      have hdrop : rest.drop (min (n + 1) rest.length) = [] := by
        rw [List.drop_eq_nil_iff]
        omega
      refine ⟨by omega, ⟨by simp, by simp [hdrop], fun _ => hdrop, by simpa using hne, by simp⟩,
        ?_, clean { r with state := .body (.exact (n + 1 - min (n + 1) rest.length)) } (view h),
        rfl, ?_⟩
      · rw [hfrom]
        exact hconsume
      · rw [hdrop]
        rfl
    · refine ⟨by omega, ?_⟩
      rw [hfrom, Nat.zero_add]
      exact hconsume

/-- A line state with no newline in sight: the rest is part of a line. -/
theorem turned_unfinished (hr : r.state.readsLines = true) (hhead : r.state ≠ .head)
    {rest : Bytes} (hno : lf ∉ rest) (h : H) : Turned view Left r h rest (.stop 0 r h) := by
  have he : r.state ≠ .body (.exact 0) := fun h => by simp [h, State.readsLines] at hr
  have hc : r.state ≠ .body (.chunk 0) := fun h => by simp [h, State.readsLines] at hr
  refine ⟨Nat.zero_le _, ⟨fun h => absurd h hhead, fun _ => hno, ?_, he, hc⟩, ?_,
    holding r (view h) rest, rfl, consume_collect hr (view h) hno⟩
  · simp [hr]
  · rw [consumeFrom_eq he hc]
    rfl

/-- A line and its newline at the front of the buffer, as the machine reads them. -/
theorem consume_front (hr : r.state.readsLines = true) (ph : Option Head) {rest : Bytes}
    {nl : Nat} (hnl : memchr lf rest = some nl) :
    nl + 1 ≤ rest.length ∧
    consume byte (clean r ph) (rest.take (nl + 1)) =
      match (holding r ph (rest.take nl)).byte lf with
      | .error e => .error (e, holding r ph (rest.take nl))
      | .ok out => .ok out := by
  obtain ⟨-, hno, hlt⟩ := memchr_some hnl
  rw [memchr_take hnl]
  exact ⟨hlt, consume_line hr ph hno⟩

theorem turned_chunkSize (hr : r.state = .body .chunkSize) (h : H) (rest : Bytes) :
    Turned view Left r h rest (turn scanner r h rest) := by
  have hline : r.state.readsLines = true := by simp [hr, State.readsLines]
  have hfrom := consumeFrom_eq (r := r) (by simp [hr]) (by simp [hr]) (view h)
  unfold turn
  simp only [hr]
  cases hnl : memchr lf rest with
  | none => exact turned_unfinished hline (by simp [hr]) (memchr_none hnl) h
  | some nl =>
    obtain ⟨hle, hconsume⟩ := consume_front hline (view h) hnl
    have hbyte : (holding r (view h) (rest.take nl)).byte lf =
        (holding r (view h) (rest.take nl)).sizeLine := by simp [byte, holding, hr]
    rw [hbyte] at hconsume
    simp only [sizeLine, holding] at hconsume
    -- a line that is refused is refused in the whole buffer
    have hfail : ∀ {e q}, consume byte (clean r (view h)) (rest.take (nl + 1)) = .error (e, q) →
        consumeFrom r (view h) rest = .error (e, q) := by
      intro e q hq
      rw [hfrom, ← List.take_append_drop (nl + 1) rest, consume_append, hq, chain_error]
    simp only
    cases hsize : parseChunkSize (trimCr (rest.take nl)) with
    | error e =>
      simp only [hsize] at hconsume
      exact ⟨holding r (view h) (rest.take nl), rfl, hfail hconsume⟩
    | ok size =>
      simp only [hsize] at hconsume
      by_cases h0 : size = 0
      · rw [if_pos h0] at hconsume
        simp only [if_pos h0]
        exact ⟨hle, by rw [hfrom, hconsume, Nat.zero_add]⟩
      · rw [if_neg h0] at hconsume
        simp only [if_neg h0]
        cases hwant : checkedAdd size 2 with
        | none =>
          simp only [hwant] at hconsume
          exact ⟨holding r (view h) (rest.take nl), rfl, hfail hconsume⟩
        | some want =>
          simp only [hwant] at hconsume
          exact ⟨hle, by rw [hfrom, hconsume, Nat.zero_add]⟩

theorem turned_trailers (hr : r.state = .body .trailers) (h : H) (rest : Bytes) :
    Turned view Left r h rest (turn scanner r h rest) := by
  have hline : r.state.readsLines = true := by simp [hr, State.readsLines]
  have hfrom := consumeFrom_eq (r := r) (by simp [hr]) (by simp [hr]) (view h)
  unfold turn
  simp only [hr]
  cases hnl : memchr lf rest with
  | none => exact turned_unfinished hline (by simp [hr]) (memchr_none hnl) h
  | some nl =>
    obtain ⟨hle, hconsume⟩ := consume_front hline (view h) hnl
    have hbyte : (holding r (view h) (rest.take nl)).byte lf =
        .ok (holding r (view h) (rest.take nl)).trailerLine := by simp [byte, holding, hr]
    rw [hbyte] at hconsume
    simp only [trailerLine, holding] at hconsume
    simp only
    cases hempty : (trimCr (rest.take nl)).isEmpty with
    | true =>
      simp only [hempty, if_true] at hconsume
      exact ⟨hle, by rw [hfrom, hconsume]; rfl⟩
    | false =>
      simp only [hempty, Bool.false_eq_true, if_false] at hconsume
      refine ⟨hle, ?_⟩
      rw [hfrom, hconsume, settled_eq (by simp [hr]) (by simp [hr])]
      rfl

theorem turned_chunk {n : Nat} (hr : r.state = .body (.chunk n)) (h : H) (rest : Bytes) :
    Turned view Left r h rest (turn scanner r h rest) := by
  obtain ⟨state, status, keepAlive, headRequest⟩ := r
  subst hr
  cases n with
  | zero =>
    have hno : badTerminator ([] : Bytes) 0 = false := by simp [badTerminator]
    unfold turn
    exact ⟨Nat.zero_le _, rfl⟩
  | succ n =>
    set r : Reader := ⟨.body (.chunk (n + 1)), status, keepAlive, headRequest⟩
    set taken := min (n + 1) rest.length with htaken
    have htake : (rest.take taken).length = taken := by
      rw [List.length_take]
      omega
    obtain ⟨q, hq, hconsume⟩ := consume_chunk r (view h) (rest.take taken)
      (n := n + 1) (by omega) (by omega)
    have hbad := badTerminator_eq (rest.take taken) (n + 1) (by omega)
    rw [htake] at hconsume hbad
    rw [← hbad] at hconsume
    have hfrom := consumeFrom_eq (r := r) (by simp [r]) (by simp [r]) (view h)
    show Turned view Left r h rest
      (if badTerminator (rest.take taken) (n + 1 - taken) then .fail .invalidChunkTerminator r h
      else if taken < n + 1 then .stop taken { r with state := .body (.chunk (n + 1 - taken)) } h
      else .next taken 0 { r with state := .body .chunkSize } h)
    cases hterm : badTerminator (rest.take taken) (n + 1 - taken) with
    | true =>
      rw [hterm, if_pos rfl] at hconsume
      refine ⟨q, hq, ?_⟩
      rw [hfrom, ← List.take_append_drop taken rest, consume_append, hconsume, chain_error]
    | false =>
      rw [hterm, if_neg Bool.false_ne_true] at hconsume
      rw [if_neg Bool.false_ne_true]
      split
      · rename_i hlt
        have hne : n + 1 - taken ≠ 0 := by omega
        rw [settled_eq (by simp) (by simpa using hne)] at hconsume
        have hdrop : rest.drop taken = [] := by
          rw [List.drop_eq_nil_iff]
          omega
        refine ⟨by omega, ⟨by simp, by simp [hdrop], fun _ => hdrop, by simp, by simpa using hne⟩,
          ?_, clean { r with state := .body (.chunk (n + 1 - taken)) } (view h), rfl, ?_⟩
        · rw [hfrom]
          exact hconsume
        · rw [hdrop]
          rfl
      · have h0 : n + 1 - taken = 0 := by omega
        refine ⟨by omega, ?_⟩
        rw [hfrom, hconsume, h0]
        rfl

theorem turned_eof (hr : r.state = .body .eof) (h : H) (rest : Bytes) :
    Turned view Left r h rest (turn scanner r h rest) := by
  have hfrom := consumeFrom_eq (r := r) (by simp [hr]) (by simp [hr]) (view h)
  unfold turn
  simp only [hr]
  have hdrop : rest.drop rest.length = [] := List.drop_length
  refine ⟨Nat.le_refl _, ⟨by simp [hr], by simp, by simp, by simp [hr], by simp [hr]⟩, ?_,
    clean r (view h), rfl, ?_⟩
  · rw [hfrom]
    exact consume_eof (by simp [clean, holding, hr]) _
  · rw [hdrop]
    rfl

/-- Every turn of the loop does what the machine does. -/
theorem turned (hs : Scans scanner view Left) (r : Reader) (h : H) (rest : Bytes) :
    Turned view Left r h rest (turn scanner r h rest) := by
  cases hr : r.state with
  | head => exact turned_head hs hr h rest
  | body body =>
    cases body with
    | exact n => exact turned_exact hr h rest
    | chunkSize => exact turned_chunkSize hr h rest
    | chunk n => exact turned_chunk hr h rest
    | trailers => exact turned_trailers hr h rest
    | eof => exact turned_eof hr h rest

/-! ## The whole loop -/

/-- What the loop means for the machine: the same failure, or the same count and a state the
machine reaches from there on what is left over. -/
def Ran (view : H → Option Head) (Left : Bytes → Prop) (r : Reader) (h : H)
    (buf : Bytes) : Except ParseError (Nat × Nat) × Reader × H → Prop
  | (.error e, r', _) => ∃ q : Parser, q.answers = r'.answers ∧
      consumeFrom r (view h) buf = .error (e, q)
  | (.ok (used, done), r', h') => used ≤ buf.length ∧ Leftover Left r' (buf.drop used) ∧
      ∃ q, q.toReader = r' ∧ consumeFrom r (view h) buf = .ok (done, q) ∧
        consume byte (clean r' (view h')) (buf.drop used) = .ok (0, q)

/-- A turn that goes round again, and the loop from there. -/
theorem Ran.next {r' : Reader} {h h' : H} {rest : Bytes} {used done : Nat}
    (hle : used ≤ rest.length) (hturn : consumeFrom r (view h) (rest.take used) =
      .ok (done + (settled r' (view h')).1, (settled r' (view h')).2))
    {out : Except ParseError (Nat × Nat) × Reader × H}
    (hout : Ran view Left r' h' (rest.drop used) out) :
    Ran view Left r h rest (out.1.map fun x => (used + x.1, done + x.2), out.2) := by
  have hsplit : consumeFrom r (view h) rest =
      chain (.ok (done + (settled r' (view h')).1, (settled r' (view h')).2))
        fun p => consume byte p (rest.drop used) := by
    rw [← hturn, ← consumeFrom_append, List.take_append_drop]
  obtain ⟨out, r'', h''⟩ := out
  cases out with
  | error e =>
    obtain ⟨q, hq, hq'⟩ := hout
    refine ⟨q, hq, ?_⟩
    rw [hsplit]
    rw [consumeFrom] at hq'
    cases hc : consume byte (settled r' (view h')).2 (rest.drop used) with
    | error x =>
      rw [chain_ok_error hc] at hq' ⊢
      exact hq'
    | ok x =>
      rw [chain_ok_ok hc] at hq'
      exact absurd hq' (by simp)
  | ok x =>
    obtain ⟨n, m⟩ := x
    obtain ⟨hle', hleft, q, hq, hq', hq''⟩ := hout
    have hdrop : rest.drop (used + n) = (rest.drop used).drop n := by rw [List.drop_drop]
    rw [List.length_drop] at hle'
    refine ⟨by omega, by rw [hdrop]; exact hleft, q, hq, ?_, by rw [hdrop]; exact hq''⟩
    rw [hsplit]
    rw [consumeFrom] at hq'
    cases hc : consume byte (settled r' (view h')).2 (rest.drop used) with
    | error x =>
      rw [chain_ok_error hc] at hq'
      exact absurd hq' (by simp)
    | ok x =>
      rw [chain_ok_ok hc] at hq' ⊢
      simp only [Except.ok.injEq, Prod.mk.injEq] at hq' ⊢
      exact ⟨by omega, hq'.2⟩

/-- `run` is the machine on the whole buffer. -/
theorem ran (hs : Scans scanner view Left) (r : Reader) (h : H) (rest : Bytes)
    (pos done : Nat) : ∃ out, Ran view Left r h rest out ∧
      runWith scanner r h rest pos done =
        (out.1.map fun x => (pos + x.1, done + x.2), out.2) := by
  induction r, h, rest, pos, done using runWith.induct scanner with
  | case1 r h rest pos done e r' h' ht =>
    have hturn := turned hs r h rest
    rw [ht] at hturn
    refine ⟨(.error e, r', h'), hturn, ?_⟩
    rw [runWith.eq_def]
    split <;> simp_all [Except.map]
  | case2 r h rest pos done used r' h' ht =>
    have hturn := turned hs r h rest
    rw [ht] at hturn
    obtain ⟨hle, hleft, hconsume, q, hq, hq'⟩ := hturn
    refine ⟨(.ok (used, 0), r', h'), ⟨hle, hleft, q, hq, ?_, hq'⟩, ?_⟩
    · rw [← List.take_append_drop used rest, consumeFrom_append, hconsume, chain_zero, hq']
    · rw [runWith.eq_def]
      split <;> simp_all [Except.map]
  | case3 r h rest pos done used d r' h' ht ih =>
    have hturn := turned hs r h rest
    rw [ht] at hturn
    obtain ⟨out, hout, heq⟩ := ih
    refine ⟨_, hout.next hturn.1 hturn.2, ?_⟩
    have hstep : runWith scanner r h rest pos done =
        runWith scanner r' h' (rest.drop used) (pos + used) (done + d) := by
      rw [runWith.eq_def]
      split <;> simp_all
    rw [hstep, heq]
    obtain ⟨out, r'', h''⟩ := out
    cases out with
    | error e => rfl
    | ok x => simp [Except.map, Nat.add_assoc]

end

/-! ## The two scanners -/

/-- What the incremental scanner leaves of a head is part of a line. -/
theorem incremental_scans : Scans Parser.scanner (fun ph => ph) fun left => lf ∉ left := by
  intro r hr buf ph
  have hscan := scanned_head hr buf ph
  show Read _ _ r ph buf (scanHead buf ph)
  cases hout : scanHead buf ph with
  | mk out ph' =>
    rw [hout] at hscan
    cases out with
    | error e => exact hscan
    | ok x =>
      obtain ⟨used, done⟩ := x
      cases done with
      | none =>
        obtain ⟨hle, hno, hconsume⟩ := hscan
        exact ⟨hle, hno, hconsume, holding r ph' (buf.drop used), rfl,
          consume_collect (by simp [hr, State.readsLines]) ph' hno⟩
      | some head => exact hscan

/-- Bytes that `scan_head` takes for an incomplete head. -/
def IncompleteHead (buf : Bytes) : Prop :=
  ∃ used ph, scanHead buf none = (.ok (used, none), ph)

/-- The machine reads an incomplete head without completing anything. -/
theorem consume_incomplete (hr : r.state = .head) {buf : Bytes} {used : Nat}
    {ph : Option Head} (h : scanHead buf none = (.ok (used, none), ph)) :
    consume byte (clean r none) buf = .ok (0, holding r ph (buf.drop used)) := by
  have hscan := scanned_head hr buf none
  rw [h] at hscan
  obtain ⟨-, hno, hconsume⟩ := hscan
  rw [← List.take_append_drop used buf, consume_append, hconsume, chain_zero,
    List.take_append_drop]
  exact consume_collect (by simp [hr, State.readsLines]) ph hno

/-- The reference leaves the whole of an incomplete head. -/
theorem reference_scans : Scans Reference.scanner (fun _ => none) IncompleteHead := by
  intro r hr buf u
  have hscan := scanned_head hr buf none
  show Read _ _ r u buf (Reference.scan buf u)
  unfold Reference.scan
  rw [Reference.scanHead_eq]
  cases hout : scanHead buf none with
  | mk out ph =>
    rw [hout] at hscan
    cases out with
    | error e => exact hscan
    | ok x =>
      obtain ⟨used, done⟩ := x
      cases done with
      | none => exact ⟨Nat.zero_le _, ⟨used, ph, hout⟩, rfl, _, rfl, consume_incomplete hr hout⟩
      | some head => exact ⟨rfl, hscan.2⟩

end Shb.Http1
