import Shb.Http1.Fields
import Shb.Http1.Split

/-!
# The parser recognises what was sent

The byte machine is run over an encoded response: the lines of each head one by one, each
field onto the summary of those before it; then the body, by its length, or chunk by chunk and
trailer by trailer. What is inside a body is never looked at, whatever it looks like.

A length that does not fit a machine word is refused where it stands, so each part of a response
has two outcomes: it is read through, or the parser gives up in it. `Judged` states both, and
`Judged.append` puts the parts together.
-/

namespace Shb.Http1

open Shb.Lib Http1.Parser

theorem trimCr_concat (line : Bytes) : trimCr (line ++ [cr]) = line := by
  rw [trimCr, List.getLast?_concat, if_pos rfl, List.dropLast_concat]

theorem consume_crlf_eq {r : Reader} (hr : r.state.readsLines = true) (ph : Option Head)
    {line : Bytes} (hno : lf ∉ line) :
    consume byte (clean r ph) (line ++ crlf) =
      match (holding r ph (line ++ [cr])).byte lf with
      | .error e => .error (e, holding r ph (line ++ [cr]))
      | .ok out => .ok out := by
  have hnone : lf ∉ line ++ [cr] := by
    rw [List.mem_append]
    rintro (hmem | hmem)
    · exact hno hmem
    · exact absurd (List.mem_singleton.mp hmem) (by decide)
  have hline := consume_line hr ph hnone
  rw [List.append_assoc] at hline
  exact hline

theorem consume_crlf {r : Reader} (hr : r.state.readsLines = true) (ph : Option Head)
    {line : Bytes} (hno : lf ∉ line) {out : Nat × Parser}
    (hbyte : (holding r ph (line ++ [cr])).byte lf = .ok out) :
    consume byte (clean r ph) (line ++ crlf) = .ok out := by
  rw [consume_crlf_eq hr ph hno, hbyte]

/-! ## Two outcomes -/

/-- What comes of bytes whose lengths fit, and of bytes whose lengths do not. -/
structure Judged (fits : Prop) (x : Except (ParseError × Parser) (Nat × Parser))
    (out : Nat × Parser) : Prop where
  ok : fits → x = .ok out
  overflow : ¬fits → ∃ q, x = .error (.contentLengthOverflow, q)

namespace Judged

variable {fits fits' : Prop} {x : Except (ParseError × Parser) (Nat × Parser)} {out : Nat × Parser}

theorem of_ok (h : x = .ok out) : Judged True x out := ⟨fun _ => h, fun hnot => absurd trivial hnot⟩

theorem congr (h : Judged fits x out) (hiff : fits ↔ fits') : Judged fits' x out :=
  ⟨fun hf => h.ok (hiff.mpr hf), fun hf => h.overflow fun hfits => hf (hiff.mp hfits)⟩

variable {p p' : Parser} {n : Nat} {xs ys : Bytes}

/-- One part after another: the first that does not fit ends it. -/
theorem append (h : Judged fits (consume byte p xs) (n, p'))
    (h' : Judged fits' (consume byte p' ys) out) :
    Judged (fits ∧ fits') (consume byte p (xs ++ ys)) (n + out.1, out.2) := by
  rw [consume_append]
  refine ⟨fun hfits => ?_, fun hnot => ?_⟩
  · rw [h.ok hfits.1]
    exact chain_ok_ok (h'.ok hfits.2)
  · by_cases hfits : fits
    · obtain ⟨q, hq⟩ := h'.overflow fun hf => hnot ⟨hfits, hf⟩
      rw [h.ok hfits]
      exact ⟨q, chain_ok_error hq⟩
    · obtain ⟨q, hq⟩ := h.overflow hfits
      rw [hq]
      exact ⟨q, rfl⟩

theorem append_zero (h : Judged fits (consume byte p xs) (0, p'))
    (h' : Judged fits' (consume byte p' ys) out) :
    Judged (fits ∧ fits') (consume byte p (xs ++ ys)) out := by
  have hboth := h.append h'
  rwa [Nat.zero_add] at hboth

end Judged

/-! ## Heads -/

theorem statusLine_bytes {v a c d b : UInt8} (hv : v = 48 ∨ v = 49) (hb : b = 32 ∨ b = cr)
    {status : Nat} (hstatus : parseStatus a c d = .ok status) (tail : Bytes) :
    statusLine ([72, 84, 84, 80, 47, 49, 46, v, 32, a, c, d, b] ++ tail ++ [lf])
        ([72, 84, 84, 80, 47, 49, 46, v, 32, a, c, d, b] ++ tail).length =
      .ok { contentLength := none, status := status, http10 := decide (v = 48), tePresent := false,
            teChunked := false, close := false, keepAliveToken := false } := by
  have hversion : ¬ (¬ v = 48 ∧ ¬ v = 49) := fun h => hv.elim h.1 h.2
  have hend : ¬ ((¬ b = 32 ∧ ¬ b = cr) ∧ ¬ b = lf) := fun h => hb.elim h.1.1 h.1.2
  unfold statusLine
  simp only [ascii, hstatus, List.map_cons, List.map_nil, List.cons_append, List.nil_append,
    List.length_cons, List.getD_cons_succ, List.getD_cons_zero]
  simp [hversion, hend]

theorem statusLine_heading (h : Heading) :
    statusLine (h.encodeStatus ++ [cr] ++ [lf]) (h.encodeStatus ++ [cr]).length = .ok
      (h.summary []) := by
  obtain ⟨ha, hav⟩ := encode_digit h.hundreds
  obtain ⟨hc, hcv⟩ := encode_digit h.tens
  obtain ⟨hd, hdv⟩ := encode_digit h.ones
  have hstatus : parseStatus (UInt8.ofNat (48 + h.hundreds.val)) (UInt8.ofNat (48 + h.tens.val))
      (UInt8.ofNat (48 + h.ones.val)) = .ok h.status := by
    unfold parseStatus
    rw [ha, hc, hd, hav, hcv, hdv]
    rfl
  -- the code is followed by the space before the reason, or by the line ending
  obtain ⟨b, tail, hb, htail⟩ : ∃ b tail, (b = 32 ∨ b = cr) ∧
      (h.reason.elim [] fun text => 32 :: text) ++ [cr] = b :: tail := by
    cases h.reason with
    | none => exact ⟨cr, [], Or.inr rfl, rfl⟩
    | some text => exact ⟨32, text ++ [cr], Or.inl rfl, rfl⟩
  have hline : h.encodeStatus ++ [cr] = [72, 84, 84, 80, 47, 49, 46,
    if h.http10 then 48 else 49, 32,
      UInt8.ofNat (48 + h.hundreds.val), UInt8.ofNat (48 + h.tens.val),
        UInt8.ofNat (48 + h.ones.val), b] ++
      tail := by
    unfold Heading.encodeStatus
    rw [List.append_assoc, htail]
    rfl
  rw [hline, statusLine_bytes ?_ hb hstatus]
  · cases h' : h.http10 <;> simp [Heading.summary, h']
  · cases h.http10
    · exact Or.inr rfl
    · exact Or.inl rfl

/-! ## No line has a newline in it -/

theorem Ows.no_lf (w : Ows) : lf ∉ w.bytes := fun h => (ows_ne (w.blank lf h)).1 rfl

theorem Token.no_lf (t : Token) : lf ∉ t.bytes := fun h => (tchar_ne (t.tchars lf h)).1 rfl

theorem Element.no_lf {α : Type} {f : α → Bytes} (hf : ∀ a, lf ∉ f a) (e : Element α) :
    lf ∉ e.encode f := by
  unfold Element.encode
  rw [List.mem_append, List.mem_append]
  rintro (h | h | h)
  · exact e.before.no_lf h
  · cases hi : e.item with
    | none =>
      rw [hi] at h
      exact absurd h List.not_mem_nil
    | some a =>
      rw [hi] at h
      exact hf a h
  · exact e.after.no_lf h

theorem no_lf_encodeList {α : Type} {f : α → Bytes} (hf : ∀ a, lf ∉ f a) (es : List (Element α)) :
    lf ∉ encodeList f es := by
  unfold encodeList
  induction es with
  | nil => exact List.not_mem_nil
  | cons e es ih =>
    cases es with
    | nil => simpa using e.no_lf hf
    | cons e' es =>
      rw [List.map_cons, List.map_cons, List.intercalate_cons_cons, List.mem_append,
        List.mem_append]
      rintro ((h | h) | h)
      · exact e.no_lf hf h
      · exact absurd (List.mem_singleton.mp h) (by decide)
      · exact ih h

theorem QuotedByte.no_lf (q : QuotedByte) : lf ∉ q.encode := by
  cases q with
  | text b plain => simp [QuotedByte.encode, Ne.symm plain.2.2]
  | pair b plain =>
    have hslash : (92 : UInt8) ≠ lf := by decide
    simp [QuotedByte.encode, Ne.symm plain, Ne.symm hslash]

theorem Param.no_lf (p : Param) : lf ∉ p.encode := by
  have hvalue : lf ∉ p.value.encode := by
    cases p.value with
    | token t => exact t.no_lf
    | quoted bytes =>
      have hquote : lf ≠ 34 := by decide
      simp [ParamValue.encode, hquote, QuotedByte.no_lf]
  have hbytes : lf ≠ 59 ∧ lf ≠ 61 := by decide
  simp [Param.encode, Ows.no_lf, Token.no_lf, hvalue, hbytes]

theorem Coding.no_lf (c : Coding) : lf ∉ c.encode := by
  simp [Coding.encode, Token.no_lf, Param.no_lf]

theorem Field.no_lf (f : Field) : lf ∉ f.encode := by
  have hcolon : lf ≠ 58 := by decide
  have hname : lf ∉ f.name := fun h => (tchar_ne (f.tchars lf h)).1 rfl
  have hvalue : lf ∉ f.value := by
    cases f with
    | contentLength name before digits nonempty after =>
      have hdigits : lf ∉ encodeDecimal digits := fun h => (encodeDecimal_ne digits lf h).2 rfl
      simp [Field.value, Ows.no_lf, hdigits]
    | connection name options => exact no_lf_encodeList Token.no_lf options
    | transferEncoding name codings => exact no_lf_encodeList Coding.no_lf codings
    | other name unread value line => exact line
  simp [Field.encode, hname, hcolon, hvalue]

theorem Heading.no_lf (h : Heading) : lf ∉ h.encodeStatus := by
  have hdigits : lf ∉ encodeDecimal [h.hundreds, h.tens, h.ones] := fun hmem =>
    (encodeDecimal_ne _ lf hmem).2 rfl
  have hhttp : lf ∉ ascii ['H', 'T', 'T', 'P', '/', '1', '.'] := by decide
  have hversion : lf ∉ [if h.http10 then 48 else 49, 32] := by
    cases h.http10 <;> decide
  have hreason : lf ∉ h.reason.elim [] fun text => 32 :: text := by
    cases htext : h.reason with
    | none => exact List.not_mem_nil
    | some text =>
      have hspace : lf ≠ 32 := by decide
      simp [hspace, h.line text htext]
  unfold Heading.encodeStatus
  rw [List.mem_append, List.mem_append, List.mem_append]
  rintro (((h | h) | h) | h)
  · exact hhttp h
  · exact hversion h
  · exact hdigits h
  · exact hreason h

/-! ## Reading a head -/

section Head

variable {r : Reader} (hr : r.state = .head)

include hr

theorem byte_head (ph : Option Head) (line : Bytes) :
    (holding r ph line).byte lf = (holding r ph line).headLine := by
  have hstate : (holding r ph line).state = .head := hr
  unfold byte
  rw [hstate]
  rfl

theorem settled_head (ph : Option Head) : settled r ph = (0, clean r ph) :=
  settled_eq (by rw [hr]; nofun) (by rw [hr]; nofun) ph

theorem byte_status (h : Heading) :
    (holding r none (h.encodeStatus ++ [cr])).byte lf = .ok (0, clean r (some (h.summary []))) := by
  have hstatus := statusLine_heading h
  rw [byte_head hr, headLine]
  simp only [holding] at hstatus ⊢
  rw [hstatus]
  exact congrArg Except.ok (settled_head hr _)

theorem byte_field {head head' : Head} {line : Bytes} (hne : line ≠ [])
    (hline : head.headerLine line = .ok head') :
    (holding r (some head) (line ++ [cr])).byte lf = .ok (0, clean r (some head')) := by
  rw [byte_head hr, headLine]
  simp only [holding, trimCr_concat]
  rw [if_neg (by rwa [List.isEmpty_iff]), hline]
  exact congrArg Except.ok (settled_head hr _)

theorem byte_end {head : Head} {r' : Reader} (hhead : r.onHead head.finish = .ok r') :
    (holding r (some head) [cr]).byte lf = .ok (settled r' none) := by
  have hempty : trimCr [cr] = [] := rfl
  rw [byte_head hr, headLine]
  simp [holding, hempty, hhead]

end Head

/-- One field behind those already read. -/
theorem consume_field {r : Reader} (hr : r.state = .head) (h : Heading) (seen : List Field)
    (f : Field) (hagrees : ∀ m ∈ (seen ++ [f]).flatMap Field.lengths,
      ∀ n ∈ (seen ++ [f]).flatMap Field.lengths, m = n) :
    Judged (∀ n ∈ f.lengths, n < 2 ^ 64)
      (consume byte (clean r (some (h.summary seen))) (f.encode ++ crlf))
      (0, clean r (some (h.summary (seen ++ [f])))) := by
  have hlines : r.state.readsLines = true := by rw [hr]; rfl
  have hne : f.encode ≠ [] := by simp [Field.encode]
  refine ⟨fun hfits => ?_, fun hvast => ?_⟩
  · exact consume_crlf hlines _ f.no_lf (byte_field hr hne
      (headerLine_field h seen f hagrees hfits))
  · rw [consume_crlf_eq hlines _ f.no_lf, byte_head hr, headLine]
    simp only [holding, trimCr_concat]
    rw [if_neg (by rwa [List.isEmpty_iff]), headerLine_vast _ f hvast]
    exact ⟨_, rfl⟩

/-- The fields of a head, from those already read on. -/
theorem consume_fields {r : Reader} (hr : r.state = .head) (h : Heading) (hagrees : h.Agrees)
    (fs : List Field) : ∀ seen, seen ++ fs = h.fields →
    Judged (∀ n ∈ fs.flatMap Field.lengths, n < 2 ^ 64)
      (consume byte (clean r (some (h.summary seen))) (fs.flatMap fun f => f.encode ++ crlf))
      (0, clean r (some (h.summary h.fields))) := by
  induction fs with
  | nil =>
    intro seen hseen
    rw [List.append_nil] at hseen
    rw [hseen]
    exact (Judged.of_ok rfl).congr (by simp)
  | cons f fs ih =>
    intro seen hseen
    have hnext : (seen ++ [f]) ++ fs = h.fields := by rw [← hseen, List.append_assoc]; rfl
    have hmem : ∀ n ∈ (seen ++ [f]).flatMap Field.lengths, n ∈ h.lengths := by
      intro n hn
      unfold Heading.lengths
      rw [← hnext, List.flatMap_append]
      exact List.mem_append_left _ hn
    have hone := consume_field hr h seen f fun m hm n hn => hagrees m (hmem m hm) n (hmem n hn)
    exact (hone.append_zero (ih _ hnext)).congr List.forall_mem_append.symm

theorem consume_heading {r r' : Reader} (hr : r.state = .head) {h : Heading}
    (hagrees : h.Agrees) (hhead : r.onHead (h.summary h.fields).finish = .ok r') :
    Judged h.Fits (consume byte (clean r none) h.encode) (settled r' none) := by
  have hlines : r.state.readsLines = true := by rw [hr]; rfl
  have hend := consume_crlf hlines (some (h.summary h.fields)) List.not_mem_nil
    (by rw [List.nil_append]; exact byte_end hr hhead)
  have hfields := consume_fields hr h hagrees h.fields [] (List.nil_append _)
  have hstatus := Judged.of_ok (consume_crlf hlines none h.no_lf (byte_status hr h))
  refine ((hstatus.append_zero hfields).append_zero (Judged.of_ok hend)).congr ?_
  rw [true_and, and_true]
  rfl

/-- What the fields of a head say about its connection. -/
theorem finish_keepAlive (h : Heading) : (h.summary h.fields).finish.keepAlive = h.persists := by
  have hclose : (h.summary h.fields).close = h.options.any (·.is closeOption) := rfl
  have hkeep : (h.summary h.fields).keepAliveToken = h.options.any (·.is keepAliveOption) := rfl
  have hte : (h.summary h.fields).tePresent = h.transferEncoded := rfl
  unfold Head.finish Heading.persists
  rw [hclose, hkeep, hte]
  show (if h.http10 then _ else _) = _
  cases h.http10 <;> cases h.options.any (·.is closeOption) <;> simp

theorem consume_interims {r : Reader} (hr : r.state = .head) (hs : List Heading)
    (hwf : ∀ h ∈ hs, isInformational h.status = true ∧ h.status ≠ 101 ∧ h.Agrees) :
    Judged (∀ h ∈ hs, h.Fits) (consume byte (clean r none) (hs.flatMap Heading.encode))
      (0, clean r none) := by
  induction hs with
  | nil => exact (Judged.of_ok rfl).congr (by simp)
  | cons h hs ih =>
    obtain ⟨hinfo, hswitch, hagrees⟩ := hwf h List.mem_cons_self
    have hhead : r.onHead (h.summary h.fields).finish = .ok r := by
      have hstatus : (h.summary h.fields).finish.status = h.status := rfl
      unfold Reader.onHead
      rw [hstatus, if_pos hinfo, if_neg hswitch]
      rw [← hr]
    have hone := consume_heading hr hagrees hhead
    rw [settled_head hr] at hone
    exact (hone.append_zero (ih fun h hh => hwf h (List.mem_cons_of_mem _ hh))).congr
      List.forall_mem_cons.symm

/-! ## Reading a body -/

section Body

variable (r : Reader)

theorem byte_size {digits : List HexDigit} (hne : digits ≠ []) (ext : Option Extension)
    (hfits : hexValue 0 digits + 2 < 2 ^ 64) :
    (holding { r with state := .body .chunkSize } none
        (digits.map HexDigit.encode ++ encodeExtension ext ++ [cr])).byte lf =
      .ok (0, clean { r with state := .body (if hexValue 0 digits = 0 then .trailers
        else .chunk (hexValue 0 digits + 2)) } none) := by
  have hsize := parseChunkSize_eq hne ext (by omega)
  have hadd : checkedAdd (hexValue 0 digits) 2 = some (hexValue 0 digits + 2) := if_pos hfits
  show sizeLine _ = _
  unfold sizeLine
  simp only [holding, trimCr_concat, hsize, hadd]
  by_cases hzero : hexValue 0 digits = 0
  · rw [if_pos hzero, if_pos hzero]
    exact congrArg Except.ok (settled_eq (by simp) (by simp) _)
  · rw [if_neg hzero, if_neg hzero]
    exact congrArg Except.ok (settled_eq (by simp) (by simp) _)

theorem no_lf_size (digits : List HexDigit) (ext : Option Extension) :
    lf ∉ digits.map HexDigit.encode ++ encodeExtension ext := by
  rw [List.mem_append]
  rintro (h | h)
  · obtain ⟨d, -, hd⟩ := List.mem_map.mp h
    exact d.encode_ne.2.1 hd
  · cases ext with
    | none => exact absurd h List.not_mem_nil
    | some e =>
      have hsemi : lf ≠ 59 := by decide
      simp [encodeExtension, Ows.no_lf, hsemi, e.line] at h

omit r in
/-- The data of a chunk is not looked at; what ends it is a line ending. -/
theorem badChunk_data (data : Bytes) : badChunk (data.length + 2) (data ++ crlf) = false := by
  induction data with
  | nil => decide
  | cons b data ih =>
    rw [List.cons_append, List.length_cons, badChunk, show data.length + 1 + 2 - 1 =
      data.length + 2 from rfl, ih]
    simp

theorem consume_one_chunk (c : Chunk) (hfits : c.data.length + 2 < 2 ^ 64) :
    consume byte (clean { r with state := .body .chunkSize } none) c.encode =
      .ok (0, clean { r with state := .body .chunkSize } none) := by
  have hpos : 0 < c.data.length := List.length_pos_iff.mpr c.nonempty
  have hne : c.digits ≠ [] := by
    intro hnil
    have := c.size
    rw [hnil] at this
    exact absurd this.symm (by simpa [hexValue] using c.nonempty)
  have hsize := byte_size r hne c.ext (by rw [c.size]; exact hfits)
  rw [c.size, if_neg (by omega)] at hsize
  obtain ⟨q, -, hdata⟩ := consume_chunk r none (c.data ++ crlf) (n := c.data.length + 2) (by omega)
    (by simp [crlf])
  have hlen : c.data.length + 2 - (c.data ++ crlf).length = 0 := by simp [crlf]
  rw [badChunk_data, hlen] at hdata
  unfold Chunk.encode
  rw [List.append_assoc, consume_append, consume_crlf rfl none (no_lf_size c.digits c.ext) hsize,
    chain_zero, hdata]
  rfl

theorem consume_chunks (cs : List Chunk) (hfits : ∀ c ∈ cs, c.data.length + 2 < 2 ^ 64) :
    consume byte (clean { r with state := .body .chunkSize } none) (cs.flatMap Chunk.encode) =
      .ok (0, clean { r with state := .body .chunkSize } none) := by
  induction cs with
  | nil => rfl
  | cons c cs ih =>
    rw [List.flatMap_cons, consume_append, consume_one_chunk r c
      (hfits c List.mem_cons_self), chain_zero]
    exact ih fun c hc => hfits c (List.mem_cons_of_mem _ hc)

theorem consume_last (c : LastChunk) :
    consume byte (clean { r with state := .body .chunkSize } none) c.encode =
      .ok (0, clean { r with state := .body .trailers } none) := by
  have hsize := byte_size r c.nonempty c.ext (by rw [c.size]; decide)
  rw [if_pos c.size] at hsize
  exact consume_crlf rfl none (no_lf_size c.digits c.ext) hsize

theorem consume_trailers (ts : List Trailer) :
    consume byte (clean { r with state := .body .trailers } none)
        (ts.flatMap fun t => t.bytes ++ crlf) =
      .ok (0, clean { r with state := .body .trailers } none) := by
  induction ts with
  | nil => rfl
  | cons t ts ih =>
    have hbyte : (holding { r with state := .body .trailers } none (t.bytes ++ [cr])).byte lf =
        .ok (0, clean { r with state := .body .trailers } none) := by
      show Except.ok (trailerLine _) = _
      unfold trailerLine
      simp only [holding, trimCr_concat]
      rw [if_neg (by rw [List.isEmpty_iff]; exact t.nonempty)]
      rfl
    rw [List.flatMap_cons, consume_append, consume_crlf rfl none t.line hbyte, chain_zero]
    exact ih

theorem consume_chunked {cs : List Chunk} (hfits : ∀ c ∈ cs, c.data.length + 2 < 2 ^ 64)
    (last : LastChunk) (ts : List Trailer) :
    consume byte (clean { r with state := .body .chunkSize } none)
      (Content.chunked cs last ts).encode = .ok (1, clean { r with state := .head } none) := by
  have hend : consume byte (clean { r with state := .body .trailers } none) ([] ++ crlf) =
      .ok (1, clean { r with state := .head } none) := consume_crlf rfl none List.not_mem_nil rfl
  rw [List.nil_append] at hend
  unfold Content.encode
  rw [consume_append, consume_append, consume_append, consume_chunks r cs hfits, chain_zero,
    consume_last, chain_zero, consume_trailers, chain_zero, hend]

theorem consume_sized (data : Bytes) :
    chain (.ok (settled { r with state := .body (.exact data.length) } none))
        (fun p => consume byte p data) =
      (.ok (1, clean { r with state := .head } none) : Except (ParseError × Parser)
        (Nat × Parser)) := by
  cases data with
  | nil => rfl
  | cons b data =>
    rw [settled_eq (by simp) (by simp), chain_zero,
      consume_exact r none (b :: data) (n := (b :: data).length) (by simp)
        (Nat.le_refl _), Nat.sub_self]
    rfl

end Body

/-! ## Responses -/

/-- What the parser says after a response. -/
def Reader.after (r : Reader) (response : Response) : Reader :=
  { r with status := response.head.status, keepAlive := response.head.persists }

theorem transferEncoded_of_codings {h : Heading} (hc : h.codings ≠ []) :
    h.transferEncoded = true := by
  obtain ⟨c, hmem⟩ := List.exists_mem_of_ne_nil _ hc
  obtain ⟨f, hf, hcf⟩ := List.mem_flatMap.mp hmem
  refine List.any_eq_true.mpr ⟨f, hf, ?_⟩
  cases f with
  | transferEncoding name codings => rfl
  | _ => exact absurd hcf List.not_mem_nil

theorem chunk_length {cs : List Chunk} {c : Chunk} (hc : c ∈ cs) (last : LastChunk)
    (ts : List Trailer) : c.data.length + 2 ≤ (Content.chunked cs last ts).encode.length := by
  obtain ⟨front, back, rfl⟩ := List.append_of_mem hc
  simp only [Content.encode, List.flatMap_append, List.flatMap_cons,
    List.length_append, Chunk.encode, crlf, List.length_cons, List.length_nil]
  omega

/-- The final head, and the body it announces. -/
theorem onHead_final {r : Reader} {h : Heading} (hfinal : isInformational h.status = false)
    {body : Body} (hbody : (if r.headRequest || noBodyStatus h.status then .exact 0
      else (h.summary h.fields).finish.body) = body) (heof : body ≠ .eof) :
    r.onHead (h.summary h.fields).finish =
      .ok { r with status := h.status, keepAlive := h.persists, state := .body body } := by
  have hstatus : (h.summary h.fields).finish.status = h.status := rfl
  unfold Reader.onHead
  rw [hstatus, if_neg (by rw [hfinal]; exact Bool.false_ne_true)]
  simp only [hbody, finish_keepAlive, heof, ne_eq, not_false_eq_true, decide_true, Bool.and_true]

/-- One response, from its first interim head to the end of its body. -/
theorem consume_response {r : Reader} (hr : r.state = .head) {response : Response}
    (hwf : response.WellFormed r.headRequest) (hlen : response.encode.length < 2 ^ 64) :
    Judged response.Fits (consume byte (clean r none) response.encode)
      (1, clean (r.after response) none) := by
  have hafter : { r.after response with state := .head } = r.after response := by
    rw [← hr]
    rfl
  -- the heads are read up to the body they announce, which is all that is left to read
  have hhead : ∀ {body : Body}, (if r.headRequest || noBodyStatus response.head.status then .exact 0
      else (response.head.summary response.head.fields).finish.body) = body → body ≠ .eof →
      chain (.ok (settled { r.after response with state := .body body } none))
          (fun p => consume byte p response.content.encode) = .ok (1,
            clean (r.after response) none) →
      Judged response.Fits (consume byte (clean r none) response.encode)
        (1, clean (r.after response) none) := by
    intro body hbody heof hrest
    have hheads := (consume_interims hr _ hwf.interim).append_zero
      (consume_heading hr hwf.agrees (onHead_final hwf.final hbody heof))
    unfold Response.encode
    rw [consume_append]
    refine ⟨fun hfits => ?_, fun hvast => ?_⟩
    · rw [hheads.ok hfits]
      exact hrest
    · obtain ⟨q, hq⟩ := hheads.overflow hvast
      rw [hq]
      exact ⟨q, rfl⟩
  cases hwf.framed with
  | absent hbodiless hcontent =>
    refine hhead (if_pos hbodiless) (by simp) ?_
    rw [hcontent, ← hafter]
    rfl
  | @chunked cs last ts coding hbodied hlast hcoding hcontent =>
    have hte : (response.head.summary response.head.fields).tePresent = true :=
      transferEncoded_of_codings fun hnil => by
        rw [hnil] at hlast
        cases hlast
    have hchunked : (response.head.summary response.head.fields).teChunked = true := by
      show response.head.codings.getLast?.any _ = true
      rw [hlast]
      exact hcoding
    have hbody : (response.head.summary response.head.fields).finish.body = .chunkSize := by
      simp only [Head.finish, hte, hchunked, if_true]
    have hcs : ∀ c ∈ cs, c.data.length + 2 < 2 ^ 64 := by
      intro c hc
      have hle := chunk_length hc last ts
      unfold Response.encode at hlen
      rw [hcontent, List.length_append] at hlen
      omega
    refine hhead ((if_neg (by simpa [Response.bodiless] using hbodied)).trans hbody) (by simp) ?_
    rw [hcontent, settled_eq (by simp) (by simp), chain_zero, consume_chunked _ hcs, hafter]
  | @sized data hbodied hte hlength hcontent =>
    have hbody : (response.head.summary response.head.fields).finish.body = .exact data.length := by
      have hte' : (response.head.summary response.head.fields).tePresent = false := hte
      have hlength' : (response.head.summary response.head.fields).contentLength =
        some data.length := hlength
      simp only [Head.finish, hte', hlength']
      rfl
    refine hhead ((if_neg (by simpa [Response.bodiless] using hbodied)).trans hbody) (by simp) ?_
    rw [hcontent, ← hafter]
    exact consume_sized (r.after response) data

theorem consume_responses (rs : List Response) : ∀ {r : Reader}, r.state = .head →
    (∀ response ∈ rs, response.WellFormed r.headRequest) →
    (rs.flatMap Response.encode).length < 2 ^ 64 →
    Judged (∀ response ∈ rs, response.Fits)
      (consume byte (clean r none) (rs.flatMap Response.encode))
      (rs.length, clean (rs.foldl Reader.after r) none) := by
  induction rs with
  | nil =>
    intro r _ _ _
    exact (Judged.of_ok rfl).congr (by simp)
  | cons response rs ih =>
    intro r hr hwf hlen
    rw [List.flatMap_cons, List.length_append] at hlen
    have hone := consume_response hr (hwf response List.mem_cons_self) (by omega)
    have hrest := ih (r := r.after response) hr (fun x hx => hwf x (List.mem_cons_of_mem _ hx))
      (by omega)
    rw [List.flatMap_cons, List.length_cons, List.foldl_cons, Nat.add_comm]
    exact (hone.append hrest).congr List.forall_mem_cons.symm

theorem foldl_after (rs : List Response) : ∀ r : Reader,
    (rs.foldl Reader.after r).state = r.state ∧
    ∀ response, rs.getLast? = some response →
      (rs.foldl Reader.after r).status = response.head.status ∧
      (rs.foldl Reader.after r).keepAlive = response.head.persists := by
  induction rs with
  | nil =>
    intro r
    exact ⟨rfl, fun _ h => by cases h⟩
  | cons first rs ih =>
    intro r
    obtain ⟨hstate, hlast⟩ := ih (r.after first)
    refine ⟨hstate, fun response hresponse => ?_⟩
    cases rs with
    | nil =>
      cases hresponse
      exact ⟨rfl, rfl⟩
    | cons second rs => exact hlast response (by rwa [List.getLast?_cons_cons] at hresponse)

/-- A refusal of the byte machine is one of `feed`. -/
theorem feed_error {p q : Parser} {e : ParseError} (hp : p.Resting) {data : Bytes}
    (h : consume byte p data = .error (e, q)) : (p.feed data).1 = .error e := by
  have hspec := feed_spec hp data
  unfold FeedSpec at hspec
  rw [h] at hspec
  exact hspec.1

/-- **Framing recognises exactly what was sent.** A new parser that is fed well-formed responses
counts them, ends between responses with nothing kept, and answers for the last one: its status,
and whether its connection persists. The lengths of their heads have to fit a machine word, those
that announce no body too: if one of them does not, the parser gives up on it. -/
theorem feed_recognises_responses (headRequest : Bool) (rs : List Response)
    (hwf : ∀ response ∈ rs, response.WellFormed headRequest)
    (hlen : (rs.flatMap Response.encode).length < 2 ^ 64) :
    ((∀ response ∈ rs, response.Fits) →
      ∃ p, (new.setHeadRequest headRequest).feed (rs.flatMap Response.encode) = (.ok rs.length, p) ∧
        p.state = .head ∧ p.pending = [] ∧ p.partialHead = none ∧
        ∀ response, rs.getLast? = some response →
          p.status = response.head.status ∧ p.keepAlive = response.head.persists) ∧
    ((∃ response ∈ rs, ¬response.Fits) →
      ((new.setHeadRequest headRequest).feed (rs.flatMap Response.encode)).1 =
        .error .contentLengthOverflow) := by
  have hstart : (new.setHeadRequest headRequest).Resting :=
    (Reachable.new.setHeadRequest headRequest).resting
  have hread := consume_responses rs (r := (new.setHeadRequest headRequest).toReader) rfl hwf hlen
  obtain ⟨hstate, hlast⟩ := foldl_after rs (new.setHeadRequest headRequest).toReader
  refine ⟨fun hfits => ?_, fun ⟨response, hmem, hvast⟩ => ?_⟩
  · exact ⟨_, (feed_eq_ok hstart _ _).mpr (hread.ok hfits), hstate, rfl, rfl, hlast⟩
  · obtain ⟨q, hq⟩ := hread.overflow fun hall => hvast (hall response hmem)
    exact feed_error hstart hq

/-! ## Two exchanges -/

def noOws : Ows := ⟨[], nofun⟩

def spaceOws : Ows := ⟨[32], List.all_eq_true.mp rfl⟩

def chunkedCoding : Coding := ⟨⟨chunked, by decide, List.all_eq_true.mp rfl⟩, []⟩

/-- `HTTP/1.1 100`, and nothing else. -/
def continueHeading : Heading :=
  { http10 := false, hundreds := 1, tens := 0, ones := 0, reason := none, line := nofun,
    fields := [] }

/-- A chunked response behind an interim one: a chunk with an extension, and a trailer. -/
def chunkedResponse : Response where
  interims := [continueHeading]
  head :=
    { http10 := false, hundreds := 2, tens := 0, ones := 0, reason := some [79, 75],
      line := by decide
      fields := [.transferEncoding ⟨transferEncodingField, by decide⟩
        [⟨spaceOws, some chunkedCoding, noOws⟩]] }
  content := .chunked
    [{ digits := [⟨2, false⟩], ext := some ⟨noOws, [120], by decide⟩, data := [13, 10],
       nonempty := by decide, size := rfl }]
    { digits := [⟨0, false⟩], nonempty := by decide, ext := none, size := rfl }
    [⟨[120, 58], by decide, by decide⟩]

/-- `HTTP/1.0 204`. -/
def emptyResponse : Response where
  interims := []
  head := { continueHeading with http10 := true, hundreds := 2, ones := 4 }
  content := .absent

/-- One after the other. -/
theorem feed_recognises_responses_two : ∃ p,
    (new.setHeadRequest false).feed ([chunkedResponse, emptyResponse].flatMap Response.encode) =
      (.ok 2, p) ∧ p.state = .head ∧ p.pending = [] ∧ p.status = 204 ∧ p.keepAlive = false := by
  have hlast : chunkedResponse.head.codings.getLast? = some chunkedCoding := rfl
  have hchunked : chunkedResponse.WellFormed false :=
    { interim := by
        intro h hh
        rw [List.mem_singleton.mp hh]
        exact ⟨by decide, by decide, by decide⟩
      final := by decide
      agrees := by decide
      framed := .chunked (by decide) hlast (by decide) rfl }
  have hempty : emptyResponse.WellFormed false :=
    { interim := nofun
      final := by decide
      agrees := by decide
      framed := .absent (by decide) rfl }
  obtain ⟨p, hfeed, hstate, hpending, -, hsays⟩ := (feed_recognises_responses false
    [chunkedResponse, emptyResponse]
    (List.forall_mem_cons.mpr ⟨hchunked, List.forall_mem_singleton.mpr hempty⟩) (by decide)).1
    (List.forall_mem_cons.mpr ⟨by decide, List.forall_mem_singleton.mpr (by decide)⟩)
  obtain ⟨hstatus, hkeep⟩ := hsays emptyResponse rfl
  exact ⟨p, hfeed, hstate, hpending, hstatus, hkeep⟩

/-- The answer to a HEAD request, whose length is `2^64`. -/
def vastResponse : Response where
  interims := []
  head :=
    { continueHeading with
      hundreds := 2
      fields := [.contentLength ⟨contentLengthField, by decide⟩ spaceOws
        [1, 8, 4, 4, 6, 7, 4, 4, 0, 7, 3, 7, 0, 9, 5, 5, 1, 6, 1, 6] (by decide) noOws] }
  content := .absent

/-- The parser gives up on it, although there are no bytes to count. -/
theorem vast_length_refused : vastResponse.WellFormed true ∧
    ((new.setHeadRequest true).feed ([vastResponse].flatMap Response.encode)).1 =
      .error .contentLengthOverflow := by
  have hwf : vastResponse.WellFormed true := ⟨nofun, by decide, by decide, .absent (by decide) rfl⟩
  have hread := consume_responses [vastResponse] (r := (new.setHeadRequest true).toReader) rfl
    (List.forall_mem_singleton.mpr hwf) (by decide)
  obtain ⟨q, hq⟩ := hread.overflow (by decide)
  exact ⟨hwf, feed_error (Reachable.new.setHeadRequest true).resting hq⟩

end Shb.Http1
