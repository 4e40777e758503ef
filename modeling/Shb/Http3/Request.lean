import Shb.Http3.Proto
import Shb.Http3.Rfc9204
import Shb.Request

/-!
# `http3/qpack.rs` — the field section of a request

The same trade as on the HTTP/2 side: the section is built once from static-table references
and literals, so it is valid on every stream. Each of its field lines is compared with the
reference decoder, and the request's frames are read back around it.
-/

namespace Shb.Http3

open Lib

/-- Static index of `:authority` (name only). -/
def idxAuthority : Nat := 0
/-- Static index of `:path: /`. -/
def idxPathRoot : Nat := 1
/-- Static index of `content-length` (name only). -/
def idxContentLength : Nat := 4

/-- Static index of `:method: <m>` when there is one. -/
def methodIndex (method : String) : Option Nat :=
  match method with
  | "CONNECT" => some 15
  | "DELETE" => some 16
  | "GET" => some 17
  | "HEAD" => some 18
  | "OPTIONS" => some 19
  | "POST" => some 20
  | "PUT" => some 21
  | _ => none

/-- Static index of `:scheme: <s>` when there is one. -/
def schemeIndex (scheme : String) : Option Nat :=
  match scheme with
  | "http" => some 22
  | "https" => some 23
  | _ => none

/-- The same loop as HPACK's, over a `u64`. The value has fewer groups of seven bits than its
own size, so that is fuel enough. -/
def encodeInt (prefixBits : Nat) (mask : UInt8) (value : Nat) : Bytes :=
  putInt value prefixBits mask value

/-- An uncompressed string literal: the Huffman bit sits above the length and stays clear. -/
def encodeStr (prefixBits : Nat) (mask : UInt8) (s : Bytes) : Bytes :=
  encodeInt prefixBits mask s.length ++ s

/-- Indexed field line, static table. -/
def indexed (index : Nat) : Bytes := encodeInt 6 0xc0 index

/-- Literal field line with a static name reference. -/
def literalNamed (nameIndex : Nat) (value : Bytes) : Bytes :=
  encodeInt 4 0x50 nameIndex ++ encodeStr 7 0x00 value

/-- Literal field line with a literal name. -/
def literal (name value : Bytes) : Bytes :=
  encodeStr 3 0x20 name ++ encodeStr 7 0x00 value

def encodeMethod (method : String) : Bytes :=
  match methodIndex method with
  | some index => indexed index
  | none => literal (asBytes ":method") (asBytes method)

def encodeScheme (scheme : String) : Bytes :=
  match schemeIndex scheme with
  | some index => indexed index
  | none => literal (asBytes ":scheme") (asBytes scheme)

def encodePath (path : String) : Bytes :=
  if path = "/" then indexed idxPathRoot else literal (asBytes ":path") (asBytes path)

/-- The field section sent for every request. Required Insert Count and Delta Base are zero:
nothing in it refers to the dynamic table. -/
def encodeRequest (method scheme authority path : String) (headers : List (String × String))
    (bodyLen : Nat) : Bytes :=
  [0x00, 0x00] ++ (encodeMethod method ++ encodeScheme scheme ++
    literalNamed idxAuthority (asBytes authority) ++ encodePath path ++
    headers.flatMap (fun header => literal (asBytes header.1) (asBytes header.2)) ++
    if 0 < bodyLen then literalNamed idxContentLength (asBytes (toString bodyLen)) else [])

/-! ## One field line -/

section FieldLine

open Rfc9204

variable {huffman : Bytes → Option Bytes}

theorem fuel_enough (bits value : Nat) : value < 2 ^ bits - 1 + 128 ^ (value + 1) := by
  have hpow : value + 1 < 128 ^ (value + 1) := Nat.lt_pow_self (by decide)
  omega

theorem readString_name (name rest : Bytes) :
    readString huffman 3 (encodeStr 3 0x20 name ++ rest) = some (name, rest) :=
  readString_put (by decide) (by decide) (fuel_enough 3 name.length) huffman rest

theorem readString_value (value rest : Bytes) :
    readString huffman 7 (encodeStr 7 0x00 value ++ rest) = some (value, rest) :=
  readString_put (by decide) (by decide) (fuel_enough 7 value.length) huffman rest

/-- The first octet of an encoded integer and what is read from there. -/
theorem encodeInt_spec (bits : Nat) (mask : UInt8) (hbits : bits ≤ 8)
    (hmask : mask.toNat % 2 ^ bits = 0) (value : Nat) (rest : Bytes) :
    ∃ b tail, encodeInt bits mask value ++ rest = b :: tail ∧ mask.toNat ≤ b.toNat ∧
      b.toNat < mask.toNat + 2 ^ bits ∧ readInt bits (b :: tail) = some (value, rest) :=
  putInt_spec value hbits hmask (fuel_enough bits value) rest

theorem spells_indexed (i : Nat) :
    Spells (readFieldLine huffman) (indexed i) (.indexed (.ofStatic i)) := by
  refine ⟨putInt_ne_nil _ _ _ _, fun rest => ?_⟩
  obtain ⟨b, tail, heq, hlo, _, hread⟩ := encodeInt_spec 6 0xc0 (by decide) (by decide) i rest
  have hlo' : 192 ≤ b.toNat := hlo
  have hb := b.toNat_lt
  have hstatic : b.toNat / 64 % 2 = 1 := by omega
  rw [indexed, heq, readFieldLine, if_pos (by omega), hread]
  simp [hstatic, decide_true, tableRef]

theorem spells_literalNamed (i : Nat) (value : Bytes) :
    Spells (readFieldLine huffman) (literalNamed i value)
      (.nameRef false (.ofStatic i) value) := by
  refine ⟨fun hnil => putInt_ne_nil i 4 0x50 i (List.append_eq_nil_iff.mp hnil).1, fun rest => ?_⟩
  obtain ⟨b, tail, heq, hlo, hhi, hread⟩ :=
    encodeInt_spec 4 0x50 (by decide) (by decide) i (encodeStr 7 0x00 value ++ rest)
  have hlo' : 80 ≤ b.toNat := hlo
  have hhi' : b.toNat < 96 := hhi
  have hnever : b.toNat / 32 % 2 = 0 := by omega
  have hstatic : b.toNat / 16 % 2 = 1 := by omega
  rw [literalNamed, List.append_assoc, heq, readFieldLine, if_neg (by omega), if_pos (by omega),
    readNameRef, hread]
  simp [readString_value, hnever, hstatic, decide_true, tableRef, decide_false]

theorem spells_literal (name value : Bytes) :
    Spells (readFieldLine huffman) (literal name value) (.literal false name value) := by
  refine ⟨fun hnil => ?_, fun rest => ?_⟩
  · rw [literal, encodeStr, List.append_assoc] at hnil
    exact putInt_ne_nil _ _ _ _ (List.append_eq_nil_iff.mp hnil).1
  · have hname : readString huffman 3 _ = _ := readString_name name (encodeStr 7 0x00 value ++ rest)
    obtain ⟨b, tail, heq, hlo, hhi, _⟩ := encodeInt_spec 3 0x20 (by decide) (by decide) name.length
      (name ++ (encodeStr 7 0x00 value ++ rest))
    have hlo' : 32 ≤ b.toNat := hlo
    have hhi' : b.toNat < 40 := hhi
    have hnever : b.toNat / 16 % 2 = 0 := by omega
    have hbytes : encodeStr 3 0x20 name ++ (encodeStr 7 0x00 value ++ rest) = b :: tail := by
      rw [encodeStr, List.append_assoc, heq]
    rw [hbytes] at hname
    rw [literal, List.append_assoc, hbytes, readFieldLine, if_neg (by omega), if_neg (by omega),
      if_pos (by omega), hname]
    simp [readString_value, hnever, decide_false]

theorem writes_indexed {i : Nat} {name value : String} (h : staticTable[i]? = some (name, value)) :
    Writes (readFieldLine huffman) Means (indexed i) (field name value) :=
  ⟨_, spells_indexed i, indexed_means h⟩

theorem writes_literalNamed {i : Nat} {name tableValue : String}
    (h : staticTable[i]? = some (name, tableValue)) (value : Bytes) :
    Writes (readFieldLine huffman) Means (literalNamed i value) (asBytes name, value) :=
  ⟨_, spells_literalNamed i value, nameRef_means h false value⟩

theorem writes_literal (name value : Bytes) :
    Writes (readFieldLine huffman) Means (literal name value) (name, value) :=
  ⟨_, spells_literal name value, literal_means false name value⟩

/-- An index that stands for a method stands for that method. -/
theorem methodIndex_spec {method : String} {i : Nat} (h : methodIndex method = some i) :
    staticTable[i]? = some (":method", method) := by
  unfold methodIndex at h
  split at h
  all_goals first
    | (cases h; rfl)
    | exact absurd h (by simp)

theorem schemeIndex_spec {scheme : String} {i : Nat} (h : schemeIndex scheme = some i) :
    staticTable[i]? = some (":scheme", scheme) := by
  unfold schemeIndex at h
  split at h
  all_goals first
    | (cases h; rfl)
    | exact absurd h (by simp)

theorem writes_method (method : String) :
    Writes (readFieldLine huffman) Means (encodeMethod method) (field ":method" method) := by
  unfold encodeMethod
  cases hm : methodIndex method with
  | some i => exact writes_indexed (methodIndex_spec hm)
  | none => exact writes_literal _ _

theorem writes_scheme (scheme : String) :
    Writes (readFieldLine huffman) Means (encodeScheme scheme) (field ":scheme" scheme) := by
  unfold encodeScheme
  cases hs : schemeIndex scheme with
  | some i => exact writes_indexed (schemeIndex_spec hs)
  | none => exact writes_literal _ _

theorem writes_path (path : String) :
    Writes (readFieldLine huffman) Means (encodePath path) (field ":path" path) := by
  unfold encodePath
  split
  · subst path
    exact writes_indexed rfl
  · exact writes_literal _ _

end FieldLine

/-! ## Frames around it -/

section Frames

open Quic

/-- One frame of a request stream: its type and its payload. -/
def readFrame (buf : Bytes) : Option ((Nat × Bytes) × Bytes) :=
  match frameHeader buf with
  | none => none
  | some (kind, len, header) =>
    if (buf.drop header).length < len then none
    else some ((kind, (buf.drop header).take len), (buf.drop header).drop len)

theorem spells_frame {kind : Nat} {payload : Bytes} (hkind : kind < 2 ^ 62)
    (hlen : payload.length < 2 ^ 62) :
    Spells readFrame (putVarint kind ++ putVarint payload.length ++ payload) (kind, payload) := by
  refine ⟨fun hnil => ?_, fun rest => ?_⟩
  · have hpos := putVarint_length_pos kind
    rw [List.append_assoc] at hnil
    rw [(List.append_eq_nil_iff.mp hnil).1] at hpos
    exact absurd hpos (by simp)
  · have hheader : frameHeader (putVarint kind ++ (putVarint payload.length ++ (payload ++ rest))) =
        some (kind, payload.length, (putVarint kind).length +
          (putVarint payload.length).length) := by
      simp [frameHeader, getVarint_putVarint hkind, getVarint_putVarint hlen]
    simp only [List.append_assoc]
    rw [readFrame, hheader]
    simp only [← List.drop_drop, List.drop_left, List.take_left]
    rw [if_neg (by rw [List.length_append]; omega)]

/-- A request reads back as a HEADERS frame and, when there is a body, a DATA frame. -/
theorem readAll_requestBytes {fieldSection body : Bytes} (hsection : fieldSection.length < 2 ^ 62)
    (hbody : body.length < 2 ^ 62) :
    readAll readFrame (requestBytes fieldSection body) =
      some ((FrameType.headers, fieldSection) ::
        if body = [] then [] else [(FrameType.data, body)]) := by
  let frames : List (Nat × Bytes) := (FrameType.headers, fieldSection) ::
    if body = [] then [] else [(FrameType.data, body)]
  have hframes : ∀ f ∈ frames,
      Spells readFrame (putVarint f.1 ++ putVarint f.2.length ++ f.2) f := by
    intro f hf
    rcases List.mem_cons.mp hf with rfl | hf
    · exact spells_frame (show FrameType.headers < 2 ^ 62 by decide) hsection
    · split at hf
      · exact absurd hf List.not_mem_nil
      · rw [List.mem_singleton] at hf
        subst hf
        exact spells_frame (show FrameType.data < 2 ^ 62 by decide) hbody
  have hread : readAll readFrame _ = some (frames.map fun f => f) := readAll_spelled hframes
  rw [List.map_id'] at hread
  refine Eq.trans (congrArg (readAll readFrame) ?_) hread
  rw [requestBytes]
  by_cases he : body = []
  · simp [frames, he]
  · simp [frames, he]

end Frames

section Section

open Rfc9204

/-- A section whose Required Insert Count and Delta Base are zero. -/
theorem readSection_plain (huffman : Bytes → Option Bytes) (rest : Bytes) :
    readSection huffman ([0x00, 0x00] ++ rest) =
      (readAll (readFieldLine huffman) rest).map fun lines => ⟨0, false, 0, lines⟩ := by
  simp [readSection, readInt]

/-- **A request section means what it should to any decoder**, one without a dynamic table
included: method, scheme, authority and path, then the headers in order, then `content-length`
exactly when there is a body; its Required Insert Count is zero and no line refers to the
dynamic table. `request_bytes` puts it into one HEADERS frame and a body into one DATA frame. -/
theorem request_section_means (method scheme authority path : String)
    (headers : List (String × String)) (bodyLen : Nat) (huffman : Bytes → Option Bytes) :
    (∃ s,
      readSection huffman (encodeRequest method scheme authority path headers bodyLen) = some s ∧
      s.requiredInsertCount = 0 ∧ ∀ line ∈ s.lines, line.Static) ∧
    Rfc9204.decode huffman (encodeRequest method scheme authority path headers bodyLen) =
      some (requestFields method scheme authority path headers bodyLen) ∧
    ∀ body : Bytes,
      (encodeRequest method scheme authority path headers bodyLen).length < 2 ^ 62 →
      body.length < 2 ^ 62 →
      readAll readFrame
          (requestBytes (encodeRequest method scheme authority path headers bodyLen) body) =
        some ((FrameType.headers, encodeRequest method scheme authority path headers bodyLen) ::
          if body = [] then [] else [(FrameType.data, body)]) := by
  have hlines : WritesAll (readFieldLine huffman) Means
      (encodeMethod method ++ encodeScheme scheme ++
        literalNamed idxAuthority (asBytes authority) ++ encodePath path ++
        headers.flatMap (fun header => literal (asBytes header.1) (asBytes header.2)) ++
        if 0 < bodyLen then literalNamed idxContentLength (asBytes (toString bodyLen)) else [])
      (requestFields method scheme authority path headers bodyLen) := by
    have hauthority : Writes (readFieldLine huffman) Means _ (field ":authority" authority) :=
      writes_literalNamed (i := idxAuthority) rfl (asBytes authority)
    have hheader : WritesAll (readFieldLine huffman) Means
        (headers.flatMap fun header => literal (asBytes header.1) (asBytes header.2))
        (headers.map fun header => field header.1 header.2) :=
      WritesAll.flatMap fun h _ => writes_literal _ _
    refine (((((writes_method method).all.append (writes_scheme scheme).all).append
      hauthority.all).append (writes_path path).all).append hheader).append ?_
    split
    · exact (writes_literalNamed (i := idxContentLength) rfl _).all
    · exact WritesAll.nil
  obtain ⟨pieces, hread, hfields⟩ := hlines.readBack
  have hsection : readSection huffman (encodeRequest method scheme authority path headers bodyLen) =
      some ⟨0, false, 0, pieces.map Piece.item⟩ := by
    rw [encodeRequest, readSection_plain, hread]
    rfl
  refine ⟨⟨_, hsection, rfl, fun line hline => ?_⟩, ?_, fun body hsec hbody =>
    readAll_requestBytes hsec hbody⟩
  · obtain ⟨p, _, rfl⟩ := List.mem_map.mp hline
    exact p.means.1
  · rw [Rfc9204.decode, hsection, hfields]
    exact mapM_means fun p _ => p.means

/-- A DELETE to `/a` with one header and no body. -/
theorem request_section_means_delete :
    Rfc9204.decode (fun _ => none) (encodeRequest "DELETE" "https" "a.test" "/a"
      [("x-run", "1")] 0) =
        some [field ":method" "DELETE", field ":scheme" "https", field ":authority" "a.test",
          field ":path" "/a", field "x-run" "1"] ∧
      readAll readFrame
          (requestBytes (encodeRequest "DELETE" "https" "a.test" "/a" [("x-run", "1")] 0) []) =
        some [(FrameType.headers, encodeRequest "DELETE" "https" "a.test" "/a"
          [("x-run", "1")] 0)] :=
  ⟨(request_section_means "DELETE" "https" "a.test" "/a" [("x-run", "1")] 0 fun _ => none).2.1,
    (request_section_means "DELETE" "https" "a.test" "/a" [("x-run", "1")] 0 fun _ => none).2.2 []
      (by decide) (by decide)⟩

end Section

end Shb.Http3
