import Shb.Http2.Hpack
import Shb.Http2.Rfc7541
import Shb.Request

/-!
# `http2/hpack.rs` — the header block of a request

The block is built once and sent for every request, so it has to mean the same on every
stream: static-table references and literals *without* indexing, and nothing else. That is what
is shown here against the reference decoder, field by field: each field of the block is one
representation that gives the field in every state of the decoder's table and leaves the table
as it was.
-/

namespace Shb.Http2

open Lib

/-- A string literal, uncompressed. The length is cast to a `u32`. -/
def encodeStr (s : Bytes) : Bytes := encodeInt 7 0x00 (s.length % 2 ^ 32) ++ s

/-- A literal field whose name is in the static table, without indexing. -/
def literalIndexedName (nameIndex : Nat) (value : Bytes) : Bytes :=
  encodeInt 4 0x00 nameIndex ++ encodeStr value

/-- Static index of `:authority`. -/
def idxAuthority : Nat := 1

/-- A literal field with both parts spelled out, without indexing. -/
def literal (name value : Bytes) : Bytes := 0x00 :: encodeStr name ++ encodeStr value

/-- First static-table entry for a name. -/
def staticNameIndex (name : String) : Option Nat :=
  match name with
  | ":authority" => some 1
  | ":method" => some 2
  | ":path" => some 4
  | ":scheme" => some 6
  | ":status" => some 8
  | "accept-charset" => some 15
  | "accept-encoding" => some 16
  | "accept-language" => some 17
  | "accept-ranges" => some 18
  | "accept" => some 19
  | "access-control-allow-origin" => some 20
  | "age" => some 21
  | "allow" => some 22
  | "authorization" => some 23
  | "cache-control" => some 24
  | "content-disposition" => some 25
  | "content-encoding" => some 26
  | "content-language" => some 27
  | "content-length" => some 28
  | "content-location" => some 29
  | "content-range" => some 30
  | "content-type" => some 31
  | "cookie" => some 32
  | "date" => some 33
  | "etag" => some 34
  | "expect" => some 35
  | "expires" => some 36
  | "from" => some 37
  | "host" => some 38
  | "if-match" => some 39
  | "if-modified-since" => some 40
  | "if-none-match" => some 41
  | "if-range" => some 42
  | "if-unmodified-since" => some 43
  | "last-modified" => some 44
  | "link" => some 45
  | "location" => some 46
  | "max-forwards" => some 47
  | "proxy-authenticate" => some 48
  | "proxy-authorization" => some 49
  | "range" => some 50
  | "referer" => some 51
  | "refresh" => some 52
  | "retry-after" => some 53
  | "server" => some 54
  | "set-cookie" => some 55
  | "strict-transport-security" => some 56
  | "transfer-encoding" => some 57
  | "user-agent" => some 58
  | "vary" => some 59
  | "via" => some 60
  | "www-authenticate" => some 61
  | _ => none

/-- `:method`: GET and POST have a static entry of their own. -/
def encodeMethod (method : String) : Bytes :=
  if method = "GET" then [0x82]
  else if method = "POST" then [0x83]
  else literalIndexedName 2 (asBytes method)

def encodeScheme (scheme : String) : Bytes :=
  if scheme = "http" then [0x86]
  else if scheme = "https" then [0x87]
  else literalIndexedName 6 (asBytes scheme)

/-- `:path`: `/` has a static entry. -/
def encodePath (path : String) : Bytes :=
  if path = "/" then [0x84] else literalIndexedName 4 (asBytes path)

def encodeHeader (header : String × String) : Bytes :=
  match staticNameIndex header.1 with
  | some index => literalIndexedName index (asBytes header.2)
  | none => literal (asBytes header.1) (asBytes header.2)

def encodeRequest (method scheme authority path : String) (headers : List (String × String))
    (bodyLen : Nat) : Bytes :=
  encodeMethod method ++ encodeScheme scheme ++
    literalIndexedName idxAuthority (asBytes authority) ++ encodePath path ++
    headers.flatMap encodeHeader ++
    if 0 < bodyLen then literalIndexedName 28 (asBytes (toString bodyLen)) else []

/-! ## One field -/

section Field

open Rfc7541

variable {huffman : Bytes → Option Bytes}

theorem encodeIntRest_eq : ∀ (fuel n : Nat), encodeIntRest fuel n = septets fuel n
  | 0, _ => rfl
  | fuel + 1, n => by rw [encodeIntRest, septets, encodeIntRest_eq fuel]

theorem encodeInt_eq (bits : Nat) (mask : UInt8) (value : Nat) :
    encodeInt bits mask value = putInt 5 bits mask value := by
  rw [encodeInt, putInt, encodeIntRest_eq]

theorem readString_encodeStr {s : Bytes} (h : s.length < 2 ^ 28) (rest : Bytes) :
    readString huffman 7 (encodeStr s ++ rest) = some (s, rest) := by
  rw [encodeStr, Nat.mod_eq_of_lt (by omega), encodeInt_eq]
  exact readString_put (by decide) (by decide) (by omega) huffman rest

variable {b : UInt8} {i : Nat}

/-- What the first octet of a name index says: a literal without indexing. -/
theorem readRepresentation_without {buf rest : Bytes} {tail : Bytes}
    (hbuf : buf ++ rest = b :: tail) (hb : b.toNat < 16) :
    readRepresentation huffman (buf ++ rest) = readLiteral huffman .without 4 (buf ++ rest) := by
  rw [hbuf, readRepresentation, if_neg (by omega), if_neg (by omega), if_neg (by omega),
    if_neg (by omega)]

theorem spells_literalIndexedName {value : Bytes} (hi : 1 ≤ i) (hle : i ≤ staticTable.length)
    (hvalue : value.length < 2 ^ 28) :
    Spells (readRepresentation huffman) (literalIndexedName i value)
      (.literal .without (.index i) value) := by
  have hlen : staticTable.length = 61 := rfl
  refine ⟨fun hnil => putInt_ne_nil 5 4 0x00 i ?_, fun rest => ?_⟩
  · rw [literalIndexedName, encodeInt_eq] at hnil
    exact (List.append_eq_nil_iff.mp hnil).1
  · rw [literalIndexedName, encodeInt_eq, List.append_assoc]
    obtain ⟨b, tail, heq, _, hb, hread⟩ := putInt_spec 5 (show 4 ≤ 8 by decide)
      (show (0x00 : UInt8).toNat % 2 ^ 4 = 0 by decide)
      (show i < 2 ^ 4 - 1 + 128 ^ (5 + 1) by omega) (encodeStr value ++ rest)
    rw [readRepresentation_without heq hb, heq, readLiteral, hread]
    obtain ⟨j, rfl⟩ := Nat.exists_eq_succ_of_ne_zero (Nat.one_le_iff_ne_zero.mp hi)
    simp [readString_encodeStr hvalue]

theorem spells_literal {name value : Bytes} (hname : name.length < 2 ^ 28)
    (hvalue : value.length < 2 ^ 28) :
    Spells (readRepresentation huffman) (literal name value)
      (.literal .without (.text name) value) := by
  refine ⟨List.cons_ne_nil _ _, fun rest => ?_⟩
  rw [literal, readRepresentation_without rfl (by decide)]
  simp only [List.cons_append, List.append_assoc]
  have hzero : readInt 4 ((0 : UInt8) :: (encodeStr name ++ (encodeStr value ++ rest))) =
      some (0, encodeStr name ++ (encodeStr value ++ rest)) := rfl
  simp [readLiteral, hzero, readString_encodeStr hname, readString_encodeStr hvalue]

theorem spells_indexed (hb : b.toNat = 128 + i) (hi : i < 127) :
    Spells (readRepresentation huffman) [b] (.indexed i) := by
  refine ⟨List.cons_ne_nil _ _, fun rest => ?_⟩
  have hfirst : b.toNat % 2 ^ 7 = i := by omega
  rw [List.singleton_append, readRepresentation, if_pos (by omega), readInt]
  simp only [hfirst]
  rw [if_pos (by omega)]
  rfl

theorem writes_indexed {name value : String} (hb : b.toNat = 128 + i) (hi : 1 ≤ i)
    (h : staticTable[i - 1]? = some (name, value)) :
    Writes (readRepresentation huffman) Means [b] (field name value) := by
  have hlt : i - 1 < 61 := (List.getElem?_eq_some_iff.mp h).1
  exact ⟨_, spells_indexed hb (by omega), indexed_means hi h⟩

theorem writes_literalIndexedName {name tableValue : String} {value : Bytes} (hi : 1 ≤ i)
    (h : staticTable[i - 1]? = some (name, tableValue)) (hvalue : value.length < 2 ^ 28) :
    Writes (readRepresentation huffman) Means (literalIndexedName i value)
      (asBytes name, value) := by
  have hlt : i - 1 < 61 := (List.getElem?_eq_some_iff.mp h).1
  have hlen : staticTable.length = 61 := rfl
  exact ⟨_, spells_literalIndexedName hi (by omega) hvalue, namedLiteral_means hi h value⟩

/-- Every index of the table of names is that name's. -/
theorem staticNameIndex_spec {name : String} (h : staticNameIndex name = some i) :
    1 ≤ i ∧ ∃ value, staticTable[i - 1]? = some (name, value) := by
  unfold staticNameIndex at h
  split at h
  all_goals first
    | (cases h; exact ⟨by decide, _, rfl⟩)
    | exact absurd h (by simp)

theorem writes_method {method : String} (h : (asBytes method).length < 2 ^ 28) :
    Writes (readRepresentation huffman) Means (encodeMethod method) (field ":method" method) := by
  unfold encodeMethod
  split
  · subst method
    exact writes_indexed (i := 2) rfl (by decide) rfl
  · split
    · subst method
      exact writes_indexed (i := 3) rfl (by decide) rfl
    · exact writes_literalIndexedName (by decide) rfl h

theorem writes_scheme {scheme : String} (h : (asBytes scheme).length < 2 ^ 28) :
    Writes (readRepresentation huffman) Means (encodeScheme scheme) (field ":scheme" scheme) := by
  unfold encodeScheme
  split
  · subst scheme
    exact writes_indexed (i := 6) rfl (by decide) rfl
  · split
    · subst scheme
      exact writes_indexed (i := 7) rfl (by decide) rfl
    · exact writes_literalIndexedName (by decide) rfl h

theorem writes_path {path : String} (h : (asBytes path).length < 2 ^ 28) :
    Writes (readRepresentation huffman) Means (encodePath path) (field ":path" path) := by
  unfold encodePath
  split
  · subst path
    exact writes_indexed (i := 4) rfl (by decide) rfl
  · exact writes_literalIndexedName (by decide) rfl h

theorem writes_header {header : String × String} (hname : (asBytes header.1).length < 2 ^ 28)
    (hvalue : (asBytes header.2).length < 2 ^ 28) :
    Writes (readRepresentation huffman) Means (encodeHeader header) (field header.1 header.2) := by
  unfold encodeHeader
  cases hs : staticNameIndex header.1 with
  | some index =>
    obtain ⟨hi, tableValue, htable⟩ := staticNameIndex_spec hs
    exact writes_literalIndexedName hi htable hvalue
  | none => exact ⟨_, spells_literal hname hvalue, literal_means _ _⟩

end Field

/-! ## The block -/

section Block

open Rfc7541

variable {huffman : Bytes → Option Bytes}

/-- Such a block says its fields to a decoder with any table, and leaves the table alone. -/
theorem decode_of_writesAll {block : Bytes} {fields : List Field}
    (h : WritesAll (readRepresentation huffman) Means block fields) :
    (∃ rs, readBlock huffman block = some rs ∧ ∀ r ∈ rs, r.Static) ∧
      ∀ t : Table, Rfc7541.decode huffman t block = some (fields, t) := by
  obtain ⟨pieces, hread, rfl⟩ := h.readBack
  refine ⟨⟨_, hread, fun r hr => ?_⟩, fun t => ?_⟩
  · obtain ⟨p, _, rfl⟩ := List.mem_map.mp hr
    exact p.means.1
  · rw [Rfc7541.decode, readBlock, hread]
    exact applyAll_means fun p _ => p.means

/-- **A request block means what it should to any decoder**: method, scheme, authority and
path, then the headers in order, then `content-length` exactly when there is a body. No
representation in it inserts into the dynamic table or refers to it, so whatever a decoder
holds there, the same bytes say the same and leave it as it was. -/
theorem request_block_means (method scheme authority path : String)
    (headers : List (String × String)) (bodyLen : Nat)
    (hpseudo : ∀ s ∈ [method, scheme, authority, path], (asBytes s).length < 2 ^ 28)
    (hheaders : ∀ h ∈ headers, (asBytes h.1).length < 2 ^ 28 ∧ (asBytes h.2).length < 2 ^ 28)
    (hbody : bodyLen < 2 ^ 64) (huffman : Bytes → Option Bytes) :
    (∃ rs,
      readBlock huffman (encodeRequest method scheme authority path headers bodyLen) = some rs ∧
      ∀ r ∈ rs, r.Static) ∧
    ∀ t : Table, Rfc7541.decode huffman t
        (encodeRequest method scheme authority path headers bodyLen) =
      some (requestFields method scheme authority path headers bodyLen, t) := by
  refine decode_of_writesAll ?_
  have hauthority : Writes (readRepresentation huffman) Means _ (field ":authority" authority) :=
    writes_literalIndexedName (i := idxAuthority) (by decide) rfl (hpseudo authority (by simp))
  have hheader : WritesAll (readRepresentation huffman) Means (headers.flatMap encodeHeader) _ :=
    WritesAll.flatMap fun h hh => writes_header (hheaders h hh).1 (hheaders h hh).2
  refine ((((writes_method (hpseudo method (by simp))).all.append
    (writes_scheme (hpseudo scheme (by simp))).all).append hauthority.all).append
    (writes_path (hpseudo path (by simp))).all).append hheader |>.append ?_
  split
  · have hdigits := length_decimal hbody
    exact (writes_literalIndexedName (by decide) rfl (by omega)).all
  · exact WritesAll.nil

/-- A PUT with a header the static table names, one it does not, and a body of 12 octets. -/
theorem request_block_means_put :
    Rfc7541.decode (fun _ => none) (.empty 4096) (encodeRequest "PUT" "https" "a.test" "/"
        [("accept-encoding", "br"), ("x-run", "1")] 12) =
      some ([field ":method" "PUT", field ":scheme" "https", field ":authority" "a.test",
        field ":path" "/", field "accept-encoding" "br", field "x-run" "1",
        field "content-length" "12"], .empty 4096) :=
  (request_block_means "PUT" "https" "a.test" "/" [("accept-encoding", "br"), ("x-run", "1")] 12
    (by decide) (by decide) (by decide) fun _ => none).2 (.empty 4096)

end Block

end Shb.Http2
