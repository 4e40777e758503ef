import Shb.Lib.PrefixInt

/-!
# A reference decoder for QPACK

The other end of a field section, as RFC 9204 has it and not as the source does: the section's
prefix, the field line representations of Section 4.5 and the static table of Appendix A. It
is a decoder without a dynamic table: a line that refers to one is read, and then has no field.
The decoder for the Huffman code is a parameter.
-/

namespace Shb.Http3.Rfc9204

open Lib

abbrev Field := Bytes × Bytes

/-- Appendix A, from index 0 on. -/
def staticTable : List (String × String) :=
  [(":authority", ""), (":path", "/"), ("age", "0"), ("content-disposition", ""),
    ("content-length", "0"), ("cookie", ""), ("date", ""), ("etag", ""),
    ("if-modified-since", ""), ("if-none-match", ""), ("last-modified", ""), ("link", ""),
    ("location", ""), ("referer", ""), ("set-cookie", ""), (":method", "CONNECT"),
    (":method", "DELETE"), (":method", "GET"), (":method", "HEAD"), (":method", "OPTIONS"),
    (":method", "POST"), (":method", "PUT"), (":scheme", "http"), (":scheme", "https"),
    (":status", "103"), (":status", "200"), (":status", "304"), (":status", "404"),
    (":status", "503"), ("accept", "*/*"), ("accept", "application/dns-message"),
    ("accept-encoding", "gzip, deflate, br"), ("accept-ranges", "bytes"),
    ("access-control-allow-headers", "cache-control"),
    ("access-control-allow-headers", "content-type"), ("access-control-allow-origin", "*"),
    ("cache-control", "max-age=0"), ("cache-control", "max-age=2592000"),
    ("cache-control", "max-age=604800"), ("cache-control", "no-cache"),
    ("cache-control", "no-store"), ("cache-control", "public, max-age=31536000"),
    ("content-encoding", "br"), ("content-encoding", "gzip"),
    ("content-type", "application/dns-message"), ("content-type", "application/javascript"),
    ("content-type", "application/json"), ("content-type", "application/x-www-form-urlencoded"),
    ("content-type", "image/gif"), ("content-type", "image/jpeg"), ("content-type", "image/png"),
    ("content-type", "text/css"), ("content-type", "text/html; charset=utf-8"),
    ("content-type", "text/plain"), ("content-type", "text/plain;charset=utf-8"),
    ("range", "bytes=0-"), ("strict-transport-security", "max-age=31536000"),
    ("strict-transport-security", "max-age=31536000; includesubdomains"),
    ("strict-transport-security", "max-age=31536000; includesubdomains; preload"),
    ("vary", "accept-encoding"), ("vary", "origin"), ("x-content-type-options", "nosniff"),
    ("x-xss-protection", "1; mode=block"), (":status", "100"), (":status", "204"),
    (":status", "206"), (":status", "302"), (":status", "400"), (":status", "403"),
    (":status", "421"), (":status", "425"), (":status", "500"), ("accept-language", ""),
    ("access-control-allow-credentials", "FALSE"), ("access-control-allow-credentials", "TRUE"),
    ("access-control-allow-headers", "*"), ("access-control-allow-methods", "get"),
    ("access-control-allow-methods", "get, post, options"),
    ("access-control-allow-methods", "options"),
    ("access-control-expose-headers", "content-length"),
    ("access-control-request-headers", "content-type"),
    ("access-control-request-method", "get"), ("access-control-request-method", "post"),
    ("alt-svc", "clear"), ("authorization", ""),
    ("content-security-policy", "script-src 'none'; object-src 'none'; base-uri 'none'"),
    ("early-data", "1"), ("expect-ct", ""), ("forwarded", ""), ("if-range", ""), ("origin", ""),
    ("purpose", "prefetch"), ("server", ""), ("timing-allow-origin", "*"),
    ("upgrade-insecure-requests", "1"), ("user-agent", ""), ("x-forwarded-for", ""),
    ("x-frame-options", "deny"), ("x-frame-options", "sameorigin")]

/-! ## Field lines -/

inductive TableRef where
  | ofStatic (i : Nat)
  /-- Relative to the base of the section. -/
  | ofDynamic (i : Nat)
  | postBase (i : Nat)

inductive FieldLine where
  | indexed (ref : TableRef)
  | nameRef (never : Bool) (ref : TableRef) (value : Bytes)
  | literal (never : Bool) (name value : Bytes)

section Read

variable (huffman : Bytes → Option Bytes)

def tableRef (inStatic : Bool) (i : Nat) :
    TableRef := if inStatic then .ofStatic i else .ofDynamic i

/-- A field line with a reference to a name, in the low `bits`, and its value. -/
def readNameRef (never : Bool) (ref : Nat → TableRef) (bits : Nat) (buf : Bytes) :
    Option (FieldLine × Bytes) :=
  match readInt bits buf with
  | none => none
  | some (i, buf) =>
    (readString huffman 7 buf).map fun (value, buf) => (.nameRef never (ref i) value, buf)

/-- Section 4.5.2 to 4.5.6, told apart by the leading bits. -/
def readFieldLine : Bytes → Option (FieldLine × Bytes)
  | [] => none
  | b :: rest =>
    if 128 ≤ b.toNat then
      (readInt 6 (b :: rest)).map fun (i, buf) => (.indexed
        (tableRef (b.toNat / 64 % 2 = 1) i), buf)
    else if 64 ≤ b.toNat then
      readNameRef huffman (b.toNat / 32 % 2 = 1) (tableRef (b.toNat / 16 % 2 = 1)) 4 (b :: rest)
    else if 32 ≤ b.toNat then
      match readString huffman 3 (b :: rest) with
      | none => none
      | some (name, buf) =>
        (readString huffman 7 buf).map fun (value, buf) =>
          (.literal (b.toNat / 16 % 2 = 1) name value, buf)
    else if 16 ≤ b.toNat then
      (readInt 4 (b :: rest)).map fun (i, buf) => (.indexed (.postBase i), buf)
    else readNameRef huffman (b.toNat / 8 % 2 = 1) .postBase 3 (b :: rest)

/-- A section: its Required Insert Count as encoded, the sign and Delta Base, and its lines. -/
structure Section where
  requiredInsertCount : Nat
  sign : Bool
  deltaBase : Nat
  lines : List FieldLine

def readSection (buf : Bytes) : Option Section :=
  match readInt 8 buf with
  | none => none
  | some (requiredInsertCount, buf) =>
    match readInt 7 buf with
    | none => none
    | some (deltaBase, rest) =>
      (readAll (readFieldLine huffman) rest).map fun lines =>
        { requiredInsertCount, sign := (buf.headD 0).toNat / 128 = 1, deltaBase, lines }

end Read

/-! ## Decoding -/

def TableRef.entry : TableRef → Option Field
  | .ofStatic i => (staticTable[i]?).map fun e => (asBytes e.1, asBytes e.2)
  | .ofDynamic _ => none
  | .postBase _ => none

def FieldLine.field : FieldLine → Option Field
  | .indexed ref => ref.entry
  | .nameRef _ ref value => ref.entry.map fun e => (e.1, value)
  | .literal _ name value => some (name, value)

/-- The fields of a section that needs nothing of a dynamic table. -/
def decode (huffman : Bytes → Option Bytes) (buf : Bytes) : Option (List Field) :=
  match readSection huffman buf with
  | none => none
  | some s => if s.requiredInsertCount = 0 then s.lines.mapM FieldLine.field else none

/-- No reference to the dynamic table. -/
def FieldLine.Static : FieldLine → Prop
  | .indexed (.ofStatic i) => i < staticTable.length
  | .nameRef _ (.ofStatic i) _ => i < staticTable.length
  | .literal .. => True
  | _ => False

/-- The line gives `f`, without a dynamic table. -/
def Means (line : FieldLine) (f : Field) : Prop := line.Static ∧ line.field = some f

theorem indexed_means {i : Nat} {name value : String} (h : staticTable[i]? = some (name, value)) :
    Means (.indexed (.ofStatic i)) (asBytes name, asBytes value) :=
  ⟨(List.getElem?_eq_some_iff.mp h).1, by rw [FieldLine.field, TableRef.entry, h]; rfl⟩

theorem nameRef_means {i : Nat} {name tableValue : String}
    (h : staticTable[i]? = some (name, tableValue)) (never : Bool) (value : Bytes) :
    Means (.nameRef never (.ofStatic i) value) (asBytes name, value) :=
  ⟨(List.getElem?_eq_some_iff.mp h).1, by rw [FieldLine.field, TableRef.entry, h]; rfl⟩

theorem literal_means (never : Bool) (name value : Bytes) :
    Means (.literal never name value) (name, value) := ⟨trivial, rfl⟩

theorem mapM_means {ι : Type} {line : ι → FieldLine} {gives : ι → Field} :
    ∀ {pieces : List ι}, (∀ p ∈ pieces, Means (line p) (gives p)) →
      (pieces.map line).mapM FieldLine.field = some (pieces.map gives)
  | [], _ => rfl
  | p :: pieces, h => by
    have ih := mapM_means fun q hq => h q (List.mem_cons_of_mem p hq)
    rw [List.map_cons, List.mapM_cons, (h p List.mem_cons_self).2, ih]
    rfl

end Shb.Http3.Rfc9204
