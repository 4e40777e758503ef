import Shb.Lib.PrefixInt

/-!
# A reference decoder for HPACK

The other end of a header block, as RFC 7541 has it and not as the source does: the
representations of Section 6, the static table of Appendix A and a dynamic table that evicts.
A block is first read into its representations and these are then applied to the table. The
decoder for the Huffman code is a parameter.
-/

namespace Shb.Http2.Rfc7541

open Lib

abbrev Field := Bytes × Bytes

/-- Appendix A, from index 1 on. -/
def staticTable : List (String × String) :=
  [(":authority", ""), (":method", "GET"), (":method", "POST"), (":path", "/"),
    (":path", "/index.html"), (":scheme", "http"), (":scheme", "https"), (":status", "200"),
    (":status", "204"), (":status", "206"), (":status", "304"), (":status", "400"),
    (":status", "404"), (":status", "500"), ("accept-charset", ""),
    ("accept-encoding", "gzip, deflate"), ("accept-language", ""), ("accept-ranges", ""),
    ("accept", ""), ("access-control-allow-origin", ""), ("age", ""), ("allow", ""),
    ("authorization", ""), ("cache-control", ""), ("content-disposition", ""),
    ("content-encoding", ""), ("content-language", ""), ("content-length", ""),
    ("content-location", ""), ("content-range", ""), ("content-type", ""), ("cookie", ""),
    ("date", ""), ("etag", ""), ("expect", ""), ("expires", ""), ("from", ""), ("host", ""),
    ("if-match", ""), ("if-modified-since", ""), ("if-none-match", ""), ("if-range", ""),
    ("if-unmodified-since", ""), ("last-modified", ""), ("link", ""), ("location", ""),
    ("max-forwards", ""), ("proxy-authenticate", ""), ("proxy-authorization", ""), ("range", ""),
    ("referer", ""), ("refresh", ""), ("retry-after", ""), ("server", ""), ("set-cookie", ""),
    ("strict-transport-security", ""), ("transfer-encoding", ""), ("user-agent", ""), ("vary", ""),
    ("via", ""), ("www-authenticate", "")]

/-- The dynamic table, newest entry first. -/
structure Table where
  entries : List Field
  /-- The size it is kept to. -/
  capacity : Nat
  /-- What SETTINGS_HEADER_TABLE_SIZE allows the capacity to be. -/
  limit : Nat

/-- Section 4.1. -/
def fieldSize (f : Field) : Nat := f.1.length + f.2.length + 32

/-- The newest entries that fit. -/
def evict : Nat → List Field → List Field
  | _, [] => []
  | capacity, f :: fs =>
    if fieldSize f ≤ capacity then f :: evict (capacity - fieldSize f) fs else []

namespace Table

def empty (limit : Nat) : Table := { entries := [], capacity := limit, limit }

def insert (t : Table) (f : Field) :
    Table := { t with entries := evict t.capacity (f :: t.entries) }

/-- Section 2.3.3: one index space, the static table first. -/
def entry (t : Table) (i : Nat) : Option Field :=
  if i = 0 then none
  else if i ≤ staticTable.length then
    (staticTable[i - 1]?).map fun e => (asBytes e.1, asBytes e.2)
  else t.entries[i - staticTable.length - 1]?

end Table

/-! ## Representations -/

inductive Indexing where
  | incremental
  | without
  | never
  deriving DecidableEq

inductive Name where
  | index (i : Nat)
  | text (s : Bytes)

inductive Representation where
  | indexed (i : Nat)
  | literal (how : Indexing) (name : Name) (value : Bytes)
  | sizeUpdate (size : Nat)

section Read

variable (huffman : Bytes → Option Bytes)

/-- A literal field: its name by index in the low `bits`, or spelled out behind a zero. -/
def readLiteral (how : Indexing) (bits : Nat) (buf : Bytes) : Option (Representation × Bytes) :=
  match readInt bits buf with
  | none => none
  | some (0, buf) =>
    match readString huffman 7 buf with
    | none => none
    | some (name, buf) =>
      (readString huffman 7 buf).map fun (value, buf) => (.literal how (.text name) value, buf)
  | some (i + 1, buf) =>
    (readString huffman 7 buf).map fun (value, buf) => (.literal how (.index (i + 1)) value, buf)

def readRepresentation : Bytes → Option (Representation × Bytes)
  | [] => none
  | b :: rest =>
    if 128 ≤ b.toNat then (readInt 7 (b :: rest)).map fun (i, buf) => (.indexed i, buf)
    else if 64 ≤ b.toNat then readLiteral huffman .incremental 6 (b :: rest)
    else if 32 ≤ b.toNat then
      (readInt 5 (b :: rest)).map fun (size, buf) => (.sizeUpdate size, buf)
    else if 16 ≤ b.toNat then readLiteral huffman .never 4 (b :: rest)
    else readLiteral huffman .without 4 (b :: rest)

def readBlock (block : Bytes) : Option (List Representation) :=
  readAll (readRepresentation huffman) block

end Read

/-! ## Decoding -/

def Table.name (t : Table) : Name → Option Bytes
  | .index i => (t.entry i).map Prod.fst
  | .text s => some s

/-- The field a representation gives, if any, and the table after it. -/
def Table.apply (t : Table) : Representation → Option (List Field × Table)
  | .indexed i => (t.entry i).map fun f => ([f], t)
  | .literal how name value =>
    (t.name name).map fun n =>
      ([(n, value)], if how = .incremental then t.insert (n, value) else t)
  | .sizeUpdate size =>
    if size ≤ t.limit then
      some ([], { t with capacity := size, entries := evict size t.entries })
    else none

def Table.applyAll (t : Table) : List Representation → Option (List Field × Table)
  | [] => some ([], t)
  | r :: rs =>
    match t.apply r with
    | none => none
    | some (fs, t) => (t.applyAll rs).map fun (gs, t) => (fs ++ gs, t)

/-- The fields of a block and the table it leaves. -/
def decode (huffman : Bytes → Option Bytes) (t : Table) (block : Bytes) :
    Option (List Field × Table) :=
  match readBlock huffman block with
  | none => none
  | some rs => t.applyAll rs

/-! ## Representations that leave the dynamic table alone -/

/-- An index of the static table. -/
def InStatic (i : Nat) : Prop := 1 ≤ i ∧ i ≤ staticTable.length

/-- Neither inserts into the dynamic table nor refers to it nor resizes it. -/
def Representation.Static : Representation → Prop
  | .indexed i => InStatic i
  | .literal how (.index i) _ => how ≠ .incremental ∧ InStatic i
  | .literal how (.text _) _ => how ≠ .incremental
  | .sizeUpdate _ => False

/-- In every state of the table the representation gives `f` and changes nothing. -/
def Means (r : Representation) (f : Field) : Prop :=
  r.Static ∧ ∀ t : Table, t.apply r = some ([f], t)

theorem entry_static {i : Nat} {name value : String} (hi : 1 ≤ i)
    (h : staticTable[i - 1]? = some (name, value)) (t : Table) :
    InStatic i ∧ t.entry i = some (asBytes name, asBytes value) := by
  have hle : i ≤ staticTable.length := by
    have := (List.getElem?_eq_some_iff.mp h).1
    omega
  refine ⟨⟨hi, hle⟩, ?_⟩
  rw [Table.entry, if_neg (by omega), if_pos hle, h]
  rfl

theorem indexed_means {i : Nat} {name value : String} (hi : 1 ≤ i)
    (h : staticTable[i - 1]? = some (name, value)) :
    Means (.indexed i) (asBytes name, asBytes value) :=
  ⟨(entry_static hi h (.empty 0)).1, fun t => by
    rw [Table.apply, (entry_static hi h t).2]
    rfl⟩

theorem namedLiteral_means {i : Nat} {name tableValue : String} (hi : 1 ≤ i)
    (h : staticTable[i - 1]? = some (name, tableValue)) (value : Bytes) :
    Means (.literal .without (.index i) value) (asBytes name, value) :=
  ⟨⟨by decide, (entry_static hi h (.empty 0)).1⟩, fun t => by
    rw [Table.apply, Table.name, (entry_static hi h t).2]
    rfl⟩

theorem literal_means (name value : Bytes) :
    Means (.literal .without (.text name) value) (name, value) :=
  ⟨by simp [Representation.Static], fun _ => rfl⟩

/-- A block of such representations means its fields, whatever is in the table. -/
theorem applyAll_means {ι : Type} {rep : ι → Representation} {gives : ι → Field} {t : Table} :
    ∀ {pieces : List ι}, (∀ p ∈ pieces, Means (rep p) (gives p)) →
      t.applyAll (pieces.map rep) = some (pieces.map gives, t)
  | [], _ => rfl
  | p :: pieces, h => by
    have ih := applyAll_means (t := t) fun q hq => h q (List.mem_cons_of_mem p hq)
    rw [List.map_cons, Table.applyAll, (h p List.mem_cons_self).2 t]
    simp [ih]

end Shb.Http2.Rfc7541
