import Shb.Huffman
import Shb.Lib.Scan
import Shb.Http2.Hpack
import Shb.Http2.Rfc7541

/-!
# `:status` in any HPACK block

`find_status` decodes no field: it steps over each by its length and compares what could be a
`:status` with the few ways there are to write one. Here is the other side, a block as any encoder
may have written it: each field in any of the representations of RFC 7541 Section 6, its strings
plain or Huffman-coded, size updates in between, integers in as many octets as the decoder takes.
**What `find_status` says of the block is what the fields say** (`find_status_exact`).
-/

namespace Shb.Http2

open Lib Huffman Status
open Rfc7541 (Field Indexing staticTable)

/-! ## Integers and strings -/

/-- A `u32`, in at most four octets behind the first. -/
def intLimits : IntLimits HpackError := ⟨.short, .overflow, .tooLong, 2 ^ 32, 21⟩

theorem decodeIntTail_eq : ∀ (buf : Bytes) (value shift : Nat),
    decodeIntTail buf value shift = takeSeptets intLimits buf value shift
  | [], _, _ => rfl
  | _ :: rest, _, _ => by
    rw [decodeIntTail, takeSeptets]
    simp only [decodeIntTail_eq rest]
    rfl

theorem decodeInt_eq (buf : Bytes) (bits : Nat) :
    decodeInt buf bits = takeInt intLimits buf bits := by
  cases buf with
  | nil => rfl
  | cons b rest => simp only [decodeInt, takeInt, decodeIntTail_eq]

theorem decodeInt_spelled {bits mask value : Nat} {bytes : Bytes} (hbits : bits ≤ 8)
    (hmask : mask % 2 ^ bits = 0) (h : SpellsInt bits mask 4 value bytes) (rest : Bytes) :
    decodeInt (bytes ++ rest) bits = .ok (value, rest) := by
  rw [decodeInt_eq]
  exact takeInt_spelled hbits hmask (by decide) (by decide) h rest

theorem readStr_spelled {s : Str} {bytes : Bytes} (h : s.Spelled 7 0 4 bytes)
    (rest : Bytes) : readStr (bytes ++ rest) = .ok (s.octets, s.coded, rest) := by
  obtain ⟨b, tail, m, rfl, hmask, hint, hdigit⟩ := h.parts rfl
  have hread := decodeInt_spelled (by decide) hmask hint (s.octets ++ rest)
  have hflag : decide (b &&& 0x80 ≠ 0) = s.coded := by
    have hzero : b &&& 0x80 = 0 ↔ s.coded.toNat = 0 := (and_high b).1.trans (Eq.congr_left hdigit)
    cases hc : s.coded with
    | true => exact decide_eq_true fun h => by simpa [hc] using hzero.mp h
    | false => exact decide_eq_false (not_not.mpr (hzero.mpr (by rw [hc]; rfl)))
  rw [List.append_assoc]
  rw [List.cons_append] at hread ⊢
  simp only [readStr, hread, hflag]
  rw [if_neg (by rw [List.length_append]; omega), List.take_left, List.drop_left]

/-! ## A block as it may be written -/

inductive NameRep where
  | index (i : Nat)
  | text (s : Str)
  deriving DecidableEq, Repr

/-- A representation, with the choices an encoder has. -/
inductive FieldRep where
  | indexed (i : Nat)
  | literal (how : Indexing) (name : NameRep) (value : Str)
  | sizeUpdate (size : Nat)

/-- How many bits of the first octet the name has, and what is above them. -/
def nameBits : Indexing → Nat
  | .incremental => 6
  | .without => 4
  | .never => 4

def nameMask : Indexing → Nat
  | .incremental => 64
  | .without => 0
  | .never => 16

/-- These octets are one way to write the representation. -/
inductive Encodes : FieldRep → Bytes → Prop
  | indexed {i : Nat} {bytes : Bytes} : 1 ≤ i → SpellsInt 7 128 4 i bytes →
    Encodes (.indexed i) bytes
  | named {how : Indexing} {i : Nat} {value : Str} {b₁ b₂ : Bytes} : 1 ≤ i →
    SpellsInt (nameBits how) (nameMask how) 4 i b₁ → value.Spelled 7 0 4 b₂ →
    Encodes (.literal how (.index i) value) (b₁ ++ b₂)
  | spelled {how : Indexing} {name value : Str} {b₁ b₂ b₃ : Bytes} :
    SpellsInt (nameBits how) (nameMask how) 4 0 b₁ → name.Spelled 7 0 4 b₂ →
    value.Spelled 7 0 4 b₃ → Encodes (.literal how (.text name) value) (b₁ ++ (b₂ ++ b₃))
  | sizeUpdate {size : Nat} {bytes : Bytes} : SpellsInt 5 32 4 size bytes →
    Encodes (.sizeUpdate size) bytes

namespace FieldRep

/-- The field it gives, if that does not depend on the dynamic table. -/
def field : FieldRep → Option Field
  | indexed i => (staticTable[i - 1]?).map fun e => (asBytes e.1, asBytes e.2)
  | literal _ (.index i) value => (staticTable[i - 1]?).map fun e => (asBytes e.1, value.text)
  | literal _ (.text name) value => some (name.text, value.text)
  | sizeUpdate _ => none

/-- An index beyond the static table. -/
def Dynamic : FieldRep → Prop
  | indexed i => staticTable.length < i
  | literal _ (.index i) _ => staticTable.length < i
  | _ => False

/-- Neither a reference to the dynamic table nor a field named `:status`. -/
def Passed (r : FieldRep) : Prop := ¬ r.Dynamic ∧ ∀ f, r.field = some f → f.1 ≠ plainStatusName

end FieldRep

/-! ## What the static table says of `:status` -/

/-- The entries with that name, and what they are worth. -/
theorem static_status : ∀ i < 62, 1 ≤ i →
    ((staticTable[i - 1]?).any fun e => asBytes e.1 == plainStatusName) =
        (decide (statusIndexLo ≤ i) && decide (i ≤ statusIndexHi)) ∧
      (statusIndexLo ≤ i → i ≤ statusIndexHi →
        (staticTable[i - 1]?).bind (fun e => threeDigits (asBytes e.2)) =
          statusByIndex[i - statusIndexLo]?) := by
  decide +kernel

theorem length_staticTable : staticTable.length = 61 := by decide +kernel

/-- A name that is spelled out is compared in the form it comes in. -/
theorem compares_name (s : Str) :
    (if s.coded then s.octets == huffmanStatusName else s.octets == plainStatusName) =
      decide (s.text = plainStatusName) := by
  obtain ⟨text, coded⟩ := s
  cases coded with
  | false => simp [Str.octets, Bool.beq_eq_decide_eq]
  | true =>
    simp only [Str.octets, if_true, Bool.beq_eq_decide_eq]
    exact decide_eq_decide.mpr encode_eq_status

/-! ## What a representation says -/

/-- The value of a field that is, or is not, named `:status`. -/
def valueTells (named : Bool) (value : Str) : Except HpackError (Option Nat) :=
  if named then
    match statusValue value.octets value.coded with
    | .error e => .error (.status e)
    | .ok status => .ok (some status)
  else .ok none

/-- What `find_status` makes of a representation. -/
def FieldRep.tells : FieldRep → Except HpackError (Option Nat)
  | indexed i =>
    if 61 < i then .error .dynamicReference
    else if statusIndexLo ≤ i ∧ i ≤ statusIndexHi then .ok statusByIndex[i - statusIndexLo]?
    else .ok none
  | literal _ (.index i) value =>
    if 61 < i then .error .dynamicReference
    else valueTells (statusIndexLo ≤ i && i ≤ statusIndexHi) value
  | literal _ (.text name) value => valueTells (name.text = plainStatusName) value
  | sizeUpdate _ => .ok none

/-- What is said, and what is left to read. -/
def leaving (said : Except HpackError (Option Nat)) (rest : Bytes) :
    Except HpackError (Option Nat × Bytes) :=
  match said with
  | .error e => .error e
  | .ok status => .ok (status, rest)

section Octets

variable {first : UInt8} {block rest r₁ r₂ : Bytes}

theorem statusField_indexed {i : Nat} (h : 128 ≤ first.toNat) (hi : 1 ≤ i)
    (hread : decodeInt block 7 = .ok (i, rest)) :
    statusField first block = leaving (FieldRep.indexed i).tells rest := by
  have hbyte := first.toNat_lt
  have htop : first &&& 0x80 ≠ 0 := fun hzero => by
    have := (and_high first).1.mp hzero
    omega
  simp only [statusField, if_pos htop, hread, FieldRep.tells]
  by_cases hstatus : statusIndexLo ≤ i ∧ i ≤ statusIndexHi
  · have hin : ¬ 61 < i := by
      have : statusIndexHi = 14 := rfl
      omega
    rw [if_pos hstatus, if_neg hin, if_pos hstatus]
    rfl
  · rw [if_neg hstatus, if_neg (Nat.ne_of_gt hi), if_neg hstatus]
    split <;> rfl

theorem statusField_sizeUpdate {size : Nat} (hlo : 32 ≤ first.toNat) (hhi : first.toNat < 64)
    (hread : decodeInt block 5 = .ok (size, rest)) :
    statusField first block = .ok (none, rest) := by
  have htop : ¬ first &&& 0x80 ≠ 0 := not_not.mpr ((and_high first).1.mpr (by omega))
  have hsecond : first &&& 0x40 = 0 := (and_high first).2.1.mpr (by omega)
  have hthird : first &&& 0x20 ≠ 0 := fun hzero => by
    have := (and_high first).2.2.1.mp hzero
    omega
  simp only [statusField, if_neg htop, if_pos (And.intro hsecond hthird), hread]

/-- The first octet of a literal says how many of its bits are the name's. -/
theorem statusField_literal (how : Indexing) (hlo : nameMask how ≤ first.toNat)
    (hhi : first.toNat < nameMask how + 2 ^ nameBits how) :
    statusField first block =
      match decodeInt block (nameBits how) with
      | .error e => .error e
      | .ok (nameIndex, rest) =>
        match namedStatus nameIndex rest with
        | .error e => .error e
        | .ok (named, rest) =>
          match readStr rest with
          | .error e => .error e
          | .ok (value, huffman, rest) =>
            if named then
              match statusValue value huffman with
              | .error e => .error (.status e)
              | .ok status => .ok (some status, rest)
            else .ok (none, rest) := by
  have hrange : first.toNat < 32 ∨ 64 ≤ first.toNat ∧ first.toNat < 128 := by
    cases how <;> simp only [nameMask, nameBits] at hlo hhi <;> omega
  have htop : ¬ first &&& 0x80 ≠ 0 := not_not.mpr ((and_high first).1.mpr (by omega))
  have hupdate : ¬ (first &&& 0x40 = 0 ∧ first &&& 0x20 ≠ 0) := by
    rintro ⟨hsecond, hthird⟩
    have hlow := (and_high first).2.1.mp hsecond
    exact hthird ((and_high first).2.2.1.mpr (by omega))
  have hbits : (if first &&& 0x40 ≠ 0 then 6 else 4) = nameBits how := by
    have hsecond := (and_high first).2.1
    cases how with
    | incremental =>
      simp only [nameMask, nameBits] at hlo hhi
      exact if_pos fun hzero => by have := hsecond.mp hzero; omega
    | without | never =>
      simp only [nameMask, nameBits] at hlo hhi
      exact if_neg (not_not.mpr (hsecond.mpr (by omega)))
  rw [← hbits]
  exact (if_neg htop).trans (if_neg hupdate)

end Octets

/-- **A representation says what it says**, however it is written and whatever is behind it. -/
theorem statusField_encodes {r : FieldRep} {bytes : Bytes} (h : Encodes r bytes) :
    ∃ b tail, bytes = b :: tail ∧ ∀ rest, statusField b (bytes ++ rest) = leaving r.tells rest := by
  have hmask : ∀ how, nameMask how % 2 ^ nameBits how = 0 := by
    intro how
    cases how <;> rfl
  have hbits : ∀ how, nameBits how ≤ 8 := by
    intro how
    cases how <;> decide
  cases h with
  | indexed hi hint =>
    obtain ⟨b, tail, rfl, hlo, -⟩ := hint.head
    exact ⟨b, tail, rfl, fun rest =>
      statusField_indexed hlo hi (decodeInt_spelled (by decide) rfl hint rest)⟩
  | sizeUpdate hint =>
    obtain ⟨b, tail, rfl, hlo, hhi⟩ := hint.head
    exact ⟨b, tail, rfl,
      fun rest => statusField_sizeUpdate hlo hhi (decodeInt_spelled (by decide) rfl hint rest)⟩
  | @named how i value b₁ b₂ hi hint hvalue =>
    obtain ⟨b, tail, rfl, hlo, hhi⟩ := hint.head
    refine ⟨b, tail ++ b₂, rfl, fun rest => ?_⟩
    rw [statusField_literal how hlo hhi, List.append_assoc,
      decodeInt_spelled (hbits how) (hmask how) hint]
    simp only [namedStatus, if_neg (Nat.ne_of_gt hi), FieldRep.tells]
    by_cases hdynamic : 61 < i
    · rw [if_pos hdynamic, if_pos hdynamic]
      rfl
    · rw [if_neg hdynamic, if_neg hdynamic]
      simp only [readStr_spelled hvalue, valueTells]
      split
      · split
        · rfl
        · rfl
      · rfl
  | @spelled how name value b₁ b₂ b₃ hint hname hvalue =>
    obtain ⟨b, tail, rfl, hlo, hhi⟩ := hint.head
    refine ⟨b, tail ++ (b₂ ++ b₃), rfl, fun rest => ?_⟩
    rw [statusField_literal how hlo hhi, List.append_assoc, List.append_assoc,
      decodeInt_spelled (hbits how) (hmask how) hint]
    simp only [namedStatus, if_true, readStr_spelled hname, compares_name, readStr_spelled hvalue,
      FieldRep.tells, valueTells]
    split
    · split
      · rfl
      · rfl
    · rfl

/-! ## What the fields say -/

theorem tells_dynamic {r : FieldRep} (h : r.Dynamic) : r.tells = .error .dynamicReference := by
  cases r with
  | indexed i => exact if_pos (length_staticTable ▸ h)
  | literal how name value =>
    cases name with
    | index i => exact if_pos (length_staticTable ▸ h)
    | text s => exact h.elim
  | sizeUpdate size => exact h.elim

/-- An entry of the static table is a `:status` exactly if it is one of those `find_status` knows.
-/
theorem static_named {i : Nat} {e : String × String} (hi : 1 ≤ i)
    (he : staticTable[i - 1]? = some e) :
    ¬ 61 < i ∧ (asBytes e.1 = plainStatusName ↔ statusIndexLo ≤ i ∧ i ≤ statusIndexHi) := by
  have hlt : i < 62 := by
    have := (List.getElem?_eq_some_iff.mp he).1
    rw [length_staticTable] at this
    omega
  have hany := (static_status i hlt hi).1
  rw [he, Option.any_some] at hany
  refine ⟨Nat.not_lt.mpr (Nat.le_of_lt_succ hlt), ?_⟩
  rw [← beq_iff_eq, hany, Bool.and_eq_true, decide_eq_true_eq, decide_eq_true_eq]

theorem static_entry {i : Nat} (hi : 1 ≤ i) (hle : ¬ staticTable.length < i) :
    ∃ e, staticTable[i - 1]? = some e := by
  rw [← Option.isSome_iff_exists, isSome_getElem?]
  omega

theorem tells_passed {r : FieldRep} {bytes : Bytes} (hr : Encodes r bytes) (h : r.Passed) :
    r.tells = .ok none := by
  obtain ⟨hstatic, hother⟩ := h
  cases hr with
  | @indexed i _ hi _ =>
    obtain ⟨e, he⟩ := static_entry hi hstatic
    obtain ⟨hin, hnamed⟩ := static_named hi he
    have hname := hother (asBytes e.1, asBytes e.2) (by simp only [FieldRep.field, he,
      Option.map_some])
    simp only [FieldRep.tells, if_neg hin, if_neg (mt hnamed.mpr hname)]
  | @named how i value _ _ hi _ _ =>
    obtain ⟨e, he⟩ := static_entry hi hstatic
    obtain ⟨hin, hnamed⟩ := static_named hi he
    have hname := hother (asBytes e.1, value.text) (by simp only [FieldRep.field, he,
      Option.map_some])
    have hrange : (decide (statusIndexLo ≤ i) && decide (i ≤ statusIndexHi)) = false := by
      rw [← Bool.not_eq_true, Bool.and_eq_true, decide_eq_true_eq, decide_eq_true_eq]
      exact mt hnamed.mpr hname
    simp only [FieldRep.tells, if_neg hin, valueTells, hrange, Bool.false_eq_true, if_false]
  | @spelled how name value _ _ _ _ _ _ =>
    have hname := hother (name.text, value.text) rfl
    simp only [FieldRep.tells, valueTells, decide_eq_false hname, Bool.false_eq_true, if_false]
  | sizeUpdate => rfl

theorem tells_status {r : FieldRep} {bytes value : Bytes} {v : Nat} (hr : Encodes r bytes)
    (hfield : r.field = some (plainStatusName, value)) (hv : threeDigits value = some v) :
    r.tells = .ok (some v) := by
  cases hr with
  | @indexed i _ hi _ =>
    obtain ⟨e, he, hf⟩ := Option.map_eq_some_iff.mp hfield
    obtain ⟨hname, rfl⟩ := Prod.mk.inj hf
    obtain ⟨hin, hnamed⟩ := static_named hi he
    obtain ⟨hlo, hhi⟩ := hnamed.mp hname
    have hworth := (static_status i (by omega) hi).2 hlo hhi
    rw [he, Option.bind_some, hv] at hworth
    simp only [FieldRep.tells, if_neg hin, if_pos (And.intro hlo hhi), ← hworth]
  | @named how i s _ _ hi _ _ =>
    obtain ⟨e, he, hf⟩ := Option.map_eq_some_iff.mp hfield
    obtain ⟨hname, rfl⟩ := Prod.mk.inj hf
    obtain ⟨hin, hnamed⟩ := static_named hi he
    obtain ⟨hlo, hhi⟩ := hnamed.mp hname
    simp only [FieldRep.tells, if_neg hin, valueTells, decide_eq_true hlo, decide_eq_true hhi,
      Bool.and_self, if_true, statusValue_octets hv]
  | @spelled how name s _ _ _ _ _ _ =>
    obtain ⟨hname, rfl⟩ := Prod.mk.inj (Option.some.inj hfield)
    simp only [FieldRep.tells, valueTells, decide_eq_true hname, if_true, statusValue_octets hv]
  | sizeUpdate => cases hfield

/-! ## Blocks -/

/-- A representation as an encoder has written it. -/
structure WrittenField where
  rep : FieldRep
  bytes : Bytes
  encodes : Encodes rep bytes

def blockOf (ws : List WrittenField) : Bytes := (ws.map WrittenField.bytes).flatten

theorem findStatusFrom_eq : ∀ (fuel : Nat) (block : Bytes),
    findStatusFrom fuel block = firstHit statusField fuel block
  | 0, [] => rfl
  | 0, _ :: _ => rfl
  | _ + 1, [] => rfl
  | fuel + 1, first :: rest => by
    simp only [findStatusFrom, firstHit]
    generalize statusField first (first :: rest) = said
    rcases said with _ | ⟨_ | _, rest⟩
    · rfl
    · exact findStatusFrom_eq fuel rest
    · rfl

theorem passes {w : WrittenField} (h : w.rep.Passed) : Passes statusField w.bytes := by
  obtain ⟨b, tail, hbytes, hstep⟩ := statusField_encodes w.encodes
  rw [tells_passed w.encodes h] at hstep
  exact ⟨b, tail, hbytes, hstep⟩

/-- **Finding `:status` is exact.** Behind fields that are neither named `:status` nor refer to the
dynamic table: the value of a `:status` is found, whatever comes after; a reference to the dynamic
table makes it fail; and if there is nothing more, nothing is found. -/
theorem find_status_exact {before : List WrittenField} (hbefore : ∀ q ∈ before, q.rep.Passed)
    (w : WrittenField) (after : List WrittenField) :
    (∀ value v, w.rep.field = some (plainStatusName, value) → threeDigits value = some v →
        findStatus (blockOf (before ++ w :: after)) = .ok (some v)) ∧
      (w.rep.Dynamic → ∃ e, findStatus (blockOf (before ++ w :: after)) = .error e) ∧
      findStatus (blockOf before) = .ok none := by
  have hpass : ∀ item ∈ before.map WrittenField.bytes, Passes statusField item := by
    intro item hitem
    obtain ⟨q, hq, rfl⟩ := List.mem_map.mp hitem
    exact passes (hbefore q hq)
  obtain ⟨b, tail, hbytes, hstep⟩ := statusField_encodes w.encodes
  have hthis := hstep (blockOf after)
  have hfirst := firstHit_first hpass hbytes (after.map WrittenField.bytes)
  rw [← List.map_cons, ← List.map_append] at hfirst
  simp only [findStatus, findStatusFrom_eq]
  refine ⟨fun value v hfield hv => ?_, fun hdynamic => ?_, firstHit_none hpass⟩
  · rw [tells_status w.encodes hfield hv] at hthis
    exact hfirst.1 hthis
  · rw [tells_dynamic hdynamic] at hthis
    exact ⟨_, hfirst.2 hthis⟩

/-! ## A block of three representations -/

/-- A table size of zero. -/
def tableOfNone : WrittenField where
  rep := .sizeUpdate 0
  bytes := [0x20]
  encodes := .sizeUpdate (.short (by decide) rfl)

/-- A `date`, by its index in two octets, with a value of one. -/
def dateField : WrittenField where
  rep := .literal .without (.index 33) ⟨[0x78], false⟩
  bytes := [0x0f, 0x12] ++ [0x01, 0x78]
  encodes := .named (by decide) (.long (b := 0x0f) (n := 18) rfl (.last (by decide)) (by decide))
    ⟨[0x01], .short (by decide) rfl, rfl⟩

/-- A `:status` of 302 with its name and its value Huffman-coded. -/
def codedStatus : WrittenField where
  rep := .literal .incremental (.text ⟨plainStatusName, true⟩) ⟨ascii ['3', '0', '2'], true⟩
  bytes := [0x40] ++ ([0x85, 0xb8, 0x84, 0x8d, 0x36, 0xa3] ++ [0x82, 0x64, 0x02])
  encodes := .spelled (.short (by decide) rfl)
    ⟨[0x85], .short (by decide +kernel) (by decide +kernel), by decide +kernel⟩
    ⟨[0x82], .short (by decide +kernel) (by decide +kernel), by decide +kernel⟩

theorem find_status_exact_coded :
    findStatus [0x20, 0x0f, 0x12, 0x01, 0x78, 0x40, 0x85, 0xb8, 0x84, 0x8d, 0x36, 0xa3, 0x82, 0x64,
      0x02] = .ok (some 302) := by
  have hbefore : ∀ q ∈ [tableOfNone, dateField], q.rep.Passed := by
    intro q hq
    rcases List.mem_cons.mp hq with rfl | hq
    · exact ⟨fun h => h, fun f hf => nomatch hf⟩
    · rw [List.mem_singleton.mp hq]
      refine ⟨Nat.not_lt.mpr (by decide +kernel), fun f hf => ?_⟩
      rw [← Option.some.inj hf]
      decide +kernel
  exact (find_status_exact hbefore codedStatus []).1 (ascii ['3', '0', '2']) 302 rfl
    (by decide +kernel)

end Shb.Http2
