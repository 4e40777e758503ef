import Mathlib.Data.Nat.Bitwise
import Shb.Huffman
import Shb.Lib.Scan
import Shb.Http3.Qpack
import Shb.Http3.Rfc9204

/-!
# `:status` in any QPACK section

The same as for HPACK, over the field lines of RFC 9204 Section 4.5: a section as any encoder may
have written it, with a Required Insert Count of zero, whose lines are indexed, have a name by
reference or are spelled out. **What `find_status` says of the section is what the fields say**
(`qpack_find_status_exact`), and the few octets it looks at first make no difference, whatever the
section is.
-/

namespace Shb.Http3

open Lib Huffman Status
open Rfc9204 (Field staticTable)

/-! ## Integers and strings -/

/-- A `u64`, in at most nine octets behind the first. -/
def intLimits : IntLimits QpackError := ⟨.short, .overflow, .tooLong, 2 ^ 64, 56⟩

theorem decodeIntRest_eq : ∀ (buf : Bytes) (value shift : Nat),
    decodeIntRest buf value shift = takeSeptets intLimits buf value shift
  | [], _, _ => rfl
  | _ :: rest, _, _ => by
    rw [decodeIntRest, takeSeptets]
    simp only [decodeIntRest_eq rest]
    rfl

theorem decodeInt_eq (buf : Bytes) (bits : Nat) :
    decodeInt buf bits = takeInt intLimits buf bits := by
  cases buf with
  | nil => rfl
  | cons b rest => simp only [decodeInt, takeInt, decodeIntRest_eq]

theorem decodeInt_spelled {bits mask value : Nat} {bytes : Bytes} (hbits : bits ≤ 8)
    (hmask : mask % 2 ^ bits = 0) (h : SpellsInt bits mask 9 value bytes) (rest : Bytes) :
    decodeInt (bytes ++ rest) bits = .ok (value, rest) := by
  rw [decodeInt_eq]
  exact takeInt_spelled hbits hmask (by decide) (by decide) h rest

theorem readStr_spelled {s : Str} {bits mask : Nat} {bytes : Bytes} (hbits : bits < 8)
    (hmask : mask % 2 ^ (bits + 1) = 0) (h : s.Spelled bits mask 9 bytes) (rest : Bytes) :
    readStr (bytes ++ rest) bits = .ok (s.octets, s.coded, rest) := by
  obtain ⟨b, tail, m, rfl, hlow, hint, hdigit⟩ := h.parts hmask
  have hread := decodeInt_spelled (Nat.le_of_lt hbits) hlow hint (s.octets ++ rest)
  have hflag : decide (b.toNat &&& 2 ^ bits ≠ 0) = s.coded := by
    rw [Nat.and_two_pow, Nat.toNat_testBit, hdigit]
    cases s.coded with
    | true => exact decide_eq_true (by simp)
    | false => exact decide_eq_false (by simp)
  rw [List.append_assoc]
  rw [List.cons_append] at hread ⊢
  simp only [readStr, hread, hflag]
  rw [if_neg (by rw [List.length_append]; omega), List.take_left, List.drop_left]

/-! ## A section as it may be written -/

/-- A field line, with the choices an encoder has. -/
inductive LineRep where
  | indexed (inStatic : Bool) (i : Nat)
  | nameRef (never inStatic : Bool) (i : Nat) (value : Str)
  | literal (never : Bool) (name value : Str)
  | postBase (i : Nat)
  | postBaseName (never : Bool) (i : Nat) (value : Str)
  deriving DecidableEq, Repr

/-- A bit of the first octet. -/
def bitAt (weight : Nat) (set : Bool) : Nat := if set then weight else 0

/-- These octets are one way to write the line. -/
inductive EncodesLine : LineRep → Bytes → Prop
  | indexed {inStatic : Bool} {i : Nat} {bytes : Bytes} :
    SpellsInt 6 (128 + bitAt 64 inStatic) 9 i bytes → EncodesLine (.indexed inStatic i) bytes
  | nameRef {never inStatic : Bool} {i : Nat} {value : Str} {b₁ b₂ : Bytes} :
    SpellsInt 4 (64 + bitAt 32 never + bitAt 16 inStatic) 9 i b₁ → value.Spelled 7 0 9 b₂ →
    EncodesLine (.nameRef never inStatic i value) (b₁ ++ b₂)
  | literal {never : Bool} {name value : Str} {b₁ b₂ : Bytes} :
    name.Spelled 3 (32 + bitAt 16 never) 9 b₁ → value.Spelled 7 0 9 b₂ →
    EncodesLine (.literal never name value) (b₁ ++ b₂)
  | postBase {i : Nat} {bytes : Bytes} : SpellsInt 4 16 9 i bytes →
    EncodesLine (.postBase i) bytes
  | postBaseName {never : Bool} {i : Nat} {value : Str} {b₁ b₂ : Bytes} :
    SpellsInt 3 (bitAt 8 never) 9 i b₁ → value.Spelled 7 0 9 b₂ →
    EncodesLine (.postBaseName never i value) (b₁ ++ b₂)

def statusName : Bytes := ascii [':', 's', 't', 'a', 't', 'u', 's']

namespace LineRep

/-- The field it gives, if that does not depend on the dynamic table. -/
def field : LineRep → Option Field
  | indexed true i => (staticTable[i]?).map fun e => (asBytes e.1, asBytes e.2)
  | nameRef _ true i value => (staticTable[i]?).map fun e => (asBytes e.1, value.text)
  | literal _ name value => some (name.text, value.text)
  | _ => none

/-- A reference to the dynamic table, relative or post-base. -/
def Dynamic : LineRep → Prop
  | indexed inStatic _ => inStatic = false
  | nameRef _ inStatic _ _ => inStatic = false
  | literal .. => False
  | postBase _ => True
  | postBaseName .. => True

/-- Neither a reference to the dynamic table nor a field named `:status`. -/
def Passed (r : LineRep) : Prop := ¬ r.Dynamic ∧ ∀ f, r.field = some f → f.1 ≠ statusName

end LineRep

/-! ## What the static table says of `:status` -/

theorem length_staticTable : staticTable.length = 99 := by decide +kernel

theorem static_status : ∀ i < 99,
    isStatusIndex i = ((staticTable[i]?).any fun e => asBytes e.1 == statusName) ∧
      statusForIndex i = if isStatusIndex i
        then (staticTable[i]?).bind (fun e => threeDigits (asBytes e.2)) else none := by
  decide +kernel

variable {i : Nat}

theorem statusForIndex_large (h : 99 ≤ i) : statusForIndex i = none ∧ isStatusIndex i = false := by
  have hall : ∀ e ∈ statusEntries, e.1 < 99 := by decide +kernel
  have hne : ∀ e ∈ statusEntries, ¬ (e.1 == i) = true := by
    intro e he heq
    have := hall e he
    rw [beq_iff_eq] at heq
    omega
  constructor
  · rw [statusForIndex, List.find?_eq_none.mpr hne]
    rfl
  · rw [isStatusIndex, ← Bool.not_eq_true, List.any_eq_true]
    rintro ⟨e, he, heq⟩
    exact hne e he heq

/-- A name that is spelled out is compared in the form it comes in. -/
theorem isStatusName_octets (s : Str) :
    isStatusName s.octets s.coded = decide (s.text = statusName) := by
  obtain ⟨text, coded⟩ := s
  cases coded with
  | false =>
    simp only [isStatusName, Str.octets, Bool.false_eq_true, if_false, Bool.beq_eq_decide_eq]
    rfl
  | true =>
    simp only [isStatusName, Str.octets, if_true, Bool.beq_eq_decide_eq]
    exact decide_eq_decide.mpr encode_eq_status

/-! ## What a line says -/

/-- The value of a field that is, or is not, named `:status`. -/
def valueTells (named : Bool) (value : Str) : Except QpackError (Option Nat) :=
  if named then
    match statusValue value.octets value.coded with
    | .error e => .error (.status e)
    | .ok status => .ok (some status)
  else .ok none

/-- What `find_status` makes of a line. -/
def LineRep.tells : LineRep → Except QpackError (Option Nat)
  | indexed inStatic i => if inStatic then .ok (statusForIndex i) else .error .dynamicReference
  | nameRef _ inStatic i value =>
    if inStatic then valueTells (isStatusIndex i) value else .error .dynamicReference
  | literal _ name value => valueTells (name.text = statusName) value
  | postBase _ => .error .dynamicReference
  | postBaseName .. => .error .dynamicReference

/-- What is said, and what is left to read. -/
def leaving (said : Except QpackError (Option Nat)) (rest : Bytes) :
    Except QpackError (Option Nat × Bytes) :=
  match said with
  | .error e => .error e
  | .ok status => .ok (status, rest)

theorem literalValue_spelled {value : Str} {bytes : Bytes} (h : value.Spelled 7 0 9 bytes)
    (named : Bool) (rest : Bytes) :
    literalValue named (bytes ++ rest) = leaving (valueTells named value) rest := by
  simp only [literalValue, readStr_spelled (by decide) rfl h, valueTells]
  cases named with
  | false => rfl
  | true => cases statusValue value.octets value.coded <;> rfl

/-- What is below the third bit is of the dynamic table. -/
theorem statusLine_low {b : UInt8} {block : Bytes} (h : b.toNat < 32) :
    statusLine b block = .error .dynamicReference := by
  have htop : ¬ b &&& 0x80 ≠ 0 := by rw [not_not, (and_high b).1]; omega
  have hsecond : ¬ b &&& 0x40 ≠ 0 := by rw [not_not, (and_high b).2.1]; omega
  have hthird : ¬ b &&& 0x20 ≠ 0 := by rw [not_not, (and_high b).2.2.1]; omega
  rw [statusLine, if_neg htop, if_neg hsecond, if_neg hthird]

variable {r : LineRep}

/-- **A line says what it says**, however it is written and whatever is behind it. -/
theorem statusLine_encodes {bytes : Bytes} (h : EncodesLine r bytes) :
    ∃ b tail, bytes = b :: tail ∧ ∀ rest, statusLine b (bytes ++ rest) = leaving r.tells rest := by
  cases h with
  | @indexed inStatic i _ hint =>
    obtain ⟨b, tail, rfl, hlo, hhi⟩ := hint.head
    have hbyte := b.toNat_lt
    refine ⟨b, tail, rfl, fun rest => ?_⟩
    have htop : b &&& 0x80 ≠ 0 := by rw [Ne, (and_high b).1]; omega
    simp only [statusLine, if_pos htop,
      decodeInt_spelled (by decide) (by cases inStatic <;> rfl) hint]
    cases inStatic with
    | true =>
      simp only [bitAt, if_true] at hlo
      rw [if_neg (by rw [(and_high b).2.1]; omega)]
      rfl
    | false =>
      simp only [bitAt, Bool.false_eq_true, if_false] at hhi
      rw [if_pos ((and_high b).2.1.mpr (by omega))]
      rfl
  | @nameRef never inStatic i value b₁ b₂ hint hvalue =>
    obtain ⟨b, tail, rfl, hlo, hhi⟩ := hint.head
    refine ⟨b, tail ++ b₂, rfl, fun rest => ?_⟩
    have hrange : 64 ≤ b.toNat ∧ b.toNat < 128 ∧ (b.toNat / 16 % 2 = 0 ↔ inStatic = false) := by
      cases never <;> cases inStatic <;>
        simp only [bitAt, Bool.false_eq_true, if_true, if_false] at hlo hhi <;>
        refine ⟨by omega, by omega, ?_⟩ <;> simp <;> omega
    have htop : ¬ b &&& 0x80 ≠ 0 := by rw [not_not, (and_high b).1]; omega
    have hsecond : b &&& 0x40 ≠ 0 := by rw [Ne, (and_high b).2.1]; omega
    have hmask : (64 + bitAt 32 never + bitAt 16 inStatic) % 2 ^ 4 = 0 := by
      cases never <;> cases inStatic <;> rfl
    simp only [statusLine, if_neg htop, if_pos hsecond, List.append_assoc,
      decodeInt_spelled (by decide) hmask hint, (and_high b).2.2.2, hrange.2.2]
    cases inStatic with
    | true => exact literalValue_spelled hvalue _ rest
    | false => rfl
  | @literal never name value b₁ b₂ hname hvalue =>
    obtain ⟨head, hint, hbytes⟩ := id hname
    obtain ⟨b, tail, hhead, hlo, hhi⟩ := hint.head
    refine ⟨b, tail ++ name.octets ++ b₂, ?_, fun rest => ?_⟩
    · rw [hbytes, hhead]
      rfl
    have hrange : 32 ≤ b.toNat ∧ b.toNat < 64 := by
      cases never <;> cases hc : name.coded <;> rw [hc] at hlo hhi <;>
        simp only [bitAt, Bool.false_eq_true, if_true, if_false] at hlo hhi <;> omega
    have htop : ¬ b &&& 0x80 ≠ 0 := by rw [not_not, (and_high b).1]; omega
    have hsecond : ¬ b &&& 0x40 ≠ 0 := by rw [not_not, (and_high b).2.1]; omega
    have hthird : b &&& 0x20 ≠ 0 := by rw [Ne, (and_high b).2.2.1]; omega
    have hmask : (32 + bitAt 16 never) % 2 ^ (3 + 1) = 0 := by cases never <;> rfl
    simp only [statusLine, if_neg htop, if_neg hsecond, if_pos hthird, List.append_assoc,
      readStr_spelled (by decide) hmask hname, isStatusName_octets]
    exact literalValue_spelled hvalue _ rest
  | @postBase i _ hint =>
    obtain ⟨b, tail, rfl, hlo, hhi⟩ := hint.head
    exact ⟨b, tail, rfl, fun rest => statusLine_low (by omega)⟩
  | @postBaseName never i value b₁ b₂ hint hvalue =>
    obtain ⟨b, tail, rfl, hlo, hhi⟩ := hint.head
    refine ⟨b, tail ++ b₂, rfl, fun rest => statusLine_low ?_⟩
    cases never <;> simp only [bitAt, Bool.false_eq_true, if_true, if_false] at hhi <;> omega

/-! ## What the fields say -/

theorem tells_dynamic (h : r.Dynamic) : r.tells = .error .dynamicReference := by
  cases r with
  | indexed inStatic i | nameRef never inStatic i value =>
    cases (show inStatic = false from h)
    rfl
  | literal never name value => exact h.elim
  | postBase i => rfl
  | postBaseName never i value => rfl

/-- An entry of the static table is a `:status` exactly if it is one of those `find_status` knows,
and is worth what it knows. -/
theorem static_named {e : String × String} (he : staticTable[i]? = some e) :
    (isStatusIndex i = true ↔ asBytes e.1 = statusName) ∧
      statusForIndex i = if isStatusIndex i then threeDigits (asBytes e.2) else none := by
  have hlt : i < 99 := by
    have := (List.getElem?_eq_some_iff.mp he).1
    rwa [length_staticTable] at this
  obtain ⟨hnamed, hworth⟩ := static_status i hlt
  rw [he, Option.any_some] at hnamed
  rw [he, Option.bind_some] at hworth
  exact ⟨by rw [hnamed, beq_iff_eq], hworth⟩

/-- No status, where no entry of the static table is one. -/
theorem static_other (h : ∀ e, staticTable[i]? = some e → asBytes e.1 ≠ statusName) :
    statusForIndex i = none ∧ isStatusIndex i = false := by
  cases he : staticTable[i]? with
  | none =>
    refine statusForIndex_large ?_
    exact List.getElem?_eq_none_iff.mp he
  | some e =>
    obtain ⟨hnamed, hworth⟩ := static_named he
    have hother : isStatusIndex i = false := by
      rw [← Bool.not_eq_true]
      exact mt hnamed.mp (h e he)
    rw [hother] at hworth
    exact ⟨hworth, hother⟩

theorem tells_passed (h : r.Passed) : r.tells = .ok none := by
  obtain ⟨hstatic, hother⟩ := h
  cases r with
  | indexed inStatic i =>
    cases inStatic with
    | false => exact absurd rfl hstatic
    | true =>
      have hnone := (static_other (i := i) fun e he => hother (asBytes e.1, asBytes e.2)
        (by simp only [LineRep.field, he, Option.map_some])).1
      simp only [LineRep.tells, if_true, hnone]
  | nameRef never inStatic i value =>
    cases inStatic with
    | false => exact absurd rfl hstatic
    | true =>
      have hfalse := (static_other (i := i) fun e he => hother (asBytes e.1, value.text)
        (by simp only [LineRep.field, he, Option.map_some])).2
      simp only [LineRep.tells, if_true, valueTells, hfalse, Bool.false_eq_true, if_false]
  | literal never name value =>
    have hname := hother (name.text, value.text) rfl
    simp only [LineRep.tells, valueTells, decide_eq_false hname, Bool.false_eq_true, if_false]
  | postBase i | postBaseName never i value => exact absurd trivial hstatic

theorem tells_status {value : Bytes} {v : Nat} (hfield : r.field = some (statusName, value))
    (hv : threeDigits value = some v) : r.tells = .ok (some v) := by
  cases r with
  | indexed inStatic i =>
    cases inStatic with
    | false => cases hfield
    | true =>
      obtain ⟨e, he, hf⟩ := Option.map_eq_some_iff.mp hfield
      obtain ⟨hname, rfl⟩ := Prod.mk.inj hf
      obtain ⟨hnamed, hworth⟩ := static_named he
      rw [if_pos (hnamed.mpr hname), hv] at hworth
      simp only [LineRep.tells, if_true, hworth]
  | nameRef never inStatic i s =>
    cases inStatic with
    | false => cases hfield
    | true =>
      obtain ⟨e, he, hf⟩ := Option.map_eq_some_iff.mp hfield
      obtain ⟨hname, rfl⟩ := Prod.mk.inj hf
      simp only [LineRep.tells, if_true, valueTells, (static_named he).1.mpr hname,
        statusValue_octets hv]
  | literal never name s =>
    obtain ⟨hname, rfl⟩ := Prod.mk.inj (Option.some.inj hfield)
    simp only [LineRep.tells, valueTells, decide_eq_true hname, if_true, statusValue_octets hv]
  | postBase i => cases hfield
  | postBaseName never i s => cases hfield

/-! ## Sections -/

/-- A field line as an encoder has written it. -/
structure WrittenLine where
  rep : LineRep
  bytes : Bytes
  encodes : EncodesLine rep bytes

/-- What a section begins with: a Required Insert Count of zero, and a base. -/
structure SectionStart where
  bytes : Bytes
  sign : Bool
  deltaBase : Nat
  encodes : SpellsInt 7 (bitAt 128 sign) 9 deltaBase bytes

def sectionOf (start : SectionStart) (ws : List WrittenLine) : Bytes :=
  0 :: (start.bytes ++ (ws.map WrittenLine.bytes).flatten)

/-- `find_status` without the octets it looks at first. -/
def findStatusSlow (fields : Bytes) : Except QpackError (Option Nat) :=
  match decodeInt fields 8 with
  | .error e => .error e
  | .ok (requiredInsertCount, rest) =>
    if requiredInsertCount ≠ 0 then .error .dynamicReference
    else
      match decodeInt rest 7 with
      | .error e => .error e
      | .ok (_, rest) => findStatusFrom rest.length rest

theorem findStatusFrom_eq : ∀ (fuel : Nat) (block : Bytes),
    findStatusFrom fuel block = firstHit statusLine fuel block
  | 0, [] => rfl
  | 0, _ :: _ => rfl
  | _ + 1, [] => rfl
  | fuel + 1, first :: rest => by
    simp only [findStatusFrom, firstHit]
    generalize statusLine first (first :: rest) = said
    rcases said with _ | ⟨_ | _, rest⟩
    · rfl
    · exact findStatusFrom_eq fuel rest
    · rfl

theorem findStatusSlow_section (start : SectionStart) (ws : List WrittenLine) :
    findStatusSlow (sectionOf start ws) =
      firstHit statusLine (ws.map WrittenLine.bytes).flatten.length
        (ws.map WrittenLine.bytes).flatten := by
  have hcount : ∀ rest, decodeInt (0 :: rest) 8 = .ok (0, rest) := fun _ => rfl
  have hmask : bitAt 128 start.sign % 2 ^ 7 = 0 := by cases start.sign <;> rfl
  simp only [findStatusSlow, sectionOf, hcount, decodeInt_spelled (by decide) hmask start.encodes,
    findStatusFrom_eq, ne_eq, not_true, if_false]

/-- The one octet that is looked at first is read as any field line is. -/
theorem findStatus_eq_slow (fields : Bytes) : findStatus fields = findStatusSlow fields := by
  cases hquick : quickStatus fields with
  | none =>
    simp only [findStatus, hquick]
    rfl
  | some status =>
    simp only [findStatus, hquick]
    unfold quickStatus at hquick
    split at hquick
    · rename_i first rest
      split at hquick
      · rename_i hfirst
        have hbyte := first.toNat_lt
        have hhigh : 192 ≤ first.toNat := by
          have hall : ∀ n < 256, UInt8.ofNat n &&& 0xc0 = 0xc0 → 192 ≤ n := by decide +kernel
          exact hall first.toNat hbyte (by rw [UInt8.ofNat_toNat]; exact hfirst.1)
        have hlow : (first &&& 0x3f).toNat = first.toNat &&& (2 ^ 6 - 1) := UInt8.toNat_and _ _
        have hshort : first.toNat &&& (2 ^ 6 - 1) < 2 ^ 6 - 1 := by
          have hne : (first &&& 0x3f).toNat ≠ 63 := fun h => hfirst.2 (UInt8.toNat_inj.mp h)
          have hle : first.toNat &&& (2 ^ 6 - 1) ≤ 2 ^ 6 - 1 := Nat.and_le_right
          omega
        have hindex : decodeInt (first :: rest) 6 = .ok (first.toNat &&& (2 ^ 6 - 1), rest) := by
          simp only [decodeInt, if_pos hshort]
        have htop : first &&& 0x80 ≠ 0 := by rw [Ne, (and_high first).1]; omega
        have hsecond : ¬ first &&& 0x40 = 0 := by rw [(and_high first).2.1]; omega
        have hline : statusLine first (first :: rest) = .ok (some status, rest) := by
          rw [hlow] at hquick
          simp only [statusLine, if_pos htop, hindex, if_neg hsecond, hquick]
        have hslow : findStatusSlow (0 :: 0 :: first :: rest) =
            findStatusFrom (first :: rest).length (first :: rest) := rfl
        rw [hslow, List.length_cons]
        simp only [findStatusFrom, hline]
      · cases hquick
    · cases hquick

theorem passes {w : WrittenLine} (h : w.rep.Passed) : Passes statusLine w.bytes := by
  obtain ⟨b, tail, hbytes, hstep⟩ := statusLine_encodes w.encodes
  rw [tells_passed h] at hstep
  exact ⟨b, tail, hbytes, hstep⟩

/-- **Finding `:status` is exact, and the fast path is invisible.** Behind lines that are neither
named `:status` nor refer to the dynamic table: the value of a `:status` is found, whatever comes
after; a reference to the dynamic table makes it fail; and if there is nothing more, nothing is
found. Any section at all gives the same without the fast path. -/
theorem qpack_find_status_exact :
    (∀ (start : SectionStart) (before after : List WrittenLine) (w : WrittenLine),
      (∀ q ∈ before, q.rep.Passed) →
      (∀ value v, w.rep.field = some (statusName, value) → threeDigits value = some v →
          findStatus (sectionOf start (before ++ w :: after)) = .ok (some v)) ∧
        (w.rep.Dynamic → ∃ e, findStatus (sectionOf start (before ++ w :: after)) = .error e) ∧
        findStatus (sectionOf start before) = .ok none) ∧
      ∀ fields, findStatus fields = findStatusSlow fields := by
  refine ⟨fun start before after w hbefore => ?_, findStatus_eq_slow⟩
  have hpass : ∀ item ∈ before.map WrittenLine.bytes, Passes statusLine item := by
    intro item hitem
    obtain ⟨q, hq, rfl⟩ := List.mem_map.mp hitem
    exact passes (hbefore q hq)
  obtain ⟨b, tail, hbytes, hstep⟩ := statusLine_encodes w.encodes
  have hthis := hstep (after.map WrittenLine.bytes).flatten
  have hfirst := firstHit_first hpass hbytes (after.map WrittenLine.bytes)
  rw [← List.map_cons, ← List.map_append] at hfirst
  simp only [findStatus_eq_slow, findStatusSlow_section]
  refine ⟨fun value v hfield hv => ?_, fun hdynamic => ?_, firstHit_none hpass⟩
  · rw [tells_status hfield hv] at hthis
    exact hfirst.1 hthis
  · rw [tells_dynamic hdynamic] at hthis
    exact ⟨_, hfirst.2 hthis⟩

/-- No base to speak of. -/
def plainStart : SectionStart where
  bytes := [0x00]
  sign := false
  deltaBase := 0
  encodes := .short (by decide +kernel) (by decide +kernel)

/-- `date: x`, its name from the static table. -/
def dateLine : WrittenLine where
  rep := .nameRef false true 6 ⟨ascii ['x'], false⟩
  bytes := [0x56] ++ [0x01, 0x78]
  encodes := .nameRef (.short (by decide +kernel) (by decide +kernel))
    ⟨[0x01], .short (by decide +kernel) (by decide +kernel), by decide +kernel⟩

theorem encodes_codedStatus :
    EncodesLine (.nameRef false true 24 ⟨ascii ['3', '0', '2'], true⟩)
      ([0x5f, 0x09] ++ [0x82, 0x64, 0x02]) :=
  .nameRef (.long (b := 0x5f) (n := 9) rfl (.last (by decide)) (by decide))
    ⟨[0x82], .short (by decide +kernel) (by decide +kernel), by decide +kernel⟩

/-- `:status: 302`, its name from the static table and its value Huffman-coded. -/
def codedStatusLine : WrittenLine where
  rep := .nameRef false true 24 ⟨ascii ['3', '0', '2'], true⟩
  bytes := [0x5f, 0x09] ++ [0x82, 0x64, 0x02]
  encodes := encodes_codedStatus

theorem qpack_find_status_exact_coded :
    findStatus [0x00, 0x00, 0x56, 0x01, 0x78, 0x5f, 0x09, 0x82, 0x64, 0x02] = .ok (some 302) := by
  have hbefore : ∀ q ∈ [dateLine], q.rep.Passed := by
    intro q hq
    rw [List.mem_singleton.mp hq]
    refine ⟨fun h => (nomatch h), fun f hf => ?_⟩
    rw [← Option.some.inj hf]
    decide +kernel
  exact (qpack_find_status_exact.1 plainStart [dateLine] [] codedStatusLine hbefore).1
    (ascii ['3', '0', '2']) 302 (by decide +kernel) (by decide +kernel)

end Shb.Http3
