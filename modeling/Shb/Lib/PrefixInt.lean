import Shb.Lib.Bytes
import Mathlib.Data.Nat.Digits.Defs
import Mathlib.Tactic.Ring

/-!
# Prefix integers and string literals

The integer and string formats HPACK and QPACK share (RFC 7541 Section 5, RFC 9204 Section
4.1): an integer starts in the low bits of an octet whose high bits say what it belongs to and
goes on, when it does not fit, in groups of seven bits, least significant first. The writers
are loops with fuel; the readers are the formats' own algorithms and take integers of any size.
A string is its length and its octets, with a bit above the length that says whether they are
Huffman-coded; the decoder for that code is a parameter.

The last part is about a reader run to the end of its input: where every piece of the input
reads back as the item it was written from, the input reads back as the items.
-/

namespace Shb.Lib

/-! ## Writing -/

/-- Groups of seven bits, all but the last with the top bit set. -/
def septets : Nat → Nat → Bytes
  | 0, rest => [UInt8.ofNat rest]
  | fuel + 1, rest =>
    if 128 ≤ rest then UInt8.ofNat (rest % 128 + 128) :: septets fuel (rest / 128)
    else [UInt8.ofNat rest]

/-- An integer in the low `bits` of an octet that starts out as `mask`. -/
def putInt (fuel bits : Nat) (mask : UInt8) (value : Nat) : Bytes :=
  let max := 2 ^ bits - 1
  if value < max then [mask ||| UInt8.ofNat value]
  else (mask ||| UInt8.ofNat max) :: septets fuel (value - max)

/-- Groups of seven bits, all but the last with the top bit set, as any writer may have them: the
high groups may be zero. -/
inductive Septets : Bytes → Nat → Prop
  | last {b : UInt8} : b.toNat < 128 → Septets [b] b.toNat
  | more {b : UInt8} {bs : Bytes} {n : Nat} : 128 ≤ b.toNat → Septets bs n →
    Septets (b :: bs) (b.toNat - 128 + 128 * n)

/-- An integer in the low `bits` of an octet, above `mask`, and if it does not fit in at most
`most` further octets. -/
inductive SpellsInt (bits mask most : Nat) : Nat → Bytes → Prop
  | short {b : UInt8} {value : Nat} : value < 2 ^ bits - 1 → b.toNat = mask + value →
    SpellsInt bits mask most value [b]
  | long {b : UInt8} {tail : Bytes} {n : Nat} : b.toNat = mask + (2 ^ bits - 1) →
    Septets tail n → tail.length ≤ most → SpellsInt bits mask most (2 ^ bits - 1 + n) (b :: tail)

theorem Septets.length_pos {bs : Bytes} {n : Nat} (h : Septets bs n) : 0 < bs.length := by
  cases h with
  | last => exact Nat.one_pos
  | more => exact Nat.succ_pos _

theorem Septets.lt {bs : Bytes} {n : Nat} (h : Septets bs n) : n < 2 ^ (7 * bs.length) := by
  induction h with
  | last hb => exact hb
  | @more b bs n _ _ ih =>
    have hb := b.toNat_lt
    rw [List.length_cons, Nat.mul_succ, Nat.pow_add]
    omega

/-- What one group adds, and what is still to come. -/
theorem septets_sum (value shift b n : Nat) :
    value + b * 2 ^ shift + n * 2 ^ (shift + 7) = value + (b + 128 * n) * 2 ^ shift ∧
      value + b * 2 ^ shift ≤ value + (b + 128 * n) * 2 ^ shift := by
  have hsum : value + b * 2 ^ shift + n * 2 ^ (shift + 7) = value + (b + 128 * n) * 2 ^ shift := by
    ring
  exact ⟨hsum, by omega⟩

theorem and_septet (b : UInt8) : (b &&& 0x7f).toNat = b.toNat % 128 := by
  exact Nat.and_two_pow_sub_one_eq_mod b.toNat 7

theorem and_low {bits mask v : Nat} {b : UInt8} (hmask : mask % 2 ^ bits = 0) (hv : v < 2 ^ bits)
    (hb : b.toNat = mask + v) : b.toNat &&& (2 ^ bits - 1) = v := by
  rw [Nat.and_two_pow_sub_one_eq_mod, hb, Nat.add_mod, hmask, Nat.zero_add, Nat.mod_mod,
    Nat.mod_eq_of_lt hv]

/-- An integer is not empty, and its first octet is above its mask. -/
theorem SpellsInt.head {bits mask most value : Nat} {bytes : Bytes}
    (h : SpellsInt bits mask most value bytes) :
    ∃ b tail, bytes = b :: tail ∧ mask ≤ b.toNat ∧ b.toNat < mask + 2 ^ bits := by
  have hpos := Nat.two_pow_pos bits
  cases h with
  | short hv hb => exact ⟨_, [], rfl, by omega, by omega⟩
  | long hb => exact ⟨_, _, rfl, by omega, by omega⟩

/-! ## Reading -/

def readSeptets : Bytes → Nat → Nat → Option (Nat × Bytes)
  | [], _, _ => none
  | b :: rest, value, shift =>
    let value := value + b.toNat % 128 * 2 ^ shift
    if b.toNat < 128 then some (value, rest) else readSeptets rest value (shift + 7)

def readInt (bits : Nat) : Bytes → Option (Nat × Bytes)
  | [] => none
  | b :: rest =>
    let first := b.toNat % 2 ^ bits
    if first < 2 ^ bits - 1 then some (first, rest) else readSeptets rest (2 ^ bits - 1) 0

/-! ## Reading within limits

The readers of the source stop at integers that are too long or too large for their type. -/

/-- The errors of a reader, the size of its type, and the last shift it takes. -/
structure IntLimits (ε : Type) where
  short : ε
  overflow : ε
  tooLong : ε
  size : Nat
  lastShift : Nat

section Limits

variable {ε : Type} (L : IntLimits ε)

def takeSeptets : Bytes → Nat → Nat → Except ε (Nat × Bytes)
  | [], _, _ => .error L.short
  | byte :: rest, value, shift =>
    let value := value + (byte &&& 0x7f).toNat <<< shift
    if L.size ≤ value then .error L.overflow
    else if byte &&& 0x80 = 0 then .ok (value, rest)
    else if L.lastShift < shift + 7 then .error L.tooLong
    else takeSeptets rest value (shift + 7)

def takeInt (buf : Bytes) (bits : Nat) : Except ε (Nat × Bytes) :=
  match buf with
  | [] => .error L.short
  | b :: rest =>
    let max := 2 ^ bits - 1
    let first := b.toNat &&& max
    if first < max then .ok (first, rest) else takeSeptets L rest max 0

variable {L}

theorem takeSeptets_spelled {bs : Bytes} {n : Nat} (h : Septets bs n) :
    ∀ {value shift : Nat} (rest : Bytes), shift + 7 * bs.length ≤ L.lastShift + 7 →
      value + n * 2 ^ shift < L.size →
      takeSeptets L (bs ++ rest) value shift = .ok (value + n * 2 ^ shift, rest) := by
  induction h with
  | @last b hb =>
    intro value shift rest _ hlt
    have hzero : b &&& 0x80 = 0 := (and_high b).1.mpr (by omega)
    simp only [List.singleton_append, takeSeptets, and_septet, Nat.mod_eq_of_lt hb,
      Nat.shiftLeft_eq]
    rw [if_neg (Nat.not_le.mpr hlt), if_pos hzero]
  | @more b bs n hb hs ih =>
    intro value shift rest hlen hlt
    have hbyte := b.toNat_lt
    have hpos := hs.length_pos
    rw [List.length_cons] at hlen
    have hone : ¬ b &&& 0x80 = 0 := fun hzero => by
      have := (and_high b).1.mp hzero
      omega
    have hmod : b.toNat % 128 = b.toNat - 128 := by omega
    obtain ⟨hsum, hpart⟩ := septets_sum value shift (b.toNat - 128) n
    simp only [List.cons_append, takeSeptets, and_septet, hmod, Nat.shiftLeft_eq]
    rw [if_neg (by omega), if_neg hone, if_neg (by omega), ih rest (by omega) (by omega), hsum]

/-- An integer within the limits is read, and nothing behind it. -/
theorem takeInt_spelled {bits mask most value : Nat} {bytes : Bytes} (hbits : bits ≤ 8)
    (hmask : mask % 2 ^ bits = 0) (hmost : 7 * most ≤ L.lastShift + 7)
    (hsize : 2 ^ 8 + 2 ^ (L.lastShift + 7) ≤ L.size) (h : SpellsInt bits mask most value bytes)
    (rest : Bytes) : takeInt L (bytes ++ rest) bits = .ok (value, rest) := by
  have hbyte : 2 ^ bits ≤ 2 ^ 8 := Nat.pow_le_pow_right (by decide) hbits
  cases h with
  | short hv hb =>
    simp [takeInt, and_low hmask (by omega) hb, if_pos hv]
  | @long b tail n hb hs hlen =>
    have hn := hs.lt
    have hle : 2 ^ (7 * tail.length) ≤ 2 ^ (L.lastShift + 7) :=
      Nat.pow_le_pow_right (by decide) (by omega)
    simp only [List.cons_append, takeInt,
      and_low hmask (show 2 ^ bits - 1 < 2 ^ bits by omega) hb, Nat.lt_irrefl, if_false]
    rw [takeSeptets_spelled hs rest (by omega) (by omega), Nat.pow_zero, Nat.mul_one]

/-- What is behind the last octet a reader may take is not looked at. -/
theorem takeSeptets_append (tail : Bytes) : ∀ (buf : Bytes) {value shift : Nat},
    shift ≤ L.lastShift → L.lastShift < shift + 7 * buf.length →
      takeSeptets L (buf ++ tail) value shift =
        (takeSeptets L buf value shift).map fun r => (r.1, r.2 ++ tail) := by
  intro buf
  induction buf with
  | nil =>
    intro value shift hle hlt
    exact absurd hle (Nat.not_le.mpr hlt)
  | cons b buf ih =>
    intro value shift hle hlt
    rw [List.length_cons] at hlt
    simp only [List.cons_append, takeSeptets]
    split
    · rfl
    split
    · rfl
    split
    · rfl
    · exact ih (by omega) (by omega)

theorem takeInt_append {bits : Nat} {buf : Bytes} (tail : Bytes)
    (h : L.lastShift + 7 < 7 * buf.length) :
    takeInt L (buf ++ tail) bits = (takeInt L buf bits).map fun r => (r.1, r.2 ++ tail) := by
  cases buf with
  | nil => exact absurd h (Nat.not_lt_zero _)
  | cons b buf =>
    rw [List.length_cons] at h
    simp only [List.cons_append, takeInt]
    split
    · rfl
    · exact takeSeptets_append tail buf (Nat.zero_le _) (by omega)

/-- With room for a prefix and for all the groups, the sum never leaves the type. -/
theorem takeSeptets_in_range {max : Nat} (hsize : max + 2 ^ (L.lastShift + 7) ≤ L.size)
    (hshort : L.short ≠ L.overflow) (hlong : L.tooLong ≠ L.overflow) :
    ∀ (buf : Bytes) {value shift : Nat}, shift ≤ L.lastShift → value < max + 2 ^ shift →
      takeSeptets L buf value shift ≠ .error L.overflow := by
  intro buf
  induction buf with
  | nil =>
    intro value shift _ _ h
    exact hshort (Except.error.inj h)
  | cons b buf ih =>
    intro value shift hle hvalue
    -- after this group the sum is below the prefix and one more group
    have hgroup : value + b.toNat % 128 * 2 ^ shift < max + 2 ^ (shift + 7) := by
      have hmod : b.toNat % 128 * 2 ^ shift ≤ 127 * 2 ^ shift :=
        Nat.mul_le_mul_right _ (Nat.le_of_lt_succ (Nat.mod_lt _ (by decide)))
      rw [Nat.pow_add]
      omega
    have hgroups : 2 ^ (shift + 7) ≤ 2 ^ (L.lastShift + 7) :=
      Nat.pow_le_pow_right (by decide) (Nat.add_le_add_right hle 7)
    simp only [takeSeptets, and_septet, Nat.shiftLeft_eq]
    rw [if_neg (by omega)]
    split
    · exact fun h => nomatch h
    split
    · exact fun h => hlong (Except.error.inj h)
    · exact ih (by omega) hgroup

theorem takeInt_in_range {bits : Nat} {buf : Bytes} (hbits : bits ≤ 8)
    (hsize : 2 ^ 8 + 2 ^ (L.lastShift + 7) ≤ L.size) (hshort : L.short ≠ L.overflow)
    (hlong : L.tooLong ≠ L.overflow) : takeInt L buf bits ≠ .error L.overflow := by
  have hbyte : 2 ^ bits ≤ 2 ^ 8 := Nat.pow_le_pow_right (by decide) hbits
  cases buf with
  | nil => exact fun h => hshort (Except.error.inj h)
  | cons b rest =>
    simp only [takeInt]
    split
    · exact fun h => nomatch h
    · exact takeSeptets_in_range (by omega) hshort hlong rest (Nat.zero_le _) (by omega)

end Limits

/-- A string literal with its length in the low `bits` and the Huffman bit above them. -/
def readString (huffman : Bytes → Option Bytes) (bits : Nat) (buf : Bytes) :
    Option (Bytes × Bytes) :=
  match readInt bits buf with
  | none => none
  | some (len, rest) =>
    if rest.length < len then none
    else if (buf.headD 0).toNat / 2 ^ bits % 2 = 1 then
      (huffman (rest.take len)).map fun s => (s, rest.drop len)
    else some (rest.take len, rest.drop len)

/-! ## What is written reads back -/

theorem septets_spell {fuel : Nat} : ∀ {n k : Nat}, n < 128 ^ (fuel + 1) → n < 128 ^ k → 0 < k →
    Septets (septets fuel n) n ∧ (septets fuel n).length ≤ k := by
  have hlast : ∀ {n k : Nat}, n < 128 → 0 < k →
      Septets [UInt8.ofNat n] n ∧ [UInt8.ofNat n].length ≤ k := by
    intro n k hn hk
    have hbyte : (UInt8.ofNat n).toNat = n := by rw [UInt8.toNat_ofNat',
      Nat.mod_eq_of_lt (by omega)]
    have hspell := Septets.last (b := UInt8.ofNat n) (by omega)
    rw [hbyte] at hspell
    exact ⟨hspell, hk⟩
  -- One group a round: what is left is divided by 128, and so is the room for it.
  induction fuel with
  | zero =>
    intro n k hn _ hpos
    exact hlast (by simpa using hn) hpos
  | succ fuel ih =>
    intro n k hn hk hpos
    rw [septets]
    split
    case isFalse hsmall => exact hlast (by omega) hpos
    case isTrue hbig =>
      have hdiv : ∀ {m : Nat}, n < 128 ^ (m + 1) → n / 128 < 128 ^ m := by
        intro m h
        rwa [Nat.div_lt_iff_lt_mul (by decide), ← Nat.pow_succ]
      obtain ⟨k, rfl⟩ : ∃ m, k = m + 1 := ⟨k - 1, by omega⟩
      have hroom : 0 < k := by
        rcases Nat.eq_zero_or_pos k with rfl | h
        · omega
        · exact h
      obtain ⟨hrest, hlen⟩ := ih (hdiv hn) (hdiv hk) hroom
      have hbyte : (UInt8.ofNat (n % 128 + 128)).toNat = n % 128 + 128 := by
        rw [UInt8.toNat_ofNat', Nat.mod_eq_of_lt (by omega)]
      have hspell := Septets.more (b := UInt8.ofNat (n % 128 + 128)) (by omega) hrest
      rw [hbyte, Nat.add_sub_cancel, Nat.mod_add_div] at hspell
      exact ⟨hspell, Nat.succ_le_succ hlen⟩

theorem readSeptets_spelled {bs : Bytes} {n : Nat} (h : Septets bs n) :
    ∀ {value shift : Nat} (rest : Bytes),
      readSeptets (bs ++ rest) value shift = some (value + n * 2 ^ shift, rest) := by
  induction h with
  | last hb =>
    intro value shift rest
    simp only [List.singleton_append, readSeptets, if_pos hb, Nat.mod_eq_of_lt hb]
  | @more b bs n hb hs ih =>
    intro value shift rest
    have hbyte := b.toNat_lt
    have hmod : b.toNat % 128 = b.toNat - 128 := by omega
    simp only [List.cons_append, readSeptets, if_neg (Nat.not_lt.mpr hb), hmod]
    rw [ih, (septets_sum value shift (b.toNat - 128) n).1]

theorem readInt_spelled {bits mask most value : Nat} {bytes : Bytes}
    (hmask : mask % 2 ^ bits = 0) (h : SpellsInt bits mask most value bytes) (rest : Bytes) :
    readInt bits (bytes ++ rest) = some (value, rest) := by
  cases h with
  | short hv hb =>
    have hlow := and_low hmask (show value < 2 ^ bits by omega) hb
    rw [Nat.and_two_pow_sub_one_eq_mod] at hlow
    simp [readInt, hlow, if_pos hv]
  | long hb hs hlen =>
    have hlow := and_low hmask (show 2 ^ bits - 1 < 2 ^ bits by omega) hb
    rw [Nat.and_two_pow_sub_one_eq_mod] at hlow
    simp only [List.cons_append, readInt, hlow, Nat.lt_irrefl, if_false]
    rw [readSeptets_spelled hs, Nat.pow_zero, Nat.mul_one]

/-- Setting bits that are clear is adding them. -/
theorem toNat_mask_or {mask : UInt8} {bits v : Nat} (hbits : bits ≤ 8)
    (hmask : mask.toNat % 2 ^ bits = 0) (hv : v < 2 ^ bits) :
    (mask ||| UInt8.ofNat v).toNat = mask.toNat + v := by
  have hv8 : v < 2 ^ 8 := Nat.lt_of_lt_of_le hv (Nat.pow_le_pow_right (by decide) hbits)
  have hdiv : 2 ^ bits * (mask.toNat / 2 ^ bits) = mask.toNat := by
    have := Nat.div_add_mod mask.toNat (2 ^ bits)
    omega
  rw [UInt8.toNat_or, UInt8.toNat_ofNat', Nat.mod_eq_of_lt hv8, ← hdiv,
    Nat.two_pow_add_eq_or_of_lt hv]

/-- What is put is a spelling, in no more octets than the value needs. -/
theorem putInt_spells {fuel bits most value : Nat} {mask : UInt8} (hbits : bits ≤ 8)
    (hmask : mask.toNat % 2 ^ bits = 0) (hfuel : value < 2 ^ bits - 1 + 128 ^ (fuel + 1))
    (hvalue : value < 2 ^ bits - 1 + 128 ^ most) (hmost : 0 < most) :
    SpellsInt bits mask.toNat most value (putInt fuel bits mask value) := by
  unfold putInt
  dsimp only
  split
  case isTrue hsmall => exact .short hsmall (toNat_mask_or hbits hmask (by omega))
  case isFalse hbig =>
    obtain ⟨hs, hlen⟩ : Septets (septets fuel (value - (2 ^ bits - 1))) (value - (2 ^ bits - 1)) ∧
        (septets fuel (value - (2 ^ bits - 1))).length ≤ most :=
      septets_spell (by omega) (by omega) hmost
    have hfirst := toNat_mask_or hbits hmask (show 2 ^ bits - 1 < 2 ^ bits by omega)
    have hspell := SpellsInt.long hfirst hs hlen
    rwa [Nat.add_sub_cancel' (Nat.not_lt.mp hbig)] at hspell

/-- An integer starts with an octet that keeps the bits of its mask, and reads back. -/
theorem putInt_spec (fuel : Nat) {bits value : Nat} {mask : UInt8} (hbits : bits ≤ 8)
    (hmask : mask.toNat % 2 ^ bits = 0) (hvalue : value < 2 ^ bits - 1 + 128 ^ (fuel + 1))
    (rest : Bytes) :
    ∃ b tail, putInt fuel bits mask value ++ rest = b :: tail ∧ mask.toNat ≤ b.toNat ∧
      b.toNat < mask.toNat + 2 ^ bits ∧ readInt bits (b :: tail) = some (value, rest) := by
  have hspell := putInt_spells hbits hmask hvalue hvalue (Nat.succ_pos fuel)
  obtain ⟨b, tail, hput, hlo, hhi⟩ := hspell.head
  have hread := readInt_spelled hmask hspell rest
  rw [hput] at hread ⊢
  exact ⟨b, tail ++ rest, rfl, hlo, hhi, hread⟩

theorem putInt_ne_nil (fuel bits : Nat) (mask : UInt8) (value : Nat) :
    putInt fuel bits mask value ≠ [] := by
  unfold putInt
  dsimp only
  split
  · exact List.cons_ne_nil _ _
  · exact List.cons_ne_nil _ _

/-- A plain string reads back, whatever the decoder for the Huffman code is. -/
theorem readString_put {fuel bits : Nat} {mask : UInt8} {s : Bytes} (hbits : bits < 8)
    (hmask : mask.toNat % 2 ^ (bits + 1) = 0) (hlen : s.length < 2 ^ bits - 1 + 128 ^ (fuel + 1))
    (huffman : Bytes → Option Bytes) (rest : Bytes) :
    readString huffman bits (putInt fuel bits mask s.length ++ s ++ rest) = some (s, rest) := by
  obtain ⟨k, hk⟩ : ∃ k, mask.toNat = 2 ^ bits * (2 * k) := by
    obtain ⟨k, hk⟩ := Nat.dvd_of_mod_eq_zero hmask
    exact ⟨k, by rw [hk, pow_succ, Nat.mul_assoc]⟩
  have hlow : mask.toNat % 2 ^ bits = 0 := by rw [hk, Nat.mul_mod_right]
  obtain ⟨b, tail, heq, hlo, hhi, hread⟩ := putInt_spec fuel (Nat.le_of_lt hbits) hlow
    hlen (s ++ rest)
  have hplain : b.toNat / 2 ^ bits % 2 ≠ 1 := by
    have hdiv : b.toNat / 2 ^ bits = 2 * k := by
      refine Nat.div_eq_of_lt_le ?_ ?_
      · rw [Nat.mul_comm, ← hk]; exact hlo
      · rw [Nat.succ_mul, Nat.mul_comm, ← hk]; exact hhi
    omega
  rw [List.append_assoc, heq, readString, hread]
  dsimp only
  rw [if_neg (by rw [List.length_append]; omega),
    if_neg (show ¬ ((b :: tail).headD 0).toNat / 2 ^ bits % 2 = 1 from hplain), List.take_left,
    List.drop_left]

/-! ## Lengths of decimal numbers -/

theorem length_asBytes_ofList (cs : List Char) :
    (asBytes (String.ofList cs)).length ≤ 4 * cs.length := by
  have hdata : asBytes (String.ofList cs) = cs.flatMap String.utf8EncodeChar := by
    rw [asBytes, String.toByteArray_ofList, List.utf8Encode]
    simp
  rw [hdata]
  clear hdata
  induction cs with
  | nil => exact Nat.le_refl _
  | cons c cs ih =>
    have hc := Char.utf8Size_le_four c
    rw [← String.length_utf8EncodeChar] at hc
    simp only [List.flatMap_cons, List.length_append, List.length_cons]
    omega

/-- A `usize` has at most twenty digits. -/
theorem length_decimal {n : Nat} (h : n < 2 ^ 64) : (asBytes (toString n)).length ≤ 80 := by
  have hdigits := Nat.toDigits_length 10 n 20 (by decide) (by omega)
  have hbytes := length_asBytes_ofList (Nat.toDigits 10 n)
  exact Nat.le_trans hbytes (Nat.mul_le_mul_left 4 hdigits)

/-! ## A reader to the end of its input -/

section ReadAll

variable {β ρ : Type}

/-- Items until nothing is left; every one takes something of the input. -/
def readAllFrom (read : List β → Option (ρ × List β)) : Nat → List β → Option (List ρ)
  | _, [] => some []
  | 0, _ :: _ => none
  | fuel + 1, b :: buf =>
    match read (b :: buf) with
    | none => none
    | some (item, rest) => (readAllFrom read fuel rest).map (item :: ·)

def readAll (read : List β → Option (ρ × List β)) (buf : List β) : Option (List ρ) :=
  readAllFrom read buf.length buf

/-- `bytes` is a spelling of `item`. -/
def Spells (read : List β → Option (ρ × List β)) (bytes : List β) (item : ρ) : Prop :=
  bytes ≠ [] ∧ ∀ rest, read (bytes ++ rest) = some (item, rest)

variable {ι : Type} {bytes : ι → List β} {item : ι → ρ}

theorem readAllFrom_spelled {read : List β → Option (ρ × List β)} :
    ∀ {pieces : List ι} {fuel : Nat}, (∀ p ∈ pieces, Spells read (bytes p) (item p)) →
      (pieces.flatMap bytes).length ≤ fuel →
      readAllFrom read fuel (pieces.flatMap bytes) = some (pieces.map item)
  | [], fuel, _, _ => by cases fuel <;> rfl
  | p :: pieces, fuel, h, hfuel => by
    obtain ⟨hne, hread⟩ := h p List.mem_cons_self
    have hpos := List.length_pos_iff.mpr hne
    rw [List.flatMap_cons, List.length_append] at hfuel
    cases fuel with
    | zero => omega
    | succ fuel =>
      have ih := readAllFrom_spelled (fun q hq => h q (List.mem_cons_of_mem _ hq))
        (show (pieces.flatMap bytes).length ≤ fuel by omega)
      have hthis := hread (pieces.flatMap bytes)
      rw [List.flatMap_cons]
      cases hp : bytes p with
      | nil => exact absurd hp hne
      | cons b bs =>
        rw [hp, List.cons_append] at hthis
        rw [List.cons_append, readAllFrom, hthis]
        simp [ih]

/-- What was spelled piece by piece reads back as the items. -/
theorem readAll_spelled {read : List β → Option (ρ × List β)} {pieces : List ι}
    (h : ∀ p ∈ pieces, Spells read (bytes p) (item p)) :
    readAll read (pieces.flatMap bytes) = some (pieces.map item) :=
  readAllFrom_spelled h (Nat.le_refl _)

end ReadAll

/-! ## Blocks

A block is a list of fields, each spelled as one item that means it. -/

section Block

variable {β ρ φ : Type} (read : List β → Option (ρ × List β)) (Means : ρ → φ → Prop)

/-- A field of a block: its bytes, the item they spell and what that stands for. -/
structure Piece where
  bytes : List β
  item : ρ
  gives : φ
  spells : Spells read bytes item
  means : Means item gives

/-- `bytes` spells one item, and it means `f`. -/
def Writes (bytes : List β) (f : φ) : Prop := ∃ item, Spells read bytes item ∧ Means item f

/-- The fields, written one after another. -/
def WritesAll (block : List β) (fields : List φ) : Prop :=
  ∃ pieces : List (Piece read Means), block = pieces.flatMap Piece.bytes ∧
    fields = pieces.map Piece.gives

variable {read Means}

theorem WritesAll.nil : WritesAll read Means [] [] := ⟨[], rfl, rfl⟩

theorem Writes.all {bytes : List β} {f : φ} (h : Writes read Means bytes f) :
    WritesAll read Means bytes [f] := by
  obtain ⟨r, hr, hm⟩ := h
  exact ⟨[⟨bytes, r, f, hr, hm⟩], by simp, rfl⟩

theorem WritesAll.append {a b : List β} {fs gs : List φ} (ha : WritesAll read Means a fs)
    (hb : WritesAll read Means b gs) : WritesAll read Means (a ++ b) (fs ++ gs) := by
  obtain ⟨ps, rfl, rfl⟩ := ha
  obtain ⟨qs, rfl, rfl⟩ := hb
  exact ⟨ps ++ qs, List.flatMap_append.symm, List.map_append.symm⟩

theorem WritesAll.flatMap {ι : Type} {bytes : ι → List β} {gives : ι → φ} : ∀ {l : List ι},
    (∀ x ∈ l, Writes read Means (bytes x) (gives x)) →
    WritesAll read Means (l.flatMap bytes) (l.map gives)
  | [], _ => WritesAll.nil
  | x :: _, h => (h x List.mem_cons_self).all.append
      (WritesAll.flatMap fun y hy => h y (List.mem_cons_of_mem _ hy))

/-- Reading a block back gives an item for each field, and the item means it. -/
theorem WritesAll.readBack {block : List β} {fields : List φ}
    (h : WritesAll read Means block fields) :
    ∃ pieces : List (Piece read Means), readAll read block = some (pieces.map Piece.item) ∧
      fields = pieces.map Piece.gives := by
  obtain ⟨pieces, rfl, rfl⟩ := h
  exact ⟨pieces, readAll_spelled fun p _ => p.spells, rfl⟩

end Block

end Shb.Lib
