import Mathlib.Data.List.Pairwise
import Mathlib.Tactic.IntervalCases
import Shb.Lib.PrefixCode
import Shb.Lib.PrefixInt
import Shb.Status

/-!
# The Huffman code of HPACK and QPACK

RFC 7541 Appendix B, as it is there: for every octet a word, as a number and its length in bits,
and a word of thirty ones for the end of a string, which fills up the last octet. The source knows
the words of the ten digits and one encoded name.
-/

namespace Shb.Huffman

open Lib

/-- Appendix B, from octet 0 on. -/
def appendixB : List (Nat × Nat) :=
  [(0x1ff8, 13), (0x7fffd8, 23), (0xfffffe2, 28), (0xfffffe3, 28), (0xfffffe4, 28), (0xfffffe5, 28),
    (0xfffffe6, 28), (0xfffffe7, 28), (0xfffffe8, 28), (0xffffea, 24), (0x3ffffffc, 30),
    (0xfffffe9, 28), (0xfffffea, 28), (0x3ffffffd, 30), (0xfffffeb, 28), (0xfffffec, 28),
    (0xfffffed, 28), (0xfffffee, 28), (0xfffffef, 28), (0xffffff0, 28), (0xffffff1, 28),
    (0xffffff2, 28), (0x3ffffffe, 30), (0xffffff3, 28), (0xffffff4, 28), (0xffffff5, 28),
    (0xffffff6, 28), (0xffffff7, 28), (0xffffff8, 28), (0xffffff9, 28), (0xffffffa, 28),
    (0xffffffb, 28), (0x14, 6), (0x3f8, 10), (0x3f9, 10), (0xffa, 12), (0x1ff9, 13), (0x15, 6),
    (0xf8, 8), (0x7fa, 11), (0x3fa, 10), (0x3fb, 10), (0xf9, 8), (0x7fb, 11), (0xfa, 8), (0x16, 6),
    (0x17, 6), (0x18, 6), (0x0, 5), (0x1, 5), (0x2, 5), (0x19, 6), (0x1a, 6), (0x1b, 6), (0x1c, 6),
    (0x1d, 6), (0x1e, 6), (0x1f, 6), (0x5c, 7), (0xfb, 8), (0x7ffc, 15), (0x20, 6), (0xffb, 12),
    (0x3fc, 10), (0x1ffa, 13), (0x21, 6), (0x5d, 7), (0x5e, 7), (0x5f, 7), (0x60, 7), (0x61, 7),
    (0x62, 7), (0x63, 7), (0x64, 7), (0x65, 7), (0x66, 7), (0x67, 7), (0x68, 7), (0x69, 7),
    (0x6a, 7), (0x6b, 7), (0x6c, 7), (0x6d, 7), (0x6e, 7), (0x6f, 7), (0x70, 7), (0x71, 7),
    (0x72, 7), (0xfc, 8), (0x73, 7), (0xfd, 8), (0x1ffb, 13), (0x7fff0, 19), (0x1ffc, 13),
    (0x3ffc, 14), (0x22, 6), (0x7ffd, 15), (0x3, 5), (0x23, 6), (0x4, 5), (0x24, 6), (0x5, 5),
    (0x25, 6), (0x26, 6), (0x27, 6), (0x6, 5), (0x74, 7), (0x75, 7), (0x28, 6), (0x29, 6),
    (0x2a, 6), (0x7, 5), (0x2b, 6), (0x76, 7), (0x2c, 6), (0x8, 5), (0x9, 5), (0x2d, 6), (0x77, 7),
    (0x78, 7), (0x79, 7), (0x7a, 7), (0x7b, 7), (0x7ffe, 15), (0x7fc, 11), (0x3ffd, 14),
    (0x1ffd, 13), (0xffffffc, 28), (0xfffe6, 20), (0x3fffd2, 22), (0xfffe7, 20), (0xfffe8, 20),
    (0x3fffd3, 22), (0x3fffd4, 22), (0x3fffd5, 22), (0x7fffd9, 23), (0x3fffd6, 22), (0x7fffda, 23),
    (0x7fffdb, 23), (0x7fffdc, 23), (0x7fffdd, 23), (0x7fffde, 23), (0xffffeb, 24), (0x7fffdf, 23),
    (0xffffec, 24), (0xffffed, 24), (0x3fffd7, 22), (0x7fffe0, 23), (0xffffee, 24), (0x7fffe1, 23),
    (0x7fffe2, 23), (0x7fffe3, 23), (0x7fffe4, 23), (0x1fffdc, 21), (0x3fffd8, 22), (0x7fffe5, 23),
    (0x3fffd9, 22), (0x7fffe6, 23), (0x7fffe7, 23), (0xffffef, 24), (0x3fffda, 22), (0x1fffdd, 21),
    (0xfffe9, 20), (0x3fffdb, 22), (0x3fffdc, 22), (0x7fffe8, 23), (0x7fffe9, 23), (0x1fffde, 21),
    (0x7fffea, 23), (0x3fffdd, 22), (0x3fffde, 22), (0xfffff0, 24), (0x1fffdf, 21), (0x3fffdf, 22),
    (0x7fffeb, 23), (0x7fffec, 23), (0x1fffe0, 21), (0x1fffe1, 21), (0x3fffe0, 22), (0x1fffe2, 21),
    (0x7fffed, 23), (0x3fffe1, 22), (0x7fffee, 23), (0x7fffef, 23), (0xfffea, 20), (0x3fffe2, 22),
    (0x3fffe3, 22), (0x3fffe4, 22), (0x7ffff0, 23), (0x3fffe5, 22), (0x3fffe6, 22), (0x7ffff1, 23),
    (0x3ffffe0, 26), (0x3ffffe1, 26), (0xfffeb, 20), (0x7fff1, 19), (0x3fffe7, 22), (0x7ffff2, 23),
    (0x3fffe8, 22), (0x1ffffec, 25), (0x3ffffe2, 26), (0x3ffffe3, 26), (0x3ffffe4, 26),
    (0x7ffffde, 27), (0x7ffffdf, 27), (0x3ffffe5, 26), (0xfffff1, 24), (0x1ffffed, 25),
    (0x7fff2, 19), (0x1fffe3, 21), (0x3ffffe6, 26), (0x7ffffe0, 27), (0x7ffffe1, 27),
    (0x3ffffe7, 26), (0x7ffffe2, 27), (0xfffff2, 24), (0x1fffe4, 21), (0x1fffe5, 21),
    (0x3ffffe8, 26), (0x3ffffe9, 26), (0xffffffd, 28), (0x7ffffe3, 27), (0x7ffffe4, 27),
    (0x7ffffe5, 27), (0xfffec, 20), (0xfffff3, 24), (0xfffed, 20), (0x1fffe6, 21), (0x3fffe9, 22),
    (0x1fffe7, 21), (0x1fffe8, 21), (0x7ffff3, 23), (0x3fffea, 22), (0x3fffeb, 22), (0x1ffffee, 25),
    (0x1ffffef, 25), (0xfffff4, 24), (0xfffff5, 24), (0x3ffffea, 26), (0x7ffff4, 23),
    (0x3ffffeb, 26), (0x7ffffe6, 27), (0x3ffffec, 26), (0x3ffffed, 26), (0x7ffffe7, 27),
    (0x7ffffe8, 27), (0x7ffffe9, 27), (0x7ffffea, 27), (0x7ffffeb, 27), (0xffffffe, 28),
    (0x7ffffec, 27), (0x7ffffed, 27), (0x7ffffee, 27), (0x7ffffef, 27), (0x7fffff0, 27),
    (0x3ffffee, 26)]

/-- The words with their octets, shorter ones first. -/
def inOrder : List ((Nat × Nat) × Nat) :=
  (List.range 31).flatMap fun n => appendixB.zipIdx.filter fun e => e.1.2 == n

/-- The code is canonical: in that order the words are counted up. -/
theorem inOrder_before : inOrder.IsChain fun p q => Before 30 p.1 q.1 := by decide +kernel

/-- The words are of at most thirty bits, and none is made of ones only. -/
theorem appendixB_words : ∀ p ∈ appendixB, Fits 30 p ∧ p.1 % 2 ^ p.2 ≠ 2 ^ p.2 - 1 := by
  decide +kernel

theorem length_appendixB : appendixB.length = 256 := by decide +kernel

def word (b : UInt8) : Nat × Nat := appendixB.getD b.toNat (0, 0)

theorem mem_word (b : UInt8) : (word b, b.toNat) ∈ appendixB.zipIdx := by
  have hb : b.toNat < appendixB.length := by
    rw [length_appendixB]
    exact b.toNat_lt
  rw [List.mem_zipIdx_iff_getElem?, List.getElem?_eq_getElem hb]
  simp only [word, List.getD_eq_getElem?_getD, List.getElem?_eq_getElem hb, Option.getD_some]

theorem word_fits (b : UInt8) :
    Fits 30 (word b) ∧ (word b).1 % 2 ^ (word b).2 ≠ 2 ^ (word b).2 - 1 :=
  appendixB_words _ (List.fst_mem_of_mem_zipIdx (mem_word b))

/-- Of two octets, one has its word before the other's. -/
theorem words_apart (a b : UInt8) :
    a = b ∨ Before 30 (word a) (word b) ∨ Before 30 (word b) (word a) := by
  have hmem : ∀ b : UInt8, (word b, b.toNat) ∈ inOrder := by
    intro b
    refine List.mem_flatMap.mpr ⟨(word b).2, ?_, List.mem_filter.mpr ⟨mem_word b,
      beq_self_eq_true _⟩⟩
    exact List.mem_range.mpr (Nat.lt_succ_of_le (word_fits b).1.2)
  have htrans : IsTrans ((Nat × Nat) × Nat) fun p q => Before 30 p.1 q.1 :=
    ⟨fun _ _ _ => Before.trans⟩
  have hsymm : Std.Symm fun p q : (Nat × Nat) × Nat => Before 30 p.1 q.1 ∨ Before 30 q.1 p.1 :=
    ⟨fun _ _ => Or.symm⟩
  have hpairs : inOrder.Pairwise fun p q => Before 30 p.1 q.1 ∨ Before 30 q.1 p.1 :=
    inOrder_before.pairwise.imp Or.inl
  by_cases hab : a = b
  · exact Or.inl hab
  · exact Or.inr (hpairs.forall (hmem a) (hmem b)
      fun heq => hab (UInt8.toNat_inj.mp (congrArg Prod.snd heq)))

/-- The code. -/
def code : PrefixCode UInt8 where
  word b := bitsOf (word b).1 (word b).2
  free {a b} h := by
    obtain ⟨hab, hba⟩ := covers_bitsOf (word_fits a).1 (word_fits b).1 h
    rcases words_apart a b with heq | hbefore | hbefore
    · exact heq
    · exact absurd hbefore hab
    · exact absurd hbefore hba
  filling {a n} h := (word_fits a).2 (ones_bitsOf h)

/-! ## What the source knows of it -/

/-- One octet string is the name of a status, and no other text is written so. -/
theorem encode_eq_status {name : Bytes} :
    code.encode name = [0xb8, 0x84, 0x8d, 0x36, 0xa3] ↔
      name = ascii [':', 's', 't', 'a', 't', 'u', 's'] := by
  have hstatus : code.encode (ascii [':', 's', 't', 'a', 't', 'u', 's']) =
      [0xb8, 0x84, 0x8d, 0x36, 0xa3] := by decide +kernel
  rw [← hstatus]
  exact ⟨code.encode_injective, congrArg _⟩

/-- The number three digits spell. -/
def threeDigits : Bytes → Option Nat
  | [a, b, c] =>
    if [a, b, c].all isAsciiDigit then some (digit a * 100 + digit b * 10 + digit c) else none
  | _ => none

/-- A string of a header block, plain or coded. -/
structure Str where
  text : Bytes
  coded : Bool
  deriving DecidableEq, Repr

def Str.octets (s : Str) : Bytes := if s.coded then code.encode s.text else s.text

/-- Its length in the low `bits` of an octet, above `mask` and the bit that says it is coded. -/
def Str.Spelled (bits mask most : Nat) (s : Str) (bytes : Bytes) : Prop :=
  ∃ head, SpellsInt bits (mask + if s.coded then 2 ^ bits else 0) most s.octets.length head ∧
    bytes = head ++ s.octets

/-- A string is the integer of its length, whose first octet has the flag above the length's bits,
and its octets. -/
theorem Str.Spelled.parts {bits mask most : Nat} {s : Str} {bytes : Bytes}
    (hmask : mask % 2 ^ (bits + 1) = 0) (h : s.Spelled bits mask most bytes) :
    ∃ b tail m, bytes = b :: tail ++ s.octets ∧ m % 2 ^ bits = 0 ∧
      SpellsInt bits m most s.octets.length (b :: tail) ∧
        b.toNat / 2 ^ bits % 2 = s.coded.toNat := by
  obtain ⟨head, hint, rfl⟩ := h
  obtain ⟨b, tail, rfl, hlo, hhi⟩ := hint.head
  obtain ⟨k, hk⟩ := Nat.dvd_of_mod_eq_zero hmask
  have hweight : (mask + if s.coded then 2 ^ bits else 0) = 2 ^ bits * (2 * k + s.coded.toNat) := by
    rw [hk, Nat.pow_succ, Nat.mul_assoc, Nat.mul_add]
    cases s.coded with
    | true => rw [if_pos rfl, Bool.toNat_true, Nat.mul_one]
    | false => rw [if_neg Bool.false_ne_true, Bool.toNat_false, Nat.mul_zero]
  refine ⟨b, tail, _, rfl, by rw [hweight, Nat.mul_mod_right], hint, ?_⟩
  rw [hweight] at hlo hhi
  have hdigit : b.toNat / 2 ^ bits = 2 * k + s.coded.toNat :=
    Nat.div_eq_of_lt_le (by rwa [Nat.mul_comm]) (by rwa [Nat.succ_mul, Nat.mul_comm])
  rw [hdigit, Nat.mul_add_mod, Nat.mod_eq_of_lt (Bool.toNat_lt _)]

/-- The words of the ten digits: five bits for the first three, six for the others. -/
def digitWord (i : Nat) : List Bool := if i < 3 then bitsOf i 5 else bitsOf (22 + i) 6

theorem word_digit : ∀ i < 10, code.word (UInt8.ofNat (48 + i)) = digitWord i := by decide +kernel

/-- Three words of digits, as `status_value` matches them. -/
theorem statusValue_words : ∀ i < 10, ∀ j < 10, ∀ k < 10,
    (Status.statusValue (pack (digitWord i ++ (digitWord j ++ digitWord k))) true).toOption =
      some (i * 100 + j * 10 + k) := by
  intro i hi
  -- one evaluation for each first digit: all of them in one are too much for the kernel's cache
  interval_cases i <;> decide +kernel

theorem eq_ofNat_digit {b : UInt8} (h : isAsciiDigit b = true) :
    digit b < 10 ∧ b = UInt8.ofNat (48 + digit b) := by
  have hall : ∀ n < 256, isAsciiDigit (UInt8.ofNat n) = true →
      digit (UInt8.ofNat n) < 10 ∧ UInt8.ofNat n = UInt8.ofNat (48 + digit (UInt8.ofNat n)) := by
    decide +kernel
  have hb := hall b.toNat b.toNat_lt
  rw [UInt8.ofNat_toNat] at hb
  exact hb h

/-- Three digits read back, plain or coded. -/
theorem statusValue_octets {s : Str} {v : Nat} (h : threeDigits s.text = some v) :
    Status.statusValue s.octets s.coded = .ok v := by
  obtain ⟨text, coded⟩ := s
  match text with
  | [a, b, c] =>
    simp only [threeDigits] at h
    split at h
    · rename_i hdigits
      cases h
      cases coded with
      | false => simp [Str.octets, Status.statusValue, hdigits]
      | true =>
        simp only [List.all_cons, List.all_nil, Bool.and_true, Bool.and_eq_true] at hdigits
        obtain ⟨ha, hb, hc⟩ := hdigits
        have hword : ∀ {b : UInt8}, isAsciiDigit b = true → code.word b = digitWord (digit b) := by
          intro b hb
          have h := word_digit (digit b) (eq_ofNat_digit hb).1
          rwa [← (eq_ofNat_digit hb).2] at h
        have hcoded := statusValue_words (digit a) (eq_ofNat_digit ha).1 (digit b)
          (eq_ofNat_digit hb).1 (digit c) (eq_ofNat_digit hc).1
        have hencode : code.encode [a, b, c] =
            pack (digitWord (digit a) ++ (digitWord (digit b) ++ digitWord (digit c))) := by
          simp only [PrefixCode.encode, List.flatMap_cons, List.flatMap_nil, List.append_nil,
            hword ha, hword hb, hword hc]
        rw [← hencode] at hcoded
        simp only [Str.octets, if_true]
        cases hvalue : Status.statusValue (code.encode [a, b, c]) true with
        | error e =>
          rw [hvalue] at hcoded
          cases hcoded
        | ok v =>
          rw [hvalue] at hcoded
          cases hcoded
          rfl
    · cases h

end Shb.Huffman
