import Mathlib.Algebra.Ring.Nat

/-!
# Bytes

What the parsers share: ASCII literals, `memchr`, trimming, and the checked `u64`
arithmetic of the numbers they read. A `u64` is a natural number below `2^64`; an operation
that could leave that range is the checked one of the source and says so.
-/

namespace Shb

abbrev Bytes := List UInt8

namespace Lib

/-- An ASCII literal. -/
def ascii (cs : List Char) : Bytes := cs.map fun c => UInt8.ofNat c.toNat

/-- `str::as_bytes`. -/
def asBytes (s : String) : Bytes := s.toByteArray.data.toList

def lf : UInt8 := 10
def cr : UInt8 := 13

/-- The first position of `b`. -/
def memchr (b : UInt8) (buf : Bytes) : Option Nat := buf.findIdx? (· == b)

def checkedAdd (a b : Nat) : Option Nat := if a + b < 2 ^ 64 then some (a + b) else none

def checkedMul (a b : Nat) : Option Nat := if a * b < 2 ^ 64 then some (a * b) else none

def isAsciiDigit (b : UInt8) : Bool := 48 ≤ b && b ≤ 57

/-- The value of an ASCII digit. -/
def digit (b : UInt8) : Nat := (b - 48).toNat

variable {b : UInt8} {n : Nat} {buf : Bytes}

/-- A test of one bit is a digit of the number. -/
theorem and_bit {k : Nat} (hk : k < 8) :
    b &&& UInt8.ofNat (2 ^ k) = 0 ↔ b.toNat / 2 ^ k % 2 = 0 := by
  have hall : ∀ n < 256, ∀ k < 8, UInt8.ofNat n &&& UInt8.ofNat (2 ^ k) = 0 ↔
    n / 2 ^ k % 2 = 0 := by
    decide +kernel
  have hb := hall b.toNat b.toNat_lt k hk
  rwa [UInt8.ofNat_toNat] at hb

theorem and_high (b : UInt8) : (b &&& 0x80 = 0 ↔ b.toNat / 128 % 2 = 0) ∧
    (b &&& 0x40 = 0 ↔ b.toNat / 64 % 2 = 0) ∧ (b &&& 0x20 = 0 ↔ b.toNat / 32 % 2 = 0) ∧
    (b &&& 0x10 = 0 ↔ b.toNat / 16 % 2 = 0) :=
  ⟨and_bit (k := 7) (by decide), and_bit (k := 6) (by decide), and_bit (k := 5) (by decide),
    and_bit (k := 4) (by decide)⟩

/-- `u16::to_be_bytes`. -/
def be16 (n : Nat) : Bytes := [UInt8.ofNat (n / 2 ^ 8), UInt8.ofNat n]

/-- `u32::to_be_bytes`. -/
def be32 (n : Nat) : Bytes :=
  [UInt8.ofNat (n / 2 ^ 24), UInt8.ofNat (n / 2 ^ 16), UInt8.ofNat (n / 2 ^ 8), UInt8.ofNat n]

/-- `u64::to_be_bytes`. -/
def be64 (n : Nat) : Bytes := be32 (n / 2 ^ 32) ++ be32 n

/-- `from_be_bytes`, of any width. -/
def fromBe (bytes : Bytes) : Nat := bytes.foldl (fun n b => n * 2 ^ 8 + b.toNat) 0

theorem memchr_none (h : memchr b buf = none) : b ∉ buf := by
  intro hb
  have := List.findIdx?_eq_none_iff.mp h b hb
  simp at this

/-- Up to the byte found, and from behind it. -/
theorem memchr_some {i : Nat} (h : memchr b buf = some i) :
    buf = buf.take i ++ b :: buf.drop (i + 1) ∧ b ∉ buf.take i ∧ i < buf.length := by
  obtain ⟨hlt, hb, hbefore⟩ := List.findIdx?_eq_some_iff_getElem.mp h
  have hb' : buf[i] = b := by simpa using hb
  refine ⟨?_, ?_, hlt⟩
  · have hsplit := (List.take_append_drop i buf).symm
    rw [List.drop_eq_getElem_cons hlt, hb'] at hsplit
    exact hsplit
  · intro hmem
    obtain ⟨j, hj, hjb⟩ := List.mem_iff_getElem.mp hmem
    rw [List.getElem_take] at hjb
    rw [List.length_take] at hj
    have := hbefore j (by omega)
    simp [hjb] at this

theorem memchr_take {i : Nat} (h : memchr b buf = some i) :
    buf.take (i + 1) = buf.take i ++ [b] := by
  obtain ⟨hlt, hb, -⟩ := List.findIdx?_eq_some_iff_getElem.mp h
  have hb' : buf[i] = b := by simpa using hb
  rw [List.take_succ_eq_append_getElem hlt, hb']

theorem memchr_eq_none (h : b ∉ buf) : memchr b buf = none := by
  rw [memchr, List.findIdx?_eq_none_iff]
  intro x hx
  simp only [beq_eq_false_iff_ne, ne_eq]
  rintro rfl
  exact h hx

theorem memchr_append {line rest : Bytes} (h : b ∉ line) :
    memchr b (line ++ b :: rest) = some line.length := by
  rw [memchr, List.findIdx?_append, ← memchr, memchr_eq_none h]
  simp [List.findIdx?_cons]

/-- What is left of a line, if its last byte is not, is nothing. -/
theorem drop_concat_eq_nil {xs : Bytes} {k : Nat} (h : b ∉ (xs ++ [b]).drop k) :
    (xs ++ [b]).drop k = [] := by
  by_cases hk : k ≤ xs.length
  · rw [List.drop_append_of_le_length hk] at h
    simp at h
  · rw [List.drop_eq_nil_iff, List.length_append, List.length_singleton]
    omega

/-- A buffer is an unfinished line, or a line, its newline and a shorter buffer. -/
theorem lines_induction {motive : Bytes → Prop} (unfinished : ∀ buf, lf ∉ buf → motive buf)
    (line : ∀ line rest, lf ∉ line → motive rest → motive (line ++ lf :: rest)) :
    ∀ buf, motive buf := by
  intro buf
  induction hn : buf.length using Nat.strongRecOn generalizing buf with
  | ind n ih =>
    cases hnl : memchr lf buf with
    | none => exact unfinished buf (memchr_none hnl)
    | some i =>
      obtain ⟨hbuf, hno, hlt⟩ := memchr_some hnl
      rw [hbuf]
      refine line _ _ hno (ih (buf.drop (i + 1)).length ?_ _ rfl)
      rw [List.length_drop]
      omega

end Lib

end Shb
