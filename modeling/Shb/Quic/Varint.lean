import Shb.Lib.Bytes

/-!
# `quic/varint.rs` — variable-length integers

The two leading bits give the width. `putVarint` returns the bytes the source appends.
-/

namespace Shb.Quic

open Lib

/-- `value | tag` is `tag + value` at every width: the value leaves the tag bits clear. -/
def putVarint (value : Nat) : Bytes :=
  if value ≤ 0x3f then [UInt8.ofNat value]
  else if value ≤ 0x3fff then be16 (0x4000 + value)
  else if value ≤ 0x3fffffff then be32 (0x80000000 + value)
  else be64 (0xc000000000000000 + value % 2 ^ 62)

/-- The value and how many bytes it took; `none` if `buf` does not hold the whole integer. -/
def getVarint (buf : Bytes) : Option (Nat × Nat) :=
  match buf with
  | [] => none
  | first :: rest =>
    let len := 2 ^ (first.toNat / 64)
    if buf.length < len then none
    else
      some ((rest.take (len - 1)).foldl (fun value byte => value * 2 ^ 8 + byte.toNat)
        (first.toNat % 64), len)

theorem putVarint_length_pos (v : Nat) : 0 < (putVarint v).length := by
  unfold putVarint
  repeat' split
  all_goals simp [be16, be32, be64]

theorem putVarint_length_le (v : Nat) : (putVarint v).length ≤ 8 := by
  unfold putVarint
  repeat' split
  all_goals simp [be16, be32, be64]

/-- What was written reads back, whatever follows: a value that does not fit in 62 bits loses
what is above them. One case for each width; in each the first byte's two leading bits give
the width. -/
theorem getVarint_putVarint_mod (v : Nat) (rest : Bytes) :
    getVarint (putVarint v ++ rest) = some (v % 2 ^ 62, (putVarint v).length) := by
  unfold putVarint
  split
  · have width : v % 2 ^ 8 / 64 = 0 := by omega
    simp only [List.singleton_append, getVarint, UInt8.toNat_ofNat', width]
    simp
    omega
  split
  · have width : (0x4000 + v) / 2 ^ 8 % 2 ^ 8 / 64 = 1 := by omega
    simp only [be16, List.cons_append, List.nil_append, getVarint, UInt8.toNat_ofNat', width]
    simp [UInt8.toNat_ofNat']
    omega
  split
  · have width : (0x80000000 + v) / 2 ^ 24 % 2 ^ 8 / 64 = 2 := by omega
    simp only [be32, List.cons_append, List.nil_append, getVarint, UInt8.toNat_ofNat', width]
    simp [UInt8.toNat_ofNat']
    omega
  · have width : (0xc000000000000000 + v % 2 ^ 62) / 2 ^ 32 / 2 ^ 24 % 2 ^ 8 / 64 = 3 := by omega
    simp only [be64, be32, List.cons_append, List.nil_append, getVarint, UInt8.toNat_ofNat', width]
    simp [UInt8.toNat_ofNat']
    omega

theorem getVarint_fits {buf : Bytes} {v n : Nat} (h : getVarint buf = some (v, n)) :
    0 < n ∧ n ≤ buf.length := by
  cases buf with
  | nil => cases h
  | cons first rest =>
    simp only [getVarint] at h
    split at h
    · cases h
    · cases h
      exact ⟨Nat.two_pow_pos _, Nat.not_lt.mp ‹_›⟩

/-- What follows an integer does not change it. -/
theorem getVarint_append {buf : Bytes} {v n : Nat} (h : getVarint buf = some (v, n))
    (more : Bytes) : getVarint (buf ++ more) = some (v, n) := by
  have hfits := (getVarint_fits h).2
  cases buf with
  | nil => cases h
  | cons first rest =>
    simp only [getVarint] at h
    split at h
    · cases h
    · cases h
      have hrest : 2 ^ (first.toNat / 64) - 1 ≤ rest.length := Nat.sub_le_of_le_add hfits
      simp only [List.cons_append, getVarint, List.take_append_of_le_length hrest]
      rw [if_neg]
      simp only [List.length_cons, List.length_append] at hfits ⊢
      omega

theorem getVarint_putVarint {v : Nat} (h : v < 2 ^ 62) (rest : Bytes) :
    getVarint (putVarint v ++ rest) = some (v, (putVarint v).length) := by
  rw [getVarint_putVarint_mod, Nat.mod_eq_of_lt h]

end Shb.Quic
