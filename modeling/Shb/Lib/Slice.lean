import Mathlib.Data.List.TakeDrop

/-!
# Slices of a fixed sequence

`slice S o n` is the `n` elements of `S` from position `o`. A buffer that is known to be a
slice, and is extended by what another slice adds past its end, is a slice again.
-/

namespace Shb.Lib

variable {α : Type}

variable (S : List α)

def slice (o n : Nat) : List α := (S.drop o).take n

theorem slice_zero (o : Nat) : slice S o 0 = [] := List.take_zero

theorem length_slice {S : List α} {o n : Nat} (h : o + n ≤ S.length) :
    (slice S o n).length = n := by
  rw [slice, List.length_take, List.length_drop]
  omega

theorem slice_append (o m n : Nat) : slice S o m ++ slice S (o + m) n = slice S o (m + n) := by
  rw [slice, slice, slice, List.take_add, List.drop_drop]

theorem drop_slice (o n k : Nat) : (slice S o n).drop k = slice S (o + k) (n - k) := by
  rw [slice, slice, List.drop_take, List.drop_drop]

theorem take_append_slice (m n : Nat) : S.take m ++ slice S m n = S.take (m + n) := by
  rw [slice, List.take_add]

end Shb.Lib
