import Shb.Http2.Request
import Shb.Http2.StatusFields
import Shb.Http3.Request
import Shb.Http3.StatusFields

/-!
# Prefix integers in both codecs

HPACK and QPACK write integers by the same loop and read them within limits of their own: four
octets behind the first for a `u32`, nine for a `u64`. Up to there what is written reads back; and
neither reader can be made to look further or to leave its type.
-/

namespace Shb

open Lib

/-- **Prefix integers decode to what was encoded**, wherever they stand. On any bytes the first
five, or ten, decide, and the sum does not overflow. -/
theorem prefix_integers_exact (bits : Nat) (hhi : bits ≤ 8) (mask : UInt8)
    (hmask : mask.toNat % 2 ^ bits = 0) :
    (∀ value ≤ 2 ^ bits - 1 + (2 ^ 28 - 1), ∀ before after : Bytes,
        Http2.decodeInt ((before ++ (Http2.encodeInt bits mask value ++ after)).drop before.length)
          bits = .ok (value, after)) ∧
      (∀ value ≤ 2 ^ bits - 1 + (2 ^ 63 - 1), ∀ before after : Bytes,
        Http3.decodeInt ((before ++ (Http3.encodeInt bits mask value ++ after)).drop before.length)
          bits = .ok (value, after)) ∧
      (∀ buf : Bytes, 5 ≤ buf.length → ∀ tail, Http2.decodeInt (buf ++ tail) bits =
        (Http2.decodeInt buf bits).map fun r => (r.1, r.2 ++ tail)) ∧
      (∀ buf : Bytes, 10 ≤ buf.length → ∀ tail, Http3.decodeInt (buf ++ tail) bits =
        (Http3.decodeInt buf bits).map fun r => (r.1, r.2 ++ tail)) ∧
      ∀ buf : Bytes, Http2.decodeInt buf bits ≠ .error .overflow ∧
        Http3.decodeInt buf bits ≠ .error .overflow := by
  refine ⟨fun value hvalue before after => ?_, fun value hvalue before after => ?_, ?_, ?_, ?_⟩
  · rw [List.drop_left, Http2.encodeInt_eq]
    refine Http2.decodeInt_spelled hhi hmask (putInt_spells hhi hmask ?_ ?_ (by decide)) after
    · omega
    · omega
  · rw [List.drop_left]
    refine Http3.decodeInt_spelled hhi hmask (putInt_spells hhi hmask ?_ ?_ (by decide)) after
    · exact Http3.fuel_enough bits value
    · omega
  · intro buf hlen tail
    rw [Http2.decodeInt_eq, Http2.decodeInt_eq]
    exact takeInt_append tail (show 21 + 7 < _ by omega)
  · intro buf hlen tail
    rw [Http3.decodeInt_eq, Http3.decodeInt_eq]
    exact takeInt_append tail (show 56 + 7 < _ by omega)
  · intro buf
    rw [Http2.decodeInt_eq, Http3.decodeInt_eq]
    exact ⟨takeInt_in_range (L := Http2.intLimits) hhi (by decide) (by decide) (by decide),
      takeInt_in_range (L := Http3.intLimits) hhi (by decide) (by decide) (by decide)⟩

/-- 1337 behind a prefix of five bits, with something before it and after it. -/
theorem prefix_integers_exact_1337 :
    Http2.decodeInt (([7] ++ (Http2.encodeInt 5 0x20 1337 ++ [9])).drop 1) 5 = .ok (1337, [9]) :=
  (prefix_integers_exact 5 (by decide) 0x20 (by decide)).1 1337 (by decide) [7] [9]

end Shb
