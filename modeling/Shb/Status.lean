import Shb.Lib.Bytes

/-!
# `status.rs` — reading a `:status`

HTTP/2 and HTTP/3 encode the field the same way: three digits, plain or in the Huffman code
of which only the ten digit symbols can occur.
-/

namespace Shb

/-- `is_informational` of `main.rs`. -/
def isInformational (status : Nat) : Bool := 100 ≤ status && status < 200

namespace Status

open Lib

inductive StatusError where
  | malformed
  | huffmanLength
  deriving DecidableEq, Repr

/-- Match the next Huffman code against the ten digit symbols: the digit and its length in
bits. `none` is either too few bits or the padding. -/
def huffmanDigit (bits nbits : Nat) : Option (Nat × Nat) :=
  let top5 := (bits >>> (nbits - 5)) &&& 0x1f
  let top6 := (bits >>> (nbits - 6)) &&& 0x3f
  if 5 ≤ nbits ∧ top5 ≤ 0b00010 then some (top5, 5)
  else if 6 ≤ nbits ∧ 0b011001 ≤ top6 ∧ top6 ≤ 0b011111 then some (3 + (top6 - 0b011001), 6)
  else none

/-- The Huffman accumulator: bits read and not yet spent, and the digits found. -/
structure Bits where
  bits : Nat
  nbits : Nat
  digits : List Nat
  deriving DecidableEq, Repr

/-- Take digits off the accumulator until it has three or spells none. The argument counts
the digits still missing. -/
def Bits.drain : Nat → Bits → Bits
  | 0, b => b
  | n + 1, b =>
    match huffmanDigit b.bits b.nbits with
    | none => b
    | some (digit, used) =>
      Bits.drain n
        { bits := b.bits &&& (2 ^ (b.nbits - used) - 1)
          nbits := b.nbits - used
          digits := b.digits ++ [digit] }

def Bits.push (b : Bits) (byte : UInt8) : Bits :=
  Bits.drain (3 - b.digits.length)
    { b with bits := (b.bits <<< 8) ||| byte.toNat, nbits := b.nbits + 8 }

/-- Decode a three-digit status value. -/
def statusValue (s : Bytes) (huffman : Bool) : Except StatusError Nat :=
  if !huffman then
    match s with
    | [a, b, c] =>
      if [a, b, c].all isAsciiDigit then .ok (digit a * 100 + digit b * 10 + digit c)
      else .error .malformed
    | _ => .error .malformed
  else if s.length < 2 ∨ 3 < s.length then .error .huffmanLength
  else
    let b := s.foldl Bits.push { bits := 0, nbits := 0, digits := [] }
    -- Padding is at most seven bits and all ones; a fourth symbol is not padding.
    match b.digits with
    | [x, y, z] =>
      if 7 < b.nbits ∨ b.bits ≠ 2 ^ b.nbits - 1 then .error .malformed
      else .ok (x * 100 + y * 10 + z)
    | _ => .error .malformed

end Status

end Shb
