import Shb.Status

/-!
# `http2/hpack.rs` — what the connection uses of HPACK

The decoder never decodes a field it does not want: `findStatus` measures every field of a
response block and steps over it. A position in the block is modelled by the bytes left from
it, so a reader returns what it read and the rest.
-/

namespace Shb.Http2

open Lib Status

inductive HpackError where
  | short
  | overflow
  | tooLong
  | indexZero
  | dynamicReference
  | status (e : StatusError)
  deriving DecidableEq, Repr

/-- Static table entries whose name is `:status`, from index 8 to 14. -/
def statusByIndex : List Nat := [200, 204, 206, 304, 400, 404, 500]

def statusIndexLo : Nat := 8
def statusIndexHi : Nat := 14

/-- The continuation octets of an integer at least as large as its prefix. -/
def encodeIntRest : Nat → Nat → Bytes
  | 0, rest => [UInt8.ofNat rest]
  | fuel + 1, rest =>
    if 128 ≤ rest then UInt8.ofNat (rest % 128 + 128) :: encodeIntRest fuel (rest / 128)
    else [UInt8.ofNat rest]

/-- An integer in HPACK's prefix encoding, under the representation bits `mask`. A `u32` has
at most five continuation octets. -/
def encodeInt (prefixBits : Nat) (mask : UInt8) (value : Nat) : Bytes :=
  let max := 2 ^ prefixBits - 1
  if value < max then [mask ||| UInt8.ofNat value]
  else (mask ||| UInt8.ofNat max) :: encodeIntRest 5 (value - max)

/-- A dynamic table size update. -/
def sizeUpdate (size : Nat) : Bytes := encodeInt 5 0x20 size

/-- Extended integers: seven bits an octet, least significant first. -/
def decodeIntTail : Bytes → Nat → Nat → Except HpackError (Nat × Bytes)
  | [], _, _ => .error .short
  | byte :: rest, value, shift =>
    let value := value + (byte &&& 0x7f).toNat <<< shift
    if 2 ^ 32 ≤ value then .error .overflow
    else if byte &&& 0x80 = 0 then .ok (value, rest)
    else if 21 < shift + 7 then .error .tooLong
    else decodeIntTail rest value (shift + 7)

/-- Read an integer in HPACK's prefix encoding. -/
def decodeInt (buf : Bytes) (prefixBits : Nat) : Except HpackError (Nat × Bytes) :=
  match buf with
  | [] => .error .short
  | b :: rest =>
    let max := 2 ^ prefixBits - 1
    let first := b.toNat &&& max
    if first < max then .ok (first, rest) else decodeIntTail rest max 0

/-- A string literal: its bytes, whether they are Huffman-coded, and the rest. -/
def readStr (buf : Bytes) : Except HpackError (Bytes × Bool × Bytes) :=
  match buf with
  | [] => .error .short
  | b :: _ =>
    match decodeInt buf 7 with
    | .error e => .error e
    | .ok (len, rest) =>
      if rest.length < len then .error .short
      else .ok (rest.take len, b &&& 0x80 ≠ 0, rest.drop len)

/-- The one Huffman encoding of `:status`. -/
def huffmanStatusName : Bytes := [0xb8, 0x84, 0x8d, 0x36, 0xa3]

def plainStatusName : Bytes := ascii [':', 's', 't', 'a', 't', 'u', 's']

/-- The name of a literal field: is it `:status`? -/
def namedStatus (nameIndex : Nat) (rest : Bytes) : Except HpackError (Bool × Bytes) :=
  if nameIndex = 0 then
    match readStr rest with
    | .error e => .error e
    | .ok (name, huffman, rest) =>
      .ok (if huffman then name == huffmanStatusName else name == plainStatusName, rest)
  else if 61 < nameIndex then .error .dynamicReference
  else .ok (statusIndexLo ≤ nameIndex && nameIndex ≤ statusIndexHi, rest)

/-- What one representation of the block says: the status, or nothing and the rest. -/
def statusField (first : UInt8) (block : Bytes) : Except HpackError (Option Nat × Bytes) :=
  if first &&& 0x80 ≠ 0 then
    match decodeInt block 7 with
    | .error e => .error e
    | .ok (index, rest) =>
      if statusIndexLo ≤ index ∧ index ≤ statusIndexHi then
        .ok (statusByIndex[index - statusIndexLo]?, rest)
      else if index = 0 then .error .indexZero
      else if 61 < index then .error .dynamicReference
      else .ok (none, rest)
  else if first &&& 0x40 = 0 ∧ first &&& 0x20 ≠ 0 then
    -- Dynamic table size update, no field follows.
    match decodeInt block 5 with
    | .error e => .error e
    | .ok (_, rest) => .ok (none, rest)
  else
    match decodeInt block (if first &&& 0x40 ≠ 0 then 6 else 4) with
    | .error e => .error e
    | .ok (nameIndex, rest) =>
      match namedStatus nameIndex rest with
      | .error e => .error e
      | .ok (named, rest) =>
        match readStr rest with
        | .error e => .error e
        | .ok (value, huffman, rest) =>
          if named then
            match statusValue value huffman with
            | .error e => .error (.status e)
            | .ok status => .ok (some status, rest)
          else .ok (none, rest)

/-- The loop over a block's fields. Every field takes at least its first octet, so as many
rounds as there are octets are enough. -/
def findStatusFrom : Nat → Bytes → Except HpackError (Option Nat)
  | _, [] => .ok none
  | 0, _ => .ok none
  | fuel + 1, first :: rest =>
    match statusField first (first :: rest) with
    | .error e => .error e
    | .ok (some status, _) => .ok (some status)
    | .ok (none, rest) => findStatusFrom fuel rest

/-- Find `:status` in a response header block; `none` is what a trailer section looks
like. -/
def findStatus (block : Bytes) : Except HpackError (Option Nat) :=
  findStatusFrom block.length block

end Shb.Http2
