import Shb.Status

/-!
# `http3/qpack.rs` — finding `:status`

As in HPACK, no field is decoded that is not wanted: `findStatus` measures each field of a
section and steps over it. The peer was told not to insert, so every reference is to the
static table. A position in the section is the bytes left from it.
-/

namespace Shb.Http3

open Lib Status

inductive QpackError where
  | short
  | overflow
  | tooLong
  | dynamicReference
  | status (e : StatusError)
  deriving DecidableEq, Repr

/-- Static entries whose name is `:status`, as index and code. -/
def statusEntries : List (Nat × Nat) :=
  [(24, 103), (25, 200), (26, 304), (27, 404), (28, 503), (63, 100), (64, 204), (65, 206),
    (66, 302), (67, 400), (68, 403), (69, 421), (70, 425), (71, 500)]

def statusForIndex (index : Nat) : Option Nat :=
  (statusEntries.find? fun entry => entry.1 == index).map (·.2)

def isStatusIndex (index : Nat) : Bool := statusEntries.any fun entry => entry.1 == index

/-- The continuation octets of an integer. -/
def decodeIntRest : Bytes → Nat → Nat → Except QpackError (Nat × Bytes)
  | [], _, _ => .error .short
  | byte :: rest, value, shift =>
    let value := value + (byte &&& 0x7f).toNat <<< shift
    if 2 ^ 64 ≤ value then .error .overflow
    else if byte &&& 0x80 = 0 then .ok (value, rest)
    else if 56 < shift + 7 then .error .tooLong
    else decodeIntRest rest value (shift + 7)

/-- Read an integer whose first octet leaves it `bits` bits. -/
def decodeInt (buf : Bytes) (bits : Nat) : Except QpackError (Nat × Bytes) :=
  match buf with
  | [] => .error .short
  | b :: rest =>
    let max := 2 ^ bits - 1
    let first := b.toNat &&& max
    if first < max then .ok (first, rest) else decodeIntRest rest max 0

/-- A string literal: its bytes, whether they are Huffman-coded, and the rest. -/
def readStr (buf : Bytes) (bits : Nat) : Except QpackError (Bytes × Bool × Bytes) :=
  match buf with
  | [] => .error .short
  | b :: _ =>
    match decodeInt buf bits with
    | .error e => .error e
    | .ok (len, rest) =>
      if rest.length < len then .error .short
      else .ok (rest.take len, b.toNat &&& 2 ^ bits ≠ 0, rest.drop len)

/-- Is a literal name `:status`, plain or in its one Huffman encoding? -/
def isStatusName (name : Bytes) (huffman : Bool) : Bool :=
  if huffman then name == [0xb8, 0x84, 0x8d, 0x36, 0xa3]
  else name == ascii [':', 's', 't', 'a', 't', 'u', 's']

/-- The value of a literal field: the status if it is that field's. -/
def literalValue (named : Bool) (buf : Bytes) : Except QpackError (Option Nat × Bytes) :=
  match readStr buf 7 with
  | .error e => .error e
  | .ok (value, huffman, rest) =>
    if named then
      match statusValue value huffman with
      | .error e => .error (.status e)
      | .ok status => .ok (some status, rest)
    else .ok (none, rest)

/-- What one field line says: the status, or nothing and the rest. -/
def statusLine (first : UInt8) (buf : Bytes) : Except QpackError (Option Nat × Bytes) :=
  if first &&& 0x80 ≠ 0 then
    match decodeInt buf 6 with
    | .error e => .error e
    | .ok (index, rest) =>
      if first &&& 0x40 = 0 then .error .dynamicReference else .ok (statusForIndex index, rest)
  else if first &&& 0x40 ≠ 0 then
    match decodeInt buf 4 with
    | .error e => .error e
    | .ok (index, rest) =>
      if first &&& 0x10 = 0 then .error .dynamicReference
      else literalValue (isStatusIndex index) rest
  else if first &&& 0x20 ≠ 0 then
    match readStr buf 3 with
    | .error e => .error e
    | .ok (name, huffman, rest) => literalValue (isStatusName name huffman) rest
  else
    -- A post-base index is of the dynamic table.
    .error .dynamicReference

/-- The loop over the field lines. Each takes at least its first octet, so as many rounds as
there are octets are enough. -/
def findStatusFrom : Nat → Bytes → Except QpackError (Option Nat)
  | _, [] => .ok none
  | 0, _ => .ok none
  | fuel + 1, first :: rest =>
    match statusLine first (first :: rest) with
    | .error e => .error e
    | .ok (some status, _) => .ok (some status)
    | .ok (none, rest) => findStatusFrom fuel rest

/-- What nearly every section begins with: an empty prefix and `:status` as one octet. -/
def quickStatus : Bytes → Option Nat
  | 0 :: 0 :: first :: _ =>
    if first &&& 0xc0 = 0xc0 ∧ first &&& 0x3f ≠ 0x3f then statusForIndex (first &&& 0x3f).toNat
    else none
  | _ => none

/-- Find `:status` in a response field section; `none` is what a trailer section looks
like. -/
def findStatus (fields : Bytes) : Except QpackError (Option Nat) :=
  match quickStatus fields with
  | some status => .ok (some status)
  | none =>
    match decodeInt fields 8 with
    | .error e => .error e
    | .ok (requiredInsertCount, rest) =>
      if requiredInsertCount ≠ 0 then .error .dynamicReference
      else
        match decodeInt rest 7 with
        | .error e => .error e
        | .ok (_, rest) => findStatusFrom rest.length rest

end Shb.Http3
