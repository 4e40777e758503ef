import Shb.Quic.Varint

/-!
# `quic/packet.rs`, `quic/header.rs` — what stands around a packet's payload

Connection ids, packet number spaces, packet numbers, and the headers we write. Header
protection and the AEAD are rustls'; the packets a connection reads are described where they
are read.
-/

namespace Shb.Quic

open Lib

/-- The longest connection id there may be. -/
def maxCidLen : Nat := 20

/-- A connection id. -/
structure ConnectionId where
  bytes : Bytes
  len_le : bytes.length ≤ maxCidLen
  deriving DecidableEq, Repr

namespace ConnectionId

def new (slice : Bytes) : Option ConnectionId :=
  if h : slice.length ≤ maxCidLen then some ⟨slice, h⟩ else none

def len (cid : ConnectionId) : Nat := cid.bytes.length

end ConnectionId

/-- The packet number spaces. -/
inductive Space where
  | initial
  | handshake
  | data
  deriving DecidableEq, Repr

/-- `[T; 3]`, indexed by the space. -/
structure Spaces (α : Type) where
  initial : α
  handshake : α
  data : α
  deriving DecidableEq, Repr

namespace Spaces

variable {α : Type}

variable (s : Spaces α)

def get : Space → α
  | .initial => s.initial
  | .handshake => s.handshake
  | .data => s.data

def set (sp : Space) (a : α) : Spaces α :=
  match sp with
  | .initial => { s with initial := a }
  | .handshake => { s with handshake := a }
  | .data => { s with data := a }

def modify (sp : Space) (f : α → α) : Spaces α := s.set sp (f (s.get sp))

@[simp] theorem get_set_self (sp : Space) (a : α) : (s.set sp a).get sp = a := by
  cases sp <;> rfl

theorem get_set_of_ne {sp sp' : Space} (a : α) (h : sp' ≠ sp) :
    (s.set sp a).get sp' = s.get sp' := by
  cases sp <;> cases sp' <;> first | rfl | exact absurd rfl h

theorem get_set (sp sp' : Space) (a : α) :
    (s.set sp a).get sp' = if sp' = sp then a else s.get sp' := by
  split
  · rename_i h
    rw [h, get_set_self]
  · rename_i h
    exact get_set_of_ne s a h

theorem get_modify (sp sp' : Space) (f : α → α) :
    (s.modify sp f).get sp' = if sp' = sp then f (s.get sp) else s.get sp' :=
  get_set s sp sp' _

end Spaces

/-! ## Packet numbers -/

/-- The truncated number and its length, wide enough for twice what may be in flight. -/
def encodePacketNumber (pn : Nat) (largestAcked : Option Nat) : Nat × Nat :=
  let range :=
    match largestAcked with
    | some acked => (pn - acked) * 2
    | none => pn + 1
  let len := if range ≤ 0xff then 1 else if range ≤ 0xffff then 2 else if range ≤
    0xffffff then 3 else 4
  (pn % 2 ^ (8 * len), len)

/-- The full number from the truncated one: the candidate nearest the expected number. -/
def decodePacketNumber (largestPn truncated pnNbits : Nat) : Nat :=
  let expected := largestPn + 1
  let win := 2 ^ pnNbits
  let hwin := win / 2
  let candidate := expected - expected % win + truncated
  if candidate + hwin ≤ expected ∧ candidate + win < 2 ^ 62 then candidate + win
  else if expected + hwin < candidate ∧ win ≤ candidate then candidate - win
  else candidate

/-- What has to be told apart, and the length that does it. -/
theorem packetNumberLen_spec (range : Nat) :
    ∃ len, (if range ≤ 0xff then 1 else if range ≤ 0xffff then 2 else if range ≤ 0xffffff then 3
      else 4) = len ∧ (len = 1 ∨ len = 2 ∨ len = 3 ∨ len = 4) ∧
      (range < 2 ^ 32 → range < 2 ^ (8 * len)) := by
  refine ⟨_, rfl, ?_⟩
  split
  · exact ⟨by omega, fun _ => by omega⟩
  · split
    · exact ⟨by omega, fun _ => by omega⟩
    · split
      · exact ⟨by omega, fun _ => by omega⟩
      · exact ⟨by omega, fun h => h⟩

/-- A number no further from the expected one than half the window is the candidate nearest to
it: of the number's own block of the window, of the one before it or of the one after. -/
theorem decodePacketNumber_near {pn largestPn len : Nat} (hpn : pn < 2 ^ 62)
    (hlen : len = 1 ∨ len = 2 ∨ len = 3 ∨ len = 4)
    (hbehind : largestPn + 1 < pn + 2 ^ (8 * len - 1))
    (hahead : pn ≤ largestPn + 1 + 2 ^ (8 * len - 1)) :
    decodePacketNumber largestPn (pn % 2 ^ (8 * len)) (8 * len) = pn := by
  unfold decodePacketNumber
  rcases hlen with rfl | rfl | rfl | rfl
  all_goals
    simp only [Nat.reduceMul, Nat.reduceSub, Nat.reducePow, Nat.reduceDiv] at *
    repeat' split
    all_goals omega

/-- A number that was not truncated is read as it is by whoever has seen nothing past it. -/
theorem decodePacketNumber_whole {pn largestPn nbits : Nat} (hpn : pn < 2 ^ nbits)
    (hlt : largestPn < pn) : decodePacketNumber largestPn (pn % 2 ^ nbits) nbits = pn := by
  have hblock : (largestPn + 1) % 2 ^ nbits = largestPn + 1 :=
    Nat.mod_eq_of_lt (Nat.lt_of_le_of_lt hlt hpn)
  unfold decodePacketNumber
  dsimp only
  rw [hblock, Nat.sub_self, Nat.zero_add, Nat.mod_eq_of_lt hpn, if_neg (by omega),
    if_neg (by omega)]

theorem encodePacketNumber_eq (pn : Nat) (largestAcked : Option Nat) :
    ∃ len, encodePacketNumber pn largestAcked = (pn % 2 ^ (8 * len), len) ∧
      (len = 1 ∨ len = 2 ∨ len = 3 ∨ len = 4) ∧
      (∀ acked, largestAcked = some acked → pn - acked < 2 ^ 31 →
        (pn - acked) * 2 < 2 ^ (8 * len)) ∧
      (largestAcked = none → pn < 2 ^ 32 - 1 → pn < 2 ^ (8 * len)) := by
  cases largestAcked with
  | none =>
    obtain ⟨len, rfl, hfour, hwide⟩ := packetNumberLen_spec (pn + 1)
    exact ⟨_, rfl, hfour, fun _ h => (nomatch h), fun _ h => Nat.lt_of_succ_lt (hwide (by omega))⟩
  | some acked =>
    obtain ⟨len, rfl, hfour, hwide⟩ := packetNumberLen_spec ((pn - acked) * 2)
    refine ⟨_, rfl, hfour, fun acked' h hclose => ?_, fun h => nomatch h⟩
    cases h
    exact hwide (by omega)

/-- **Packet numbers survive truncation.** A number less than `2^31` past the largest one
acknowledged, or with nothing acknowledged less than `2^32 - 1`, is recovered from its truncated
form by every receiver that has seen what was acknowledged and nothing from the number on, and by
every receiver that has seen later numbers, up to half of the window its length gives. -/
theorem packet_number_survives_truncation (pn largestPn : Nat) (largestAcked : Option Nat)
    (hpn : pn < 2 ^ 62)
    (hacked : ∀ acked, largestAcked = some acked → acked < pn ∧ pn - acked < 2 ^ 31)
    (hnone : largestAcked = none → pn < 2 ^ 32 - 1)
    (hlargest : (∀ acked, largestAcked = some acked → acked ≤ largestPn) ∧ largestPn < pn ∨
      pn ≤ largestPn ∧
        largestPn + 1 - pn < 2 ^ (8 * (encodePacketNumber pn largestAcked).2 - 1)) :
    decodePacketNumber largestPn (encodePacketNumber pn largestAcked).1
      (8 * (encodePacketNumber pn largestAcked).2) = pn := by
  obtain ⟨len, hencode, hfour, hsome, hwhole⟩ := encodePacketNumber_eq pn largestAcked
  have hhalf : 2 * 2 ^ (8 * len - 1) = 2 ^ (8 * len) := by
    rcases hfour with rfl | rfl | rfl | rfl <;> rfl
  rw [hencode] at hlargest ⊢
  rcases hlargest with ⟨hseen, hlt⟩ | ⟨hge, hnear⟩
  · cases largestAcked with
    | none => exact decodePacketNumber_whole (hwhole rfl (hnone rfl)) hlt
    | some acked =>
      obtain ⟨hlow, hclose⟩ := hacked acked rfl
      have hrange := hsome acked rfl hclose
      have hfrom := hseen acked rfl
      exact decodePacketNumber_near hpn hfour (by omega) (by omega)
  · have hnear : largestPn + 1 - pn < 2 ^ (8 * len - 1) := hnear
    exact decodePacketNumber_near hpn hfour (by omega) (by omega)

/-- Three bytes on the wire, read before and after the number was passed. -/
theorem packet_number_survives_truncation_three :
    encodePacketNumber 0xabe8b3 (some 0xaae8b3) = (0xabe8b3 % 2 ^ 24, 3) ∧
    decodePacketNumber 0xaae8b3 (0xabe8b3 % 2 ^ 24) (8 * 3) = 0xabe8b3 ∧
    decodePacketNumber 0xabe8ff (0xabe8b3 % 2 ^ 24) (8 * 3) = 0xabe8b3 := by
  refine ⟨rfl, ?_, ?_⟩
  · exact packet_number_survives_truncation 0xabe8b3 0xaae8b3 (some 0xaae8b3) (by decide)
      (fun a h => by cases h; decide) (fun h => nomatch h)
      (Or.inl ⟨fun a h => by cases h; decide, by decide⟩)
  · exact packet_number_survives_truncation 0xabe8b3 0xabe8ff (some 0xaae8b3) (by decide)
      (fun a h => by cases h; decide) (fun h => nomatch h) (Or.inr ⟨by decide, by decide⟩)

/-- The big-endian bytes of a truncated packet number. -/
def packetNumberBytes (truncated len : Nat) : Bytes := (be64 truncated).drop (8 - len)

/-! ## Headers -/

def version1 : Nat := 1

/-- A length as a four-byte varint whatever its value. -/
def putVarintFixed4 (value : Nat) : Bytes := be32 (0x80000000 + value % 2 ^ 31)

structure LongHeader where
  space : Space
  dcid : ConnectionId
  scid : ConnectionId
  token : Bytes
  deriving DecidableEq, Repr

/-- `LongHeader::put`, up to the packet number. `payloadLen` counts the packet number, the
payload and the tag. Never used for 1-RTT packets, which have a short header. -/
def LongHeader.put (h : LongHeader) (pnLen payloadLen : Nat) : Bytes :=
  let kind : UInt8 := match h.space with
    | .initial => 0x00
    | _ => 0x20
  [0x80 ||| 0x40 ||| kind ||| UInt8.ofNat (pnLen - 1)] ++ be32 version1 ++
    [UInt8.ofNat h.dcid.len] ++ h.dcid.bytes ++ [UInt8.ofNat h.scid.len] ++ h.scid.bytes ++
    (if h.space = .initial then putVarint h.token.length ++ h.token else []) ++
    putVarintFixed4 payloadLen

def putShortHeader (dcid : ConnectionId) (pnLen : Nat) (keyPhase : Bool) : Bytes :=
  (0x40 ||| UInt8.ofNat (pnLen - 1) ||| if keyPhase then 0x04 else 0) :: dcid.bytes

end Shb.Quic
