import Shb.Quic.Packet

/-!
# `quic/frame.rs` — frames

`Iter` walks a payload; here its cursor is the list of bytes still to be read. The encoders
return the bytes the source appends. An ACK's ranges are kept as written and walked by
`AckRanges`.
-/

namespace Shb.Quic

open Lib

namespace FrameType

def padding : Nat := 0x00
def ping : Nat := 0x01
def ack : Nat := 0x02
def ackEcn : Nat := 0x03
def resetStream : Nat := 0x04
def stopSending : Nat := 0x05
def crypto : Nat := 0x06
def newToken : Nat := 0x07
def streamBase : Nat := 0x08
def streamMax : Nat := 0x0f
def maxData : Nat := 0x10
def maxStreamData : Nat := 0x11
def maxStreamsBidi : Nat := 0x12
def maxStreamsUni : Nat := 0x13
def dataBlocked : Nat := 0x14
def streamDataBlocked : Nat := 0x15
def streamsBlockedBidi : Nat := 0x16
def streamsBlockedUni : Nat := 0x17
def newConnectionId : Nat := 0x18
def retireConnectionId : Nat := 0x19
def pathChallenge : Nat := 0x1a
def pathResponse : Nat := 0x1b
def connectionCloseQuic : Nat := 0x1c
def connectionCloseApp : Nat := 0x1d
def handshakeDone : Nat := 0x1e

end FrameType

/-- The transport error code that stands in for an application close during the handshake. -/
def applicationError : Nat := 0x0c

inductive Frame where
  | padding
  | ping
  /-- The gap/range pairs are left as written. -/
  | ack (largest delay firstRange : Nat) (ranges : Bytes) (rangeCount : Nat)
  | resetStream (id error finalSize : Nat)
  | stopSending (id error : Nat)
  | crypto (offset : Nat) (data : Bytes)
  | newToken
  | stream (id offset : Nat) (fin : Bool) (data : Bytes)
  | maxData (limit : Nat)
  | maxStreamData (id limit : Nat)
  | maxStreams (uni : Bool) (limit : Nat)
  | dataBlocked (limit : Nat)
  | streamDataBlocked (id limit : Nat)
  | streamsBlocked (uni : Bool) (limit : Nat)
  | newConnectionId (seq retirePriorTo : Nat) (cid resetToken : Bytes)
  | retireConnectionId (seq : Nat)
  | pathChallenge (data : Bytes)
  | pathResponse (data : Bytes)
  | close (app : Bool) (error : Nat) (reason : Bytes)
  | handshakeDone
  deriving DecidableEq, Repr

/-- Whether this frame makes the peer acknowledge the packet carrying it. -/
def Frame.ackEliciting : Frame → Bool
  | padding => false
  | ack .. => false
  | close .. => false
  | _ => true

inductive FrameError where
  | truncatedVarint
  | pastTheEnd
  | oversizedCid
  | unknownType (kind : Nat)
  deriving DecidableEq, Repr

/-! ## Decoding -/

namespace Iter

/-- Each read returns its value and the bytes behind it. -/
def varint (buf : Bytes) : Except FrameError (Nat × Bytes) :=
  match getVarint buf with
  | none => .error .truncatedVarint
  | some (v, n) => .ok (v, buf.drop n)

def take (n : Nat) (buf : Bytes) : Except FrameError (Bytes × Bytes) :=
  if buf.length < n then .error .pastTheEnd else .ok (buf.take n, buf.drop n)

/-- `count` pairs of varints, stepped over. -/
def skipPairs : Nat → Bytes → Except FrameError Bytes
  | 0, buf => .ok buf
  | count + 1, buf => do
    let (_, buf) ← varint buf
    let (_, buf) ← varint buf
    skipPairs count buf

/-- The frames a steady run does not carry. -/
def rareFrame (kind : Nat) (buf : Bytes) : Except FrameError (Frame × Bytes) :=
  if kind = FrameType.resetStream then do
    let (id, buf) ← varint buf
    let (error, buf) ← varint buf
    let (finalSize, buf) ← varint buf
    .ok (.resetStream id error finalSize, buf)
  else if kind = FrameType.stopSending then do
    let (id, buf) ← varint buf
    let (error, buf) ← varint buf
    .ok (.stopSending id error, buf)
  else if kind = FrameType.crypto then do
    let (offset, buf) ← varint buf
    let (len, buf) ← varint buf
    let (data, buf) ← take len buf
    .ok (.crypto offset data, buf)
  else if kind = FrameType.newToken then do
    let (len, buf) ← varint buf
    let (_, buf) ← take len buf
    .ok (.newToken, buf)
  else if kind = FrameType.maxStreamData then do
    let (id, buf) ← varint buf
    let (limit, buf) ← varint buf
    .ok (.maxStreamData id limit, buf)
  else if kind = FrameType.dataBlocked then do
    let (limit, buf) ← varint buf
    .ok (.dataBlocked limit, buf)
  else if kind = FrameType.streamDataBlocked then do
    let (id, buf) ← varint buf
    let (limit, buf) ← varint buf
    .ok (.streamDataBlocked id limit, buf)
  else if kind = FrameType.streamsBlockedBidi ∨ kind = FrameType.streamsBlockedUni then do
    let (limit, buf) ← varint buf
    .ok (.streamsBlocked (kind = FrameType.streamsBlockedUni) limit, buf)
  else if kind = FrameType.newConnectionId then do
    let (seq, buf) ← varint buf
    let (retirePriorTo, buf) ← varint buf
    let (lenByte, buf) ← take 1 buf
    let len := (lenByte.headD 0).toNat
    if maxCidLen < len then .error .oversizedCid
    else do
      let (cid, buf) ← take len buf
      let (resetToken, buf) ← take 16 buf
      .ok (.newConnectionId seq retirePriorTo cid resetToken, buf)
  else if kind = FrameType.retireConnectionId then do
    let (seq, buf) ← varint buf
    .ok (.retireConnectionId seq, buf)
  else if kind = FrameType.pathChallenge then do
    let (data, buf) ← take 8 buf
    .ok (.pathChallenge data, buf)
  else if kind = FrameType.pathResponse then do
    let (data, buf) ← take 8 buf
    .ok (.pathResponse data, buf)
  else if kind = FrameType.connectionCloseQuic ∨ kind = FrameType.connectionCloseApp then do
    let (error, buf) ← varint buf
    -- a transport close names the frame type that caused it
    let buf ← if kind = FrameType.connectionCloseQuic then (·.2) <$> varint buf else .ok buf
    let (len, buf) ← varint buf
    let (reason, buf) ← take len buf
    .ok (.close (kind = FrameType.connectionCloseApp) error reason, buf)
  else if kind = FrameType.handshakeDone then .ok (.handshakeDone, buf)
  else .error (.unknownType kind)

def nextFrame (buf : Bytes) : Except FrameError (Frame × Bytes) := do
  let (kind, buf) ← varint buf
  if kind = FrameType.padding then
    -- a run of zero bytes is one frame
    .ok (.padding, buf.dropWhile (· == 0))
  else if kind = FrameType.ping then .ok (.ping, buf)
  else if kind = FrameType.ack ∨ kind = FrameType.ackEcn then do
    let (largest, buf) ← varint buf
    let (delay, buf) ← varint buf
    let (rangeCount, buf) ← varint buf
    let (firstRange, start) ← varint buf
    let buf ← skipPairs rangeCount start
    let ranges := start.take (start.length - buf.length)
    let buf ←
      if kind = FrameType.ackEcn then do
        let (_, buf) ← varint buf
        let (_, buf) ← varint buf
        let (_, buf) ← varint buf
        .ok buf
      else .ok buf
    .ok (.ack largest delay firstRange ranges rangeCount, buf)
  else if FrameType.streamBase ≤ kind ∧ kind ≤ FrameType.streamMax then do
    let (id, buf) ← varint buf
    -- the bits of the type: 0x04 an offset, 0x02 a length, 0x01 the FIN
    let (offset, buf) ← if kind / 4 % 2 = 1 then varint buf else .ok (0, buf)
    let (data, buf) ←
      if kind / 2 % 2 = 1 then do
        let (len, buf) ← varint buf
        take len buf
      else take buf.length buf
    .ok (.stream id offset (kind % 2 = 1) data, buf)
  else if kind = FrameType.maxData then do
    let (limit, buf) ← varint buf
    .ok (.maxData limit, buf)
  else if kind = FrameType.maxStreamsBidi ∨ kind = FrameType.maxStreamsUni then do
    let (limit, buf) ← varint buf
    .ok (.maxStreams (kind = FrameType.maxStreamsUni) limit, buf)
  else rareFrame kind buf

/-- The iterator, run to its end: it stops after an error. A frame takes at least its type's
byte, so the length of the payload is enough fuel. -/
def walk : Nat → Bytes → List (Except FrameError Frame)
  | 0, _ => []
  | _ + 1, [] => []
  | fuel + 1, buf =>
    match nextFrame buf with
    | .ok (f, buf) => .ok f :: walk fuel buf
    | .error e => [.error e]

end Iter

/-- `Iter::new(buf)`, as the list of what it yields. -/
def frames (buf : Bytes) : List (Except FrameError Frame) := Iter.walk buf.length buf

/-- `AckRanges` past the first range: each pair is a gap and a length below `nextLargest`. -/
def ackRangesFrom (nextLargest : Nat) : Nat → Bytes → List (Nat × Nat)
  | 0, _ => []
  | fuel + 1, ranges =>
    match getVarint ranges with
    | none => []
    | some (gap, n) =>
      match getVarint (ranges.drop n) with
      | none => []
      | some (len, m) =>
        if nextLargest < gap + 2 ∨ nextLargest - (gap + 2) < len then []
        else
          let largest := nextLargest - (gap + 2)
          (largest - len, largest) :: ackRangesFrom (largest - len) fuel (ranges.drop (n + m))

/-- `AckRanges::new(largest, first_range, ranges)`, as the list of what it yields. -/
def ackRanges (largest firstRange : Nat) (ranges : Bytes) : List (Nat × Nat) :=
  if largest < firstRange then []
  else (largest - firstRange, largest) :: ackRangesFrom (largest - firstRange) ranges.length ranges

/-- The packet number ranges a frame acknowledges. -/
def Frame.acks : Frame → List (Nat × Nat)
  | ack largest _ firstRange ranges _ => ackRanges largest firstRange ranges
  | _ => []

/-- The stream a frame with stream data, or the end of one, is about, and the end it names. -/
def Frame.names : Frame → Option (Nat × Nat)
  | stream id offset _ data => some (id, offset + data.length)
  | resetStream id _ finalSize => some (id, finalSize)
  | _ => none

/-! ## Encoding -/

def putPing : Bytes := [UInt8.ofNat FrameType.ping]

def putCrypto (offset : Nat) (data : Bytes) : Bytes :=
  putVarint FrameType.crypto ++ putVarint offset ++ putVarint data.length ++ data

/-- Always with an explicit length, so that more frames can follow. -/
def putStream (id offset : Nat) (fin : Bool) (data : Bytes) : Bytes :=
  putVarint (FrameType.streamBase + 0x02 + (if offset ≠ 0 then 0x04 else 0) +
      if fin then 0x01 else 0) ++
    putVarint id ++ (if offset ≠ 0 then putVarint offset else []) ++ putVarint data.length ++ data

def putMaxData (limit : Nat) : Bytes := putVarint FrameType.maxData ++ putVarint limit

def putMaxStreamData (id limit : Nat) : Bytes :=
  putVarint FrameType.maxStreamData ++ putVarint id ++ putVarint limit

def putResetStream (id error finalSize : Nat) : Bytes :=
  putVarint FrameType.resetStream ++ putVarint id ++ putVarint error ++ putVarint finalSize

def putRetireConnectionId (seq : Nat) : Bytes :=
  putVarint FrameType.retireConnectionId ++ putVarint seq

def putPathResponse (data : Bytes) : Bytes := putVarint FrameType.pathResponse ++ data

def putClose (error : Nat) (reason : Bytes) : Bytes :=
  putVarint FrameType.connectionCloseApp ++ putVarint error ++ putVarint reason.length ++ reason

def putTransportClose (error : Nat) : Bytes :=
  putVarint FrameType.connectionCloseQuic ++ putVarint error ++ putVarint FrameType.padding ++
    putVarint 0

/-- The loop of `put_ack` over the ranges below the first. -/
def putAckRest (prevSmallest : Nat) : List (Nat × Nat) → Bytes
  | [] => []
  | (smallest, largest) :: rest =>
    putVarint (prevSmallest - largest - 2) ++ putVarint (largest - smallest) ++
      putAckRest smallest rest

/-- An ACK covering `ranges`. The source indexes `ranges[0]`: with no range at all it
panics, which is `none` here. -/
def putAck (ranges : List (Nat × Nat)) (delay : Nat) : Option Bytes :=
  match ranges with
  | [] => none
  | (smallest, largest) :: rest =>
    some (putVarint FrameType.ack ++ putVarint largest ++ putVarint delay ++
      putVarint (ranges.length - 1) ++ putVarint (largest - smallest) ++ putAckRest smallest rest)

/-! ## What is accepted is well formed -/

/-- What the handlers count on: an id no longer than ids are, and the fixed sizes. -/
def Frame.WellFormed : Frame → Prop
  | newConnectionId _ _ cid resetToken => cid.length ≤ maxCidLen ∧ resetToken.length = 16
  | pathChallenge data => data.length = 8
  | _ => True

namespace Iter

/-- A reader whose frames, when it gives one, are well formed. -/
def Sound (e : Except FrameError (Frame × Bytes)) : Prop :=
  ∀ f rest, e = .ok (f, rest) → f.WellFormed

theorem sound_ok {f : Frame} {rest : Bytes} (h : f.WellFormed) : Sound (.ok (f, rest)) := by
  intro f' rest' heq
  cases heq
  exact h

theorem sound_error (e : FrameError) : Sound (.error e) := fun _ _ h => by cases h

theorem sound_bind {α : Type} {m : Except FrameError α} {k : α → Except FrameError (Frame × Bytes)}
    (h : ∀ a, m = .ok a → Sound (k a)) : Sound (m >>= k) := by
  cases m with
  | error e => exact sound_error e
  | ok a => exact h a rfl

theorem sound_ite {p : Prop} [Decidable p] {a b : Except FrameError (Frame × Bytes)}
    (ha : p → Sound a) (hb : ¬ p → Sound b) : Sound (if p then a else b) := by
  split
  · exact ha (by assumption)
  · exact hb (by assumption)

theorem length_of_take {n : Nat} {buf : Bytes} {a : Bytes × Bytes}
    (h : take n buf = .ok a) : a.1.length = n := by
  unfold take at h
  split at h
  · cases h
  · cases h
    simp only [List.length_take]
    omega

theorem rareFrame_sound (kind : Nat) (buf : Bytes) : Sound (rareFrame kind buf) := by
  repeat' first
    | exact sound_ok trivial
    | exact sound_error _
    | refine sound_ite (fun _ => ?_) fun _ => ?_
    | refine sound_bind fun _ _ => ?_
  · rename_i hlen _ hcid _ htoken
    refine sound_ok ⟨?_, length_of_take htoken⟩
    rw [length_of_take hcid]
    exact Nat.not_lt.mp hlen
  · rename_i h
    exact sound_ok (length_of_take h)

theorem nextFrame_sound (buf : Bytes) : Sound (nextFrame buf) := by
  repeat' first
    | exact sound_ok trivial
    | exact sound_error _
    | exact rareFrame_sound _ _
    | refine sound_ite (fun _ => ?_) fun _ => ?_
    | refine sound_bind fun _ _ => ?_

theorem walk_sound : ∀ {fuel : Nat} {buf : Bytes} {f : Frame}, .ok f ∈ walk fuel buf → f.WellFormed
  | 0, _, _, h | _ + 1, [], _, h => absurd h List.not_mem_nil
  | fuel + 1, b :: buf, f, h => by
    simp only [walk] at h
    split at h
    · rename_i g rest heq
      rcases List.mem_cons.mp h with hfg | h
      · cases hfg
        exact nextFrame_sound _ _ _ heq
      · exact walk_sound h
    · simp at h

end Iter

/-- Every frame the iterator yields is well formed. -/
theorem frames_wellFormed {buf : Bytes} {f : Frame} (h : .ok f ∈ frames buf) : f.WellFormed :=
  Iter.walk_sound h

end Shb.Quic
