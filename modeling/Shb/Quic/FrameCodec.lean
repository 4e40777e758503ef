import Shb.Quic.AckRanges

/-!
# Frames: what is written reads back

`Written` lists the frames the encoders of `quic/frame.rs` write, with the arguments they are
given, and `Written.frame` the frame the other side should see. Each encoder is undone by one
`next_frame`, whatever stands behind it; a whole payload, and the padding at its end, follow by
induction on the list.
-/

namespace Shb.Quic

open Lib

/-- A call of one of the `put_*` functions. -/
inductive Written where
  | ping
  | crypto (offset : Nat) (data : Bytes)
  | stream (id offset : Nat) (fin : Bool) (data : Bytes)
  | maxData (limit : Nat)
  | maxStreamData (id limit : Nat)
  | resetStream (id error finalSize : Nat)
  | retireConnectionId (seq : Nat)
  | pathResponse (data : Bytes)
  | close (error : Nat) (reason : Bytes)
  | transportClose (error : Nat)
  | ack (ranges : List (Nat × Nat)) (delay : Nat)
  deriving DecidableEq

namespace Written

/-- The bytes the call appends. `put_ack` panics on an empty list. -/
def put : Written → Bytes
  | ping => putPing
  | crypto offset data => putCrypto offset data
  | stream id offset fin data => putStream id offset fin data
  | maxData limit => putMaxData limit
  | maxStreamData id limit => putMaxStreamData id limit
  | resetStream id error finalSize => putResetStream id error finalSize
  | retireConnectionId seq => putRetireConnectionId seq
  | pathResponse data => putPathResponse data
  | close error reason => putClose error reason
  | transportClose error => putTransportClose error
  | ack ranges delay => (putAck ranges delay).getD []

/-- The frame the call is for. -/
def frame : Written → Frame
  | ping => .ping
  | crypto offset data => .crypto offset data
  | stream id offset fin data => .stream id offset fin data
  | maxData limit => .maxData limit
  | maxStreamData id limit => .maxStreamData id limit
  | resetStream id error finalSize => .resetStream id error finalSize
  | retireConnectionId seq => .retireConnectionId seq
  | pathResponse data => .pathResponse data
  | close error reason => .close true error reason
  | transportClose error => .close false error []
  | ack [] _ => .padding
  | ack ((smallest, largest) :: rest) delay =>
    .ack largest delay (largest - smallest) (putAckRest smallest rest) rest.length

/-- The first byte the call appends. -/
def typeByte : Written → UInt8
  | ping => 0x01
  | crypto _ _ => 0x06
  | stream _ offset fin _ =>
    UInt8.ofNat (0x0a + (if offset ≠ 0 then 0x04 else 0) + if fin then 0x01 else 0)
  | maxData _ => 0x10
  | maxStreamData _ _ => 0x11
  | resetStream _ _ _ => 0x04
  | retireConnectionId _ => 0x19
  | pathResponse _ => 0x1b
  | close _ _ => 0x1d
  | transportClose _ => 0x1c
  | ack _ _ => 0x02

theorem typeByte_ne_pathResponse {w : Written} (h : ∀ data, w ≠ pathResponse data) :
    w.typeByte ≠ 0x1b := by
  cases w with
  | pathResponse data => exact absurd rfl (h data)
  | stream id offset fin data =>
    rw [typeByte]
    split <;> split <;> decide
  | _ => simp [typeByte]

theorem head?_put {w : Written} (h : ∀ delay, w ≠ ack [] delay) :
    w.put.head? = some w.typeByte := by
  cases w with
  | stream id offset fin data =>
    by_cases ho : offset = 0
    all_goals cases fin
    all_goals
      simp only [put, putStream, typeByte, ho, ne_eq, not_true_eq_false, not_false_eq_true, if_true,
        if_false, Bool.false_eq_true]
      rfl
  | ack ranges delay =>
    cases ranges with
    | nil => exact absurd rfl (h delay)
    | cons r rest => rfl
  | _ => rfl

/-- Every number fits a varint, a PATH_RESPONSE carries the eight bytes of its challenge, and
an ACK has ranges, largest first, no two touching. -/
def Fits : Written → Prop
  | ping => True
  | crypto offset data => offset < 2 ^ 62 ∧ data.length < 2 ^ 62
  | stream id offset _ data => id < 2 ^ 62 ∧ offset < 2 ^ 62 ∧ data.length < 2 ^ 62
  | maxData limit => limit < 2 ^ 62
  | maxStreamData id limit => id < 2 ^ 62 ∧ limit < 2 ^ 62
  | resetStream id error finalSize => id < 2 ^ 62 ∧ error < 2 ^ 62 ∧ finalSize < 2 ^ 62
  | retireConnectionId seq => seq < 2 ^ 62
  | pathResponse data => data.length = 8
  | close error reason => error < 2 ^ 62 ∧ reason.length < 2 ^ 62
  | transportClose error => error < 2 ^ 62
  | ack ranges delay => ranges ≠ [] ∧ Spaced ranges ∧ (∀ r ∈ ranges, r.2 < 2 ^ 62) ∧ delay < 2 ^ 62

/-- The ranges an ACK was written from. -/
def ranges : Written → List (Nat × Nat)
  | ack ranges _ => ranges
  | _ => []

end Written

/-! ## One frame -/

namespace Iter

theorem take_append {n : Nat} {data : Bytes} (h : data.length = n) (tail : Bytes) :
    take n (data ++ tail) = .ok (data, tail) := by
  subst h
  rw [take, if_neg (by rw [List.length_append]; omega), List.take_left, List.drop_left]

/-- The frame types `next_frame` reads itself. -/
def steady (kind : Nat) :
    Bool := kind ≤ 3 || 8 ≤ kind && kind ≤ 0x10 || kind == 0x12 || kind == 0x13

theorem nextFrame_rare {kind : Nat} (hk : kind < 2 ^ 62) (hs : steady kind = false)
    (rest : Bytes) : nextFrame (putVarint kind ++ rest) = rareFrame kind rest := by
  simp only [steady, Bool.or_eq_false_iff, Bool.and_eq_false_iff, decide_eq_false_iff_not,
    beq_eq_false_iff_ne] at hs
  simp only [nextFrame, bind, Except.bind, varint_putVarint hk]
  rw [if_neg (by simp only [FrameType.padding]; omega),
    if_neg (by simp only [FrameType.ping]; omega),
    if_neg (by simp only [FrameType.ack, FrameType.ackEcn]; omega),
    if_neg (by simp only [FrameType.streamBase, FrameType.streamMax]; omega),
    if_neg (by simp only [FrameType.maxData]; omega),
    if_neg (by simp only [FrameType.maxStreamsBidi, FrameType.maxStreamsUni]; omega)]

-- the frame types are numbers that reading tells apart
attribute [local simp] bind Except.bind Written.frame FrameType.padding FrameType.ping FrameType.ack
  FrameType.ackEcn FrameType.resetStream FrameType.stopSending FrameType.crypto FrameType.newToken
  FrameType.streamBase FrameType.streamMax FrameType.maxData FrameType.maxStreamData
  FrameType.dataBlocked FrameType.streamDataBlocked FrameType.streamsBlockedBidi
  FrameType.streamsBlockedUni FrameType.newConnectionId FrameType.retireConnectionId
  FrameType.pathChallenge FrameType.pathResponse FrameType.connectionCloseQuic
  FrameType.connectionCloseApp

/-- The type of a STREAM frame has its offset, length and FIN bits where they are read. -/
theorem nextFrame_putStream {id offset : Nat} {fin : Bool} {data : Bytes} (hid : id < 2 ^ 62)
    (hoffset : offset < 2 ^ 62) (hdata : data.length < 2 ^ 62) (tail : Bytes) :
    nextFrame (putStream id offset fin data ++ tail) = .ok (.stream id offset fin data, tail) := by
  have htake := take_append (rfl : data.length = _) tail
  by_cases ho : offset = 0
  · cases fin <;>
      simp [putStream, nextFrame, varint_putVarint, ho, varint_putVarint hid,
        varint_putVarint hdata, htake]
  · cases fin <;>
      simp [putStream, nextFrame, varint_putVarint, ho, varint_putVarint hid,
        varint_putVarint hoffset, varint_putVarint hdata, htake]

theorem nextFrame_putMaxData {limit : Nat} (h : limit < 2 ^ 62) (tail : Bytes) :
    nextFrame (putMaxData limit ++ tail) = .ok (.maxData limit, tail) := by
  simp [putMaxData, nextFrame, varint_putVarint, varint_putVarint h]

/-- There are fewer ranges than numbers in them. -/
theorem length_le_of_spaced : ∀ {ranges : List (Nat × Nat)} {bound : Nat}, Spaced ranges →
    (∀ r ∈ ranges, r.2 < bound) → ranges.length ≤ bound
  | [], _, _, _ => Nat.zero_le _
  | (smallest, largest) :: rest, bound, hs, hlt => by
    obtain ⟨hle, hbelow, hs'⟩ := spaced_cons.mp hs
    have hrest := length_le_of_spaced hs' fun r hr => Nat.lt_of_succ_lt (hbelow r hr)
    have hl := hlt (smallest, largest) List.mem_cons_self
    simp only [List.length_cons] at hle hl hrest ⊢
    omega

/-- Reading undoes writing, whatever stands behind the frame. -/
theorem nextFrame_put {w : Written} (h : w.Fits) (tail : Bytes) :
    nextFrame (w.put ++ tail) = .ok (w.frame, tail) := by
  cases w with
  | ping =>
    show nextFrame (putVarint FrameType.ping ++ tail) = _
    simp [nextFrame, varint_putVarint]
  | crypto offset data =>
    obtain ⟨hoffset, hdata⟩ := h
    simp only [Written.put, putCrypto, List.append_assoc]
    rw [nextFrame_rare (by decide) (by decide)]
    simp [rareFrame, varint_putVarint hoffset, varint_putVarint hdata, take_append]
  | stream id offset fin data => exact nextFrame_putStream h.1 h.2.1 h.2.2 tail
  | maxData limit => exact nextFrame_putMaxData h tail
  | maxStreamData id limit =>
    obtain ⟨hid, hlimit⟩ := h
    simp only [Written.put, putMaxStreamData, List.append_assoc]
    rw [nextFrame_rare (by decide) (by decide)]
    simp [rareFrame, varint_putVarint hid, varint_putVarint hlimit]
  | resetStream id error finalSize =>
    obtain ⟨hid, herror, hsize⟩ := h
    simp only [Written.put, putResetStream, List.append_assoc]
    rw [nextFrame_rare (by decide) (by decide)]
    simp [rareFrame, varint_putVarint hid, varint_putVarint herror, varint_putVarint hsize]
  | retireConnectionId seq =>
    simp only [Written.put, putRetireConnectionId, List.append_assoc]
    rw [nextFrame_rare (by decide) (by decide)]
    simp [rareFrame, varint_putVarint (show seq < 2 ^ 62 from h)]
  | pathResponse data =>
    simp only [Written.put, putPathResponse, List.append_assoc]
    rw [nextFrame_rare (by decide) (by decide)]
    simp [rareFrame, take_append (show data.length = 8 from h)]
  | close error reason =>
    obtain ⟨herror, hreason⟩ := h
    simp only [Written.put, putClose, List.append_assoc]
    rw [nextFrame_rare (by decide) (by decide)]
    simp [rareFrame, varint_putVarint herror, varint_putVarint hreason, take_append]
  | transportClose error =>
    simp only [Written.put, putTransportClose, List.append_assoc]
    rw [nextFrame_rare (by decide) (by decide)]
    have hnone : take 0 tail = .ok ([], tail) := rfl
    simp [rareFrame, varint_putVarint (show error < 2 ^ 62 from h), varint_putVarint, hnone]
  | ack ranges delay =>
    obtain ⟨hne, hs, hlt, hdelay⟩ := h
    have hlen := length_le_of_spaced hs hlt
    cases ranges with
    | nil => exact absurd rfl hne
    | cons r rest =>
      have hack := nextFrame_putAck delay (fun r hr => ⟨hs.ordered r hr, hlt r hr⟩)
        (Nat.lt_of_succ_le hlen) tail
      rw [Nat.mod_eq_of_lt hdelay] at hack
      simpa only [Written.put, putAck, Option.getD_some, List.append_assoc, List.length_cons,
        Nat.add_sub_cancel, Written.frame] using hack

theorem put_ne_nil {w : Written} (h : w.Fits) : w.put ≠ [] := by
  intro hnil
  have hread := nextFrame_put h []
  rw [hnil] at hread
  cases hread

theorem dropWhile_replicate (n : Nat) : (List.replicate n (0 : UInt8)).dropWhile (· == 0) = [] := by
  induction n with
  | zero => rfl
  | succ n ih => exact ih

/-- A run of zero bytes at the end is one frame. -/
theorem walk_padding {n : Nat} : ∀ {fuel : Nat}, n ≤ fuel →
    walk fuel (List.replicate n 0) = if n = 0 then [] else [.ok .padding] := by
  intro fuel hfuel
  cases n with
  | zero => cases fuel <;> rfl
  | succ n =>
    cases fuel with
    | zero => exact absurd hfuel (Nat.not_succ_le_zero n)
    | succ fuel =>
      have hread : nextFrame (0 :: List.replicate n 0) = .ok (.padding, []) := by
        show nextFrame (putVarint FrameType.padding ++ List.replicate n 0) = _
        simp only [nextFrame, bind, Except.bind,
          varint_putVarint (show FrameType.padding < 2 ^ 62 by decide), if_pos, dropWhile_replicate]
      rw [List.replicate_succ, walk, hread]
      · cases fuel <;> rfl
      · exact List.cons_ne_nil _ _

/-- The frames one after another, and then the padding. -/
theorem walk_put {n : Nat} : ∀ {ws : List Written} {fuel : Nat}, (∀ w ∈ ws, w.Fits) →
    (ws.flatMap Written.put ++ List.replicate n 0).length ≤ fuel →
    walk fuel (ws.flatMap Written.put ++ List.replicate n 0) =
      ws.map (fun w => .ok w.frame) ++ if n = 0 then [] else [.ok .padding]
  | [], fuel, _, hfuel => by
    rw [List.flatMap_nil, List.nil_append, List.length_replicate] at hfuel
    exact walk_padding hfuel
  | w :: ws, fuel, h, hfuel => by
    have hw := h w List.mem_cons_self
    have hread := nextFrame_put hw (ws.flatMap Written.put ++ List.replicate n 0)
    have hpos := List.length_pos_of_ne_nil (put_ne_nil hw)
    rw [List.flatMap_cons, List.append_assoc, List.length_append] at hfuel
    rw [List.flatMap_cons, List.append_assoc]
    cases fuel with
    | zero => omega
    | succ fuel =>
      have ih := walk_put (fun v hv => h v (List.mem_cons_of_mem _ hv))
        (show (ws.flatMap Written.put ++ List.replicate n 0).length ≤ fuel by omega)
      cases hput : w.put with
      | nil => exact absurd hput (put_ne_nil hw)
      | cons b bytes =>
        rw [hput] at hread
        rw [List.cons_append, walk, ← List.cons_append, hread]
        · exact congrArg (Except.ok w.frame :: ·) ih
        · exact List.cons_ne_nil _ _

end Iter

/-- The ranges an ACK was written from are those `AckRanges` yields of it. -/
theorem Written.acks_frame {w : Written} (h : w.Fits) : w.frame.acks = w.ranges := by
  cases w with
  | ack ranges delay =>
    obtain ⟨hne, hs, hlt, _⟩ := h
    cases ranges with
    | nil => exact absurd rfl hne
    | cons r rest =>
      obtain ⟨smallest, largest⟩ := r
      obtain ⟨hle, hbelow, hs'⟩ := spaced_cons.mp hs
      have hl := hlt (smallest, largest) List.mem_cons_self
      show ackRanges largest (largest - smallest) (putAckRest smallest rest) = _
      rw [ackRanges, if_neg (by omega), Nat.sub_sub_self hle,
        ackRangesFrom_putAckRest _ _ _ (by omega) hs' hbelow (Nat.le_refl _)]
      rfl
  | _ => rfl

/-- **Frame decoding undoes encoding.** Any frames the encoders wrote one after another, with
any padding behind them, are read as exactly those frames in that order, then one `Padding` if
there was any, and no error; an ACK yields the ranges it was written from. -/
theorem frames_of_written (ws : List Written) (h : ∀ w ∈ ws, w.Fits) (padding : Nat) :
    frames (ws.flatMap Written.put ++ List.replicate padding 0) =
        ws.map (fun w => .ok w.frame) ++ (if padding = 0 then [] else [.ok .padding]) ∧
      ∀ w ∈ ws, w.frame.acks = w.ranges :=
  ⟨Iter.walk_put h (Nat.le_refl _), fun w hw => Written.acks_frame (h w hw)⟩

/-- An ACK, a STREAM frame with its FIN and three bytes of padding. -/
theorem frames_of_written_packet :
    frames ([.ack [(7, 7), (3, 5)] 9, .stream 4 0 true [104, 105]].flatMap Written.put ++
        List.replicate 3 0) =
      [.ok (.ack 7 9 0 [0, 2] 1), .ok (.stream 4 0 true [104, 105]), .ok .padding] :=
  (frames_of_written [.ack [(7, 7), (3, 5)] 9, .stream 4 0 true [104, 105]]
    (by
      intro w hw
      rcases List.mem_cons.mp hw with rfl | hw
      · exact ⟨by decide, ⟨by decide, by decide⟩, by decide, by decide⟩
      · rcases List.mem_cons.mp hw with rfl | hw
        · exact ⟨by decide, by decide, by decide⟩
        · exact absurd hw List.not_mem_nil) 3).1

end Shb.Quic
