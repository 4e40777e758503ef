import Shb.Quic.Packet

/-!
# `quic/transport.rs` — transport parameters

What the peer will let us do, as it says in its first flight. A parameter it leaves out has
the default of the specification; one the client does not know is stepped over.
-/

namespace Shb.Quic

/-- How many of the peer's connection ids are held at once. -/
def activeConnectionIdLimit : Nat := 2

structure Params where
  maxIdleTimeoutMs : Nat := 0
  maxUdpPayloadSize : Nat := 65527
  initialMaxData : Nat := 0
  /-- Applies to bidirectional streams we open. -/
  initialMaxStreamDataBidiRemote : Nat := 0
  initialMaxStreamDataBidiLocal : Nat := 0
  initialMaxStreamDataUni : Nat := 0
  initialMaxStreamsBidi : Nat := 0
  initialMaxStreamsUni : Nat := 0
  ackDelayExponent : Nat := 3
  maxAckDelayMs : Nat := 25
  activeConnectionIdLimit : Nat := 2
  initialSourceConnectionId : Option ConnectionId := none
  originalDestinationConnectionId : Option ConnectionId := none
  retrySourceConnectionId : Option ConnectionId := none
  /-- Sixteen bytes. -/
  statelessResetToken : Option Bytes := none
  deriving DecidableEq, Repr

inductive ParamsError where
  | truncatedId
  | truncatedLength
  | pastTheEnd
  | notVarint (id : Nat)
  | trailingBytes (id : Nat)
  | ackDelayExponent
  | maxAckDelay (ms : Nat)
  | activeConnectionIdLimit
  /-- The name of the parameter. -/
  | cidTooLong (name : String)
  | resetToken
  deriving DecidableEq, Repr

namespace Params

/-- A varint-valued parameter: the varint is the whole value. -/
def int (id : Nat) (value : Bytes) : Except ParamsError Nat :=
  match getVarint value with
  | none => .error (.notVarint id)
  | some (v, n) => if n ≠ value.length then .error (.trailingBytes id) else .ok v

/-- A connection id parameter. -/
def cid (name : String) (value : Bytes) : Except ParamsError ConnectionId :=
  match ConnectionId.new value with
  | none => .error (.cidTooLong name)
  | some cid => .ok cid

/-- One parameter of `decode`. -/
def put (p : Params) (id : Nat) (value : Bytes) : Except ParamsError Params :=
  match id with
  | 0x00 => (cid "original_destination_connection_id" value).map fun c =>
    { p with originalDestinationConnectionId := some c }
  | 0x01 => (int id value).map fun v => { p with maxIdleTimeoutMs := v }
  | 0x02 =>
    if value.length = 16 then .ok { p with statelessResetToken := some value }
    else .error .resetToken
  | 0x03 => (int id value).map fun v => { p with maxUdpPayloadSize := v }
  | 0x04 => (int id value).map fun v => { p with initialMaxData := v }
  | 0x05 => (int id value).map fun v => { p with initialMaxStreamDataBidiLocal := v }
  | 0x06 => (int id value).map fun v => { p with initialMaxStreamDataBidiRemote := v }
  | 0x07 => (int id value).map fun v => { p with initialMaxStreamDataUni := v }
  | 0x08 => (int id value).map fun v => { p with initialMaxStreamsBidi := v }
  | 0x09 => (int id value).map fun v => { p with initialMaxStreamsUni := v }
  | 0x0a => do
    let v ← int id value
    if 20 < v then .error .ackDelayExponent else .ok { p with ackDelayExponent := v }
  | 0x0b => do
    let v ← int id value
    if 2 ^ 14 ≤ v then .error (.maxAckDelay v) else .ok { p with maxAckDelayMs := v }
  | 0x0e => do
    let v ← int id value
    if v < 2 then .error .activeConnectionIdLimit else .ok { p with activeConnectionIdLimit := v }
  | 0x0f => (cid "initial_source_connection_id" value).map fun c =>
    { p with initialSourceConnectionId := some c }
  | 0x10 => (cid "retry_source_connection_id" value).map fun c =>
    { p with retrySourceConnectionId := some c }
  | _ => .ok p

/-- The loop of `decode`. A parameter takes at least two bytes, so the length is enough fuel. -/
def decodeLoop : Nat → Params → Bytes → Except ParamsError Params
  | 0, p, _ => .ok p
  | _ + 1, p, [] => .ok p
  | fuel + 1, p, buf =>
    match getVarint buf with
    | none => .error .truncatedId
    | some (id, n) =>
      match getVarint (buf.drop n) with
      | none => .error .truncatedLength
      | some (len, m) =>
        let buf := buf.drop (n + m)
        if buf.length < len then .error .pastTheEnd
        else
          match p.put id (buf.take len) with
          | .error e => .error e
          | .ok p => decodeLoop fuel p (buf.drop len)

def decode (buf : Bytes) : Except ParamsError Params := decodeLoop buf.length {} buf

end Params

end Shb.Quic
