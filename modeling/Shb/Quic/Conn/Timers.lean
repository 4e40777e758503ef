import Shb.Quic.Conn.Receive

/-!
# `quic/conn.rs` — timers
-/

namespace Shb.Quic
namespace Connection

/-- The smaller of two optional instants. -/
def earlier (a b : Option Nat) : Option Nat :=
  match a, b with
  | some a, some b => some (min a b)
  | some a, none => some a
  | none, b => b

def lossDeadline (c : Connection) : Option Nat :=
  earlier (earlier (c.space .initial).lossDeadline (c.space .handshake).lossDeadline)
    (c.space .data).lossDeadline

variable (c : Connection)

/-- When a PING is owed: only while a response is outstanding, and only once there is a
connection. -/
def keepaliveDeadline : Option Nat :=
  if !c.connected || c.unanswered = 0 then none else c.nextKeepalive

/-- Where to probe when nothing is in flight, while that still has to be done. -/
def ptoFallback : Option Space :=
  if c.handshakeDone || c.handshakeAcked then none
  else if (c.space .handshake).keys.isSome then some .handshake
  else some .initial

def ptoDue : Option (Space × Nat) :=
  ptoDeadline
    { initial := (c.space .initial).sent, handshake := (c.space .handshake).sent,
      data := (c.space .data).sent }
    c.rtt (millis c.params.maxAckDelayMs) c.ptoCount c.ptoFallback

def pollTimeout : Option Nat :=
  if c.closed.isSome then none
  else
    -- pending time-threshold loss suppresses the probe
    let recovery := match c.lossDeadline with
      | some at_ => some at_
      | none => c.ptoDue.map (·.2)
    earlier (earlier recovery c.idleDeadline) c.keepaliveDeadline

/-- The loss check of every space. -/
def detectLostAll (now lossDelay : Nat) : Connection :=
  let c := (c.detectLost .initial now lossDelay).2
  let c := (c.detectLost .handshake now lossDelay).2
  (c.detectLost .data now lossDelay).2

/-- A probe timeout: the handshake bytes go again, and two probes are owed. -/
def startProbe (sp : Space) : Connection :=
  { c.modifySpace sp fun s => { s with cryptoSent := 0 } with
    ptoCount := c.ptoCount + 1
    ptoProbes := 2
    ptoSpace := sp
    needsSend := true }

def handleTimeout (now : Nat) : Connection :=
  if c.idleDeadline.any (· ≤ now) then
    { c with idleDeadline := none }.lose (if c.connected then .idle else .handshakeTimeout)
  else if c.keepaliveDeadline.any (· ≤ now) then
    { c with
      keepalivePending := true
      nextKeepalive := c.idleTimeout.map (now + · / 2)
      needsSend := true }
  else
    match c.lossDeadline with
    | some at_ =>
      if now < at_ then c else (c.detectLostAll now c.rtt.lossDelay).wake
    | none =>
      match c.ptoDue with
      | some (sp, at_) => if at_ ≤ now then c.startProbe sp else c
      | none => c

end Connection
end Shb.Quic
