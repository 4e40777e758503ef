import Shb.Quic.Ack
import Shb.Quic.Frame
import Shb.Quic.Recovery
import Shb.Quic.RecvStream
import Shb.Quic.SendStream
import Shb.Quic.Transport

/-!
# `quic/conn.rs` — the state of a client connection

Three things are not the repository's own and are described rather than computed:

* **TLS** is rustls'. `Tls` is the script of its answers, call by call; a property of every
  connection is one of every script.
* **Packet protection** is perfect: a packet carries the key it was sealed with and opens
  under that key and its own number, and under nothing else (`Packet`).
* **Time** is whatever instant the caller names, in nanoseconds.

Buffers kept only to be reused (`spare_bufs`, `spare_frames`, `ack_ranges`, `acked`) are left
out. One field is added: `log` is a history of what passed between the two ends, newest
first. Nothing reads it; the statements about a connection are about it.
-/

namespace Shb.Quic

/-! ## Stream ids -/

inductive Dir where
  | bi
  | uni
  deriving DecidableEq, Repr

def streamDir (id : Nat) : Dir := if id / 2 % 2 = 0 then .bi else .uni

def isClientInitiated (id : Nat) : Bool := id % 2 = 0

/-- The nth stream a client opens in the given direction. -/
def clientStreamId (dir : Dir) (n : Nat) : Nat :=
  match dir with
  | .bi => n * 4
  | .uni => n * 4 + 2

/-! ## Keys, and what arrives -/

/-- Packet protection keys, by where they come from. -/
inductive Key where
  /-- Derived from the connection id the first Initial is addressed to. -/
  | initial (dcid : ConnectionId)
  | handshake
  | oneRtt (generation : Nat)
  deriving DecidableEq, Repr

/-- A protected packet on the wire. `number` is the full packet number the sender sealed it
with; `numberLen` bytes of it are sent. -/
structure Packet where
  space : Space
  /-- The source connection id of a long header. -/
  scid : ConnectionId
  number : Nat
  numberLen : Nat
  /-- The key phase bit of a short header. -/
  phase : Bool
  key : Key
  payload : Bytes
  deriving DecidableEq, Repr

/-- What `decode_header` makes of the next packet of a datagram. -/
inductive Incoming where
  /-- A header that cannot be read. -/
  | malformed
  | versionNegotiation (dcid scid : ConnectionId) (versions : List Nat)
  /-- `tag` is the connection id the integrity tag was computed over, if it was. -/
  | retry (dcid scid : ConnectionId) (token : Bytes) (tag : Option ConnectionId)
  | packet (p : Packet)
  deriving DecidableEq, Repr

/-- A datagram: its packets, and its last sixteen bytes if it could be a stateless reset. -/
structure Datagram where
  packets : List Incoming
  tail : Option Bytes := none
  deriving DecidableEq, Repr

/-! ## TLS -/

inductive KeyChange where
  | handshake
  /-- The 1-RTT keys, and the peer's transport parameters as rustls holds them by then. -/
  | oneRtt (params : Option Bytes)
  deriving DecidableEq, Repr

/-- One answer of `write_hs`. -/
structure TlsWrite where
  data : Bytes
  change : Option KeyChange := none
  deriving DecidableEq, Repr

/-- One answer of `read_hs`; a failure may name an alert. -/
inductive TlsRead where
  | accepted
  | failed (alert : Option Nat)
  deriving DecidableEq, Repr

/-- What rustls will answer. At the end of a list it has nothing more to write, and accepts
whatever it reads. -/
structure Tls where
  writes : List TlsWrite := []
  reads : List TlsRead := []
  deriving DecidableEq, Repr

/-! ## Errors and events -/

inductive Fault where
  /-- Told apart from the rest by `handle_datagram`, which closes with its code. -/
  | recv (e : RecvError)
  | frame (e : FrameError)
  | params (e : ParamsError)
  | noParams
  | initialScid
  | originalDcid
  | retryScid
  | emptyCid
  | cidTooLong
  | retiresItself
  | repeatedSeq (seq : Nat)
  | pathChallenge
  | unopened (id : Nat)
  | ourUni (id : Nat)
  | cannotSendOn (id : Nat)
  /-- Not an error but the end of the process: an index out of bounds. -/
  | panicked
  deriving DecidableEq, Repr

/-- Why a connection is over. -/
inductive Loss where
  | closedByPeer (app : Bool) (error : Nat) (reason : Bytes)
  | closedLocally
  | transport (e : RecvError)
  | tls
  | statelessReset
  | version
  | idle
  | handshakeTimeout
  deriving DecidableEq, Repr

inductive Event where
  /-- The handshake finished and 1-RTT keys are in use. -/
  | connected
  /-- A stream has data to read. -/
  | readable (id : Nat)
  /-- The peer opened a unidirectional stream. -/
  | opened (id : Nat)
  /-- A stream ended: by FIN, or by a RESET_STREAM with this error code. -/
  | finished (id : Nat) (reset : Option Nat)
  /-- The peer wants nothing more written to a stream we opened. -/
  | stopped (id : Nat)
  | lost (why : Loss)
  deriving DecidableEq, Repr

/-! ## The connection -/

/-- One packet number space's keys, numbers and record of what is in flight. -/
structure SpaceState where
  keys : Option Key := none
  nextPacketNumber : Nat := 0
  largestReceived : Option Nat := none
  received : ReceivedPackets := {}
  ack : AckState := {}
  sent : SentPackets := {}
  /-- Next time-threshold loss in this space. -/
  lossDeadline : Option Nat := none
  /-- Handshake bytes; a position in it is the CRYPTO stream offset it goes out at. -/
  cryptoOut : Bytes := []
  /-- How much of `cryptoOut` has been put in a packet at least once. -/
  cryptoSent : Nat := 0
  /-- Incoming handshake bytes, reassembled. CRYPTO has no stream flow control. -/
  cryptoIn : RecvStream := .new (2 ^ 64 - 1)
  deriving DecidableEq, Repr

/-- What a CONNECTION_CLOSE still to be sent will say. -/
structure Close where
  code : Nat
  reason : Bytes
  app : Bool
  deriving DecidableEq, Repr

structure StreamPair where
  send : SendStream
  recv : RecvStream
  /-- Reported to the worker already. -/
  finished : Bool := false
  /-- The worker is done with it. -/
  retired : Bool := false
  /-- Already in `sendQueue`. -/
  queued : Bool := false
  deriving DecidableEq, Repr

/-- A connection id the peer issued, and its stateless reset token. -/
structure PeerCid where
  seq : Nat
  cid : ConnectionId
  token : Option Bytes
  deriving DecidableEq, Repr

/-- What passed between the two ends. -/
inductive Entry where
  /-- A STREAM or RESET_STREAM frame was taken without error; it names this end. -/
  | arrived (id stop : Nat)
  /-- A frame was put in a packet. -/
  | wrote (f : SentFrame)
  /-- The peer allows this much on the connection. -/
  | granted (limit : Nat)
  /-- The peer allows this much on a stream. -/
  | grantedStream (id limit : Nat)
  deriving DecidableEq, Repr

structure Connection where
  tls : Tls
  spaces : Spaces SpaceState
  /-- The generation of the 1-RTT keys in use, each way. -/
  oneRttLocal : Option Nat
  oneRttRemote : Option Nat
  /-- The generation the secrets yield next. -/
  secrets : Option Nat
  /-- The generation after the one in use, ready for when the peer flips. -/
  next1rtt : Option Nat
  /-- The generation before the one in use, for packets that arrive late. -/
  prev1rttRemote : Option Nat
  keyPhase : Bool
  originalDcid : ConnectionId
  retryToken : Bytes
  retried : Bool
  retryScid : Option ConnectionId
  serverInitialSeen : Bool
  /-- The first packet number seen under the current generation. -/
  rotateAt : Nat
  localCid : ConnectionId
  /-- Where to address packets. -/
  peerCid : ConnectionId
  peerCidSeq : Nat
  peerCids : List PeerCid
  retirePriorTo : Nat
  retirePending : List Nat
  /-- RESET_STREAM frames still to send: stream, error, final size. -/
  resetPending : List (Nat × Nat × Nat)
  /-- Streams owed a MAX_STREAM_DATA. -/
  creditPending : List Nat
  maxDataOwed : Bool
  /-- How far ahead of what has been read a stream's limit is kept. -/
  streamWindow : Nat
  params : Params
  localIdleMs : Nat
  handshakeTimeoutMs : Nat
  sentSinceRecv : Bool
  nextKeepalive : Option Nat
  keepalivePending : Bool
  /-- Request streams whose response has not ended. -/
  unanswered : Nat
  handshakeDone : Bool
  handshakeAcked : Bool
  connected : Bool
  closed : Option Loss
  closePending : Option Close
  maxDataLocal : Nat
  maxDataWindow : Nat
  dataReceived : Nat
  maxDataPeer : Nat
  dataSent : Nat
  maxStreamsBidi : Nat
  nextBidi : Nat
  nextUni : Nat
  /-- Client-initiated bidirectional streams, indexed by number from `baseStream`. -/
  streams : List (Option StreamPair)
  sendQueue : List Nat
  baseStream : Nat
  maxPeerUni : Nat
  peerUni : List (Nat × RecvStream)
  localUni : List (Nat × SendStream)
  rtt : Rtt
  rttSampledAt : Option Nat
  congestion : Congestion
  ptoCount : Nat
  ptoProbes : Nat
  ptoSpace : Space
  idleDeadline : Option Nat
  events : List Event
  needsSend : Bool
  pathResponse : Option Bytes
  /-- What has passed between the two ends, newest first. Not in the source. -/
  log : List Entry
  deriving DecidableEq, Repr

/-- What the caller wants from its side of the connection. -/
structure LocalParamsInput where
  initialMaxData : Nat
  initialMaxStreamData : Nat
  initialMaxStreamsUni : Nat
  maxIdleTimeoutMs : Nat
  handshakeTimeoutMs : Nat
  deriving DecidableEq, Repr

namespace Connection

/-- `connect`, with the two random connection ids and the TLS session as arguments. -/
def connect (input : LocalParamsInput) (localCid initialDcid : ConnectionId) (tls : Tls) :
    Connection where
  tls := tls
  spaces := { initial := { keys := some (.initial initialDcid) }, handshake := {}, data := {} }
  oneRttLocal := none
  oneRttRemote := none
  secrets := none
  next1rtt := none
  prev1rttRemote := none
  keyPhase := false
  originalDcid := initialDcid
  retryToken := []
  retried := false
  retryScid := none
  serverInitialSeen := false
  rotateAt := 0
  localCid := localCid
  peerCid := initialDcid
  peerCidSeq := 0
  peerCids := []
  retirePriorTo := 0
  retirePending := []
  resetPending := []
  creditPending := []
  maxDataOwed := false
  streamWindow := input.initialMaxStreamData
  params := {}
  localIdleMs := input.maxIdleTimeoutMs
  handshakeTimeoutMs := input.handshakeTimeoutMs
  sentSinceRecv := false
  nextKeepalive := none
  keepalivePending := false
  unanswered := 0
  handshakeDone := false
  handshakeAcked := false
  connected := false
  closed := none
  closePending := none
  maxDataLocal := input.initialMaxData
  maxDataWindow := input.initialMaxData
  dataReceived := 0
  maxDataPeer := 0
  dataSent := 0
  maxStreamsBidi := 0
  nextBidi := 0
  nextUni := 0
  streams := []
  sendQueue := []
  baseStream := 0
  maxPeerUni := input.initialMaxStreamsUni
  peerUni := []
  localUni := []
  rtt := {}
  rttSampledAt := none
  congestion := {}
  ptoCount := 0
  ptoProbes := 0
  ptoSpace := .initial
  idleDeadline := none
  events := []
  needsSend := true
  pathResponse := none
  log := []

variable (c : Connection)

def space (sp : Space) : SpaceState := c.spaces.get sp

def modifySpace (sp : Space) (f : SpaceState → SpaceState) : Connection :=
  { c with spaces := c.spaces.modify sp f }

def note (e : Entry) : Connection := { c with log := e :: c.log }

/-- Something needs sending that is not stream data. -/
def wake : Connection := { c with needsSend := true }

def pushEvent (e : Event) : Connection := { c with events := c.events ++ [e] }

/-- Drop everything belonging to a packet number space. -/
def discardSpace (sp : Space) : Connection :=
  let c := c.modifySpace sp fun s =>
    { nextPacketNumber := s.nextPacketNumber, largestReceived := s.largestReceived }
  { c with ptoCount := 0, ptoProbes := 0 }

def probing : Bool := 0 < c.ptoProbes

def pollEvent : Option Event × Connection :=
  match c.events with
  | [] => (none, c)
  | e :: events => (some e, { c with events := events })

def lose (why : Loss) : Connection :=
  if c.closed.isNone then { c with closed := some why }.pushEvent (.lost why) else c

/-- `close`: ask for a CONNECTION_CLOSE on the next packet. -/
def close (code : Nat) (reason : Bytes) : Connection :=
  if c.closed.isNone then
    { c with
      closePending := some { code := code, reason := reason, app := true }
      closed := some .closedLocally }
  else c

/-- End the connection over a transport error of the peer's. -/
def closeTransport (code : Nat) (why : Loss) : Connection :=
  if c.closed.isNone then
    { c with closePending := some { code := code, reason := [], app := false } }.lose why
  else c

end Connection

end Shb.Quic
