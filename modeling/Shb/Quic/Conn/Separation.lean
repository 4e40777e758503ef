import Shb.Quic.Conn.AckInvariant
import Shb.Quic.Conn.KeyUpdate

/-!
# What Initial and Handshake packets touch

Anyone who sees a client's first packet can make the Initial keys, so what an Initial packet
can change matters. `App` is the part of a connection that belongs to the application:
streams, limits, the peer's connection ids, a path challenge to answer and whether the handshake
is confirmed. `handle_frame` has no check of the space a frame came in, so whether a packet
leaves `App` alone is a matter of its frames. `Inert` says for each kind of frame when it has
nothing to change.
-/

namespace Shb.Quic

open Lib Accounts Accounts.Act

/-- What only 1-RTT packets should change. -/
structure App where
  streams : List (Option StreamPair)
  localUni : List (Nat × SendStream)
  peerUni : List (Nat × RecvStream)
  maxDataPeer : Nat
  maxDataLocal : Nat
  maxStreamsBidi : Nat
  peerCids : List PeerCid
  retirePending : List Nat
  pathResponse : Option Bytes
  handshakeDone : Bool
  deriving DecidableEq

/-- What the transport parameters make of the application's state. -/
def App.taking (a : App) (params : Params) : App :=
  { a with
    maxDataPeer := params.initialMaxData
    maxStreamsBidi := params.initialMaxStreamsBidi
    peerCids := Connection.setFirstToken params.statelessResetToken a.peerCids }

/-! ## What a receive half has already -/

namespace RecvStream

/-- A STREAM frame is within the limits and agrees with the end of the stream. -/
def Fits (s : RecvStream) (offset len : Nat) (fin : Bool) (credit : Nat) : Prop :=
  offset + len < 2 ^ 62 ∧ (s.checkEnd (offset + len) fin credit).toBool = true

/-- Nothing of a STREAM frame is new: an end it names is known, and it goes no further than what
came before. Its data is there, and no early frame waits to join it; behind a gap it has none. -/
def Knows (s : RecvStream) (offset : Nat) (data : Bytes) (fin : Bool) : Prop :=
  (fin = true → s.finalSize = some (offset + data.length)) ∧ offset + data.length ≤ s.received ∧
    if offset ≤ s.readOffset + s.ready.length then
      offset + data.length ≤ s.readOffset + s.ready.length ∧
        ∀ early ∈ s.pending.head?, s.readOffset + s.ready.length < early.1
    else data = []

theorem drain_length (readOffset : Nat) : ∀ (ps : List (Nat × Bytes)) (ready : Bytes),
    (drain readOffset ready ps).2.length ≤ ps.length
  | [], _ => Nat.le_refl _
  | p :: ps, ready => by
    simp only [drain]
    split
    · exact Nat.le_refl _
    · exact Nat.le_succ_of_le (drain_length readOffset ps _)

/-- Draining takes nothing exactly if the first early frame is past a gap. -/
theorem drain_eq_self {readOffset : Nat} {ready ready' : Bytes} {ps : List (Nat × Bytes)} :
    (drain readOffset ready' ps).1 = ready ∧ (drain readOffset ready' ps).2 = ps ↔
      ready' = ready ∧ ∀ early ∈ ps.head?, readOffset + ready.length < early.1 := by
  cases ps with
  | nil => simp [drain]
  | cons p ps =>
    simp only [drain, List.head?_cons, Option.mem_some_iff, forall_eq']
    split
    · rename_i hgap
      refine ⟨fun h => ⟨h.1, h.1 ▸ hgap⟩, fun h => ⟨h.1, rfl⟩⟩
    · rename_i hgap
      constructor
      · rintro ⟨-, heq⟩
        have hlen := drain_length readOffset ps
          (if readOffset + ready'.length - p.1 < p.2.length then
            ready' ++ p.2.drop (readOffset + ready'.length - p.1) else ready')
        rw [heq, List.length_cons] at hlen
        exact absurd hlen (Nat.not_succ_le_self _)
      · rintro ⟨rfl, h⟩
        exact absurd h hgap

theorem mk_eq_self {s : RecvStream} {ready : Bytes} {pending : List (Nat × Bytes)}
    {finalSize : Option Nat} {received : Nat} :
    { s with ready, pending, finalSize, received } = s ↔
      finalSize = s.finalSize ∧ received = s.received ∧ ready = s.ready ∧ pending = s.pending := by
  cases s
  simp only [RecvStream.mk.injEq, true_and, and_true]
  tauto

theorem place_eq_self {s : RecvStream} {finalSize : Option Nat} {received offset : Nat}
    {data : Bytes} :
    { s with finalSize, received }.place offset data = s ↔
      finalSize = s.finalSize ∧ received = s.received ∧
        if offset ≤ s.readOffset + s.ready.length then
          offset + data.length ≤ s.readOffset + s.ready.length ∧
            ∀ early ∈ s.pending.head?, s.readOffset + s.ready.length < early.1
        else data = [] := by
  simp only [place, drainPending]
  split
  · -- no gap before the frame: what it adds is what lies beyond `ready`
    rw [mk_eq_self, drain_eq_self]
    refine and_congr_right' (and_congr_right' (and_congr_left' ?_))
    split
    · rw [List.append_right_eq_self, List.drop_eq_nil_iff]
      omega
    · rw [eq_self, true_iff]
      omega
  · split
    · -- early data is kept whether or not it is there already
      rename_i hdata
      rw [mk_eq_self]
      simp only [hdata, and_false, iff_false]
      rintro ⟨-, -, -, hpending⟩
      have hlen := congrArg List.length hpending
      simp [sortPending] at hlen
    · rename_i hdata
      rw [mk_eq_self]
      simp [not_not.mp hdata]

/-- What a receive half makes of a frame: it refuses it, or takes it and is as it was if `same`. -/
def Receives (takes same : Prop) (r : RecvStream)
    (out : Except RecvError Nat × RecvStream) : Prop :=
  (¬takes ∧ ∃ e, out = (.error e, r)) ∨ takes ∧ ∃ new r', out = (.ok new, r') ∧ (r' = r ↔ same)

theorem push_receives (offset : Nat) (data : Bytes) (fin : Bool) (credit : Nat) (r : RecvStream) :
    Receives (r.Fits offset data.length fin credit) (r.Knows offset data fin) r
      (r.pushWithCredit offset data fin credit) := by
  unfold pushWithCredit Fits
  by_cases hbig : 2 ^ 62 ≤ offset + data.length
  · exact Or.inl ⟨fun h => absurd h.1 (Nat.not_lt.mpr hbig), _, if_pos hbig⟩
  · rw [if_neg hbig]
    cases hcheck : r.checkEnd (offset + data.length) fin credit with
    | error e => exact Or.inl ⟨fun h => (nomatch h.2), e, rfl⟩
    | ok new =>
      refine Or.inr ⟨⟨Nat.not_le.mp hbig, rfl⟩, new, _, rfl, ?_⟩
      have hfin : (if fin then some (offset + data.length) else r.finalSize) = r.finalSize ↔
          (fin = true → r.finalSize = some (offset + data.length)) := by
        cases fin <;> simp [eq_comm]
      have hmax : max r.received (offset + data.length) = r.received ↔
          offset + data.length ≤ r.received := by omega
      rw [Knows, ← hfin, ← hmax, ← place_eq_self]
      cases fin <;> rfl

theorem reset_receives (finalSize credit : Nat) (r : RecvStream) :
    Receives ((r.checkEnd finalSize true credit).toBool = true)
      (r.finalSize = some finalSize ∧ r.received = finalSize) r (r.reset finalSize credit) := by
  unfold reset
  cases r.checkEnd finalSize true credit with
  | error e => exact Or.inl ⟨fun h => (nomatch h), e, rfl⟩
  | ok new =>
    refine Or.inr ⟨rfl, new, _, rfl, mk_eq_self.trans ?_⟩
    simp only [and_true, eq_comm]

end RecvStream

theorem pair_eq_self {pair : StreamPair} {recv : RecvStream} {finished : Bool} :
    { pair with recv := recv, finished := finished } = pair ↔
      recv = pair.recv ∧ finished = pair.finished := by
  cases pair
  simp

namespace Connection

variable (c : Connection)

def app : App where
  streams := c.streams
  localUni := c.localUni
  peerUni := c.peerUni
  maxDataPeer := c.maxDataPeer
  maxDataLocal := c.maxDataLocal
  maxStreamsBidi := c.maxStreamsBidi
  peerCids := c.peerCids
  retirePending := c.retirePending
  pathResponse := c.pathResponse
  handshakeDone := c.handshakeDone

variable (sp : Space)

@[simp] theorem app_modifySpace (f : SpaceState → SpaceState) :
    (c.modifySpace sp f).app = c.app := rfl

@[simp] theorem app_note (e : Entry) : (c.note e).app = c.app := rfl

@[simp] theorem app_wake : c.wake.app = c.app := rfl

@[simp] theorem app_pushEvent (e : Event) : (c.pushEvent e).app = c.app := rfl

@[simp] theorem app_takeOneRtt : c.takeOneRtt.app = c.app := rfl

@[simp] theorem app_countReceived (new : Nat) : (c.countReceived new).app = c.app := rfl

@[simp] theorem app_countAnswered : c.countAnswered.app = c.app := rfl

@[simp] theorem app_queueReset (id error finalSize : Nat) :
    (c.queueReset id error finalSize).app = c.app := rfl

@[simp] theorem app_recordPacket (pn : Nat) (eliciting : Bool)
    (now : Nat) : (c.recordPacket sp pn eliciting now).app = c.app := rfl

@[simp] theorem app_lose (why : Loss) : (c.lose why).app = c.app := by
  unfold lose
  split <;> rfl

@[simp] theorem app_closeTransport (code : Nat) (why : Loss) :
    (c.closeTransport code why).app = c.app := by
  unfold closeTransport
  split
  · rw [app_lose]
    rfl
  · rfl

@[simp] theorem app_readHs : c.readHs.2.app = c.app := by
  unfold readHs
  split <;> rfl

@[simp] theorem app_report (id : Nat) (readable done : Bool) :
    (c.report id readable done).app = c.app := by
  obtain ⟨_, _, h⟩ := c.report_eq id readable done
  rw [h]
  rfl

/-! ## Changing one stream -/

variable {i id : Nat} {pair : StreamPair}

theorem app_modifyPair {c : Connection} {f : StreamPair → StreamPair} :
    (c.modifyPair i f).app = c.app ↔ ∀ pair, c.pairAt i = some pair → f pair = pair := by
  simp only [app, modifyPair, App.mk.injEq, and_true]
  exact modify_eq_self

theorem app_modifyPair_of {c : Connection} {f : StreamPair → StreamPair}
    (hp : c.pairAt i = some pair) : (c.modifyPair i f).app = c.app ↔ f pair = pair := by
  rw [app_modifyPair]
  constructor
  · exact fun h => h pair hp
  · intro h pair' hp'
    cases hp.symm.trans hp'
    exact h

theorem app_localUni {c : Connection} {f : SendStream → SendStream} :
    ({ c with localUni := modifyFirst id f c.localUni } : Connection).app = c.app ↔
      ∀ s, findStream id c.localUni = some s → f s = s := by
  simp only [app, App.mk.injEq, and_true, true_and]
  exact modifyFirst_eq_self

theorem app_peerUni {c : Connection} {recv recv' : RecvStream}
    (h : findStream id c.peerUni = some recv) :
    ({ c with peerUni := modifyFirst id (fun _ => recv') c.peerUni } : Connection).app = c.app ↔
      recv' = recv := by
  simp only [app, App.mk.injEq, and_true, true_and, modifyFirst_eq_self]
  constructor
  · exact fun heq => heq recv h
  · intro heq s hs
    cases h.symm.trans hs
    exact heq

theorem app_peerUni_append {c : Connection} {recv : RecvStream} :
    ({ c with peerUni := c.peerUni ++ [(id, recv)] } : Connection).app ≠ c.app := by
  simp [app]

/-! ## Frames with nothing to change -/

/-- What a frame that the receive half of a stream would take finds there already: `same` is what
it asks of the half, and it would end the stream if `ends`. A stream the worker is done with may
`skip` the frame; one that the peer has yet to open has nothing. -/
def Repeats (id : Nat) (skip : StreamPair → Bool) (takes same ends : RecvStream → Prop) : Prop :=
  match c.streamIndex id with
  | some i => ∀ pair, c.pairAt i = some pair → skip pair = false → takes pair.recv →
    same pair.recv ∧ (ends pair.recv → pair.finished = true)
  | none => isClientInitiated id = false → c.checkPeerUni id = .ok () →
    match findStream id c.peerUni with
    | some recv => takes recv → same recv
    | none => ¬takes (RecvStream.new c.streamWindow)

/-- A STREAM frame that is refused, or has nothing new. -/
def RepeatsStream (id offset : Nat) (data : Bytes) (fin : Bool) : Prop :=
  c.Repeats id StreamPair.retired
    (fun r => r.Fits offset data.length fin (c.maxDataLocal - c.dataReceived))
    (fun r => r.Knows offset data fin) (fun r => r.isFinished = true)

/-- A RESET_STREAM that repeats how a stream ended, or is refused. -/
def RepeatsReset (id finalSize : Nat) : Prop :=
  c.Repeats id (fun _ => false)
    (fun r => (r.checkEnd finalSize true (c.maxDataLocal - c.dataReceived)).toBool = true)
    (fun r => r.finalSize = some finalSize ∧ r.received = finalSize) (fun _ => True)

/-- A limit that a stream has already, and a turn in the queue. -/
def RepeatsLimit (id limit : Nat) : Prop :=
  match c.streamIndex id with
  | some i => ∀ pair, c.pairAt i = some pair → limit ≤ pair.send.limit ∧ pair.queued = true
  | none => ∀ s, findStream id c.localUni = some s → limit ≤ s.limit

/-- A connection id that is refused, known, or neither retires one nor has room. -/
def RepeatsCid (seq retirePriorTo : Nat) (cid : Bytes) : Prop :=
  cid = [] ∨ seq < retirePriorTo ∨ (c.retirePriorTo ≤ seq ∧
    ((∃ known ∈ c.peerCids, known.seq = seq) ∨
      (c.retirePriorTo < retirePriorTo → ∀ known ∈ c.peerCids, retirePriorTo ≤ known.seq) ∧
      (activeConnectionIdLimit ≤ c.peerCids.length ∨ maxCidLen < cid.length)))

/-- Whether a CRYPTO frame gives rustls something to read, which it takes. -/
def feedsTls (offset : Nat) (data : Bytes) : Bool :=
  match (c.space sp).cryptoIn.push offset data false with
  | (.error _, _) => false
  | (.ok _, recv) => !recv.ready.isEmpty && decide (c.readHs.1 = .accepted)

/-- The transport parameters in some bytes, if they can be read and agree with the handshake. -/
def offered (raw : Option Bytes) : Option Params :=
  match raw.map Params.decode with
  | some (.ok params) =>
    if ({ c with params := params } : Connection).validateServerParams.toBool then some
      params else none
  | _ => none

/-- Those rustls hands over with the 1-RTT keys the next time it is asked to write. -/
def handedOver (c : Connection) : List TlsWrite → Option Params
  | [] => none
  | w :: ws =>
    match w.change with
    | some .handshake => c.handedOver ws
    | some (.oneRtt raw) => c.offered raw
    | none => if w.data.isEmpty then none else c.handedOver ws

/-- The limits and the first reset token of the transport parameters are those in force. -/
def Agrees (params : Params) : Prop :=
  params.initialMaxData = c.maxDataPeer ∧ params.initialMaxStreamsBidi = c.maxStreamsBidi ∧
    setFirstToken params.statelessResetToken c.peerCids = c.peerCids

/-- A frame of an Initial or Handshake packet has nothing to change. -/
def Inert : Frame → Prop
  | .stream id offset fin data => c.RepeatsStream id offset data fin
  | .resetStream id _ finalSize => c.RepeatsReset id finalSize
  | .stopSending id _ => ∀ s, c.sendMut id = some s → s.wasReset = true
  | .maxData limit => limit ≤ c.maxDataPeer
  | .maxStreamData id limit => c.RepeatsLimit id limit
  | .maxStreams uni limit => uni = true ∨ limit ≤ c.maxStreamsBidi
  | .newConnectionId seq retirePriorTo cid _ => c.RepeatsCid seq retirePriorTo cid
  | .pathChallenge data => data.length = 8 → c.pathResponse = some data
  | .handshakeDone => c.handshakeDone = true
  | .crypto offset data =>
    c.feedsTls sp offset data = true → ∀ params, c.handedOver c.tls.writes = some params →
      c.Agrees params
  | _ => True

/-! ## What the handlers change -/

theorem app_onRequestStream {c : Connection} (hp : c.pairAt i = some pair) (offset : Nat)
    (data : Bytes) (fin : Bool) :
    (c.onRequestStream id i pair offset data fin).2.app = c.app ↔
      (pair.recv.Fits offset data.length fin (c.maxDataLocal - c.dataReceived) →
        pair.recv.Knows offset data fin ∧ (pair.recv.isFinished = true →
          pair.finished = true)) := by
  unfold onRequestStream
  rcases RecvStream.push_receives offset data fin (c.maxDataLocal - c.dataReceived) pair.recv with
    ⟨hno, e, he⟩ | ⟨hyes, new, r, hr, hsame⟩
  · simp [he, hno, app_modifyPair_of hp]
  · simp only [hr, hyes, forall_const, ← hsame, app_countReceived, app_report, app_modifyPair_of hp]
    rw [pair_eq_self]
    refine and_congr_right fun heq => ?_
    rw [heq]
    cases pair.finished <;> simp

theorem app_onRequestReset {c : Connection} (hp : c.pairAt i = some pair) (error finalSize : Nat) :
    (c.onRequestReset id i pair error finalSize).2.app = c.app ↔
      ((pair.recv.checkEnd finalSize true (c.maxDataLocal - c.dataReceived)).toBool = true →
        (pair.recv.finalSize = some finalSize ∧ pair.recv.received = finalSize) ∧
          pair.finished = true) := by
  have hend : ∀ d : Connection, (if pair.finished then d
      else d.countAnswered.pushEvent (.finished id (some error))).app = d.app := by
    intro d
    split <;> rfl
  unfold onRequestReset
  rcases RecvStream.reset_receives finalSize (c.maxDataLocal - c.dataReceived) pair.recv with
    ⟨hno, e, he⟩ | ⟨hyes, new, r, hr, hsame⟩
  · simp [he, hno, app_modifyPair_of hp]
  · simp only [hr, hyes, forall_const, ← hsame, hend, app_countReceived, app_modifyPair_of hp]
    exact pair_eq_self.trans (and_congr_right fun _ => eq_comm)

/-- A stream the peer opens, or would open with the frame. -/
theorem app_peerTake {takes same : RecvStream → Prop}
    {take : RecvStream → Except RecvError Nat × RecvStream}
    (htake : ∀ r, RecvStream.Receives (takes r) (same r) r (take r)) (id : Nat)
    (readable : RecvStream → Bool) :
    (c.peerTake id readable take).2.app = c.app ↔ (c.checkPeerUni id = .ok () →
      match findStream id c.peerUni with
      | some recv => takes recv → same recv
      | none => ¬takes (RecvStream.new c.streamWindow)) := by
  unfold peerTake
  cases hcheck : c.checkPeerUni id with
  | error e => simp
  | ok u =>
    simp only [forall_const]
    cases hf : findStream id c.peerUni with
    | some recv =>
      rcases htake recv with ⟨hno, e, he⟩ | ⟨hyes, new, r, hr, hsame⟩
      · simp [he, hno, app_peerUni hf]
      · simp only [hr, hyes, forall_const, ← hsame, app_countReceived, app_report]
        exact app_peerUni hf
    | none =>
      -- a frame that is taken opens the stream, which is then one more
      rcases htake (RecvStream.new c.streamWindow) with ⟨hno, e, he⟩ | ⟨hyes, new, r, hr, -⟩
      · simp [he, hno]
      · simp only [hr, hyes, app_countReceived, app_report, app_pushEvent, not_true, iff_false]
        exact app_peerUni_append

theorem app_onStream (id offset : Nat) (data : Bytes) (fin : Bool) :
    (c.onStream id offset data fin).2.app = c.app ↔ c.RepeatsStream id offset data fin := by
  unfold onStream RepeatsStream Repeats
  cases hi : c.streamIndex id with
  | some i =>
    simp only
    cases hp : c.pairAt i with
    | none => simp
    | some pair =>
      simp only [Option.some.injEq, forall_eq']
      cases hret : pair.retired with
      | true => simp
      | false =>
        rw [if_neg (by simp)]
        simp only [forall_const]
        exact app_onRequestStream hp offset data fin
  | none =>
    simp only
    cases hcl : isClientInitiated id with
    | true =>
      rw [if_pos rfl]
      simp only [Bool.true_eq_false, false_implies, iff_true]
      repeat' split
      all_goals rfl
    | false =>
      rw [if_neg (by simp), onPeerStream_eq]
      simp only [forall_const]
      exact app_peerTake c (RecvStream.push_receives offset data fin _) id _

theorem app_onReset (id error finalSize : Nat) :
    (c.onReset id error finalSize).2.app = c.app ↔ c.RepeatsReset id finalSize := by
  unfold onReset RepeatsReset Repeats
  cases hi : c.streamIndex id with
  | some i =>
    simp only
    cases hp : c.pairAt i with
    | none => simp
    | some pair =>
      simp only [Option.some.injEq, forall_eq', forall_const]
      exact app_onRequestReset hp error finalSize
  | none =>
    simp only
    cases hcl : isClientInitiated id with
    | true =>
      rw [if_pos rfl]
      simp only [Bool.true_eq_false, false_implies, iff_true]
      split <;> rfl
    | false =>
      rw [if_neg (by simp), onPeerReset_eq]
      simp only [forall_const]
      exact app_peerTake c (RecvStream.reset_receives finalSize _) id _

theorem app_modifySend {c : Connection} {f : SendStream → SendStream} :
    (c.modifySend id f).app = c.app ↔ ∀ s, c.sendMut id = some s → f s = s := by
  unfold modifySend sendMut
  cases c.streamIndex id with
  | none => exact app_localUni
  | some i =>
    simp only [app_modifyPair, Option.map_eq_some_iff]
    constructor
    · rintro h s ⟨pair, hp, rfl⟩
      exact congrArg StreamPair.send (h pair hp)
    · intro h pair hp
      rw [h pair.send ⟨pair, hp, rfl⟩]

theorem app_onStopSending (id error : Nat) :
    (c.onStopSending id error).app = c.app ↔ ∀ s, c.sendMut id = some s → s.wasReset = true := by
  unfold onStopSending
  cases hs : c.sendMut id with
  | none => simp
  | some send =>
    simp only [Option.some.injEq, forall_eq']
    cases hreset : send.wasReset with
    | true => simp
    | false =>
      simp only [Bool.false_eq_true, if_false, app_pushEvent, app_queueReset,
        app_modifySend, iff_false]
      intro h
      have hw := congrArg SendStream.wasReset (h send hs)
      rw [hreset] at hw
      cases hw

theorem setLimit_eq_self {s : SendStream} {limit : Nat} :
    s.setLimit limit = s ↔ limit ≤ s.limit := by
  cases s
  simp [SendStream.setLimit]

theorem app_queueSend {c : Connection} (hi : c.streamIndex id = none) :
    (c.queueSend id).app = c.app := by
  simp only [queueSend, hi]

theorem app_onMaxStreamData (id limit : Nat) :
    (c.onMaxStreamData id limit).app = c.app ↔ c.RepeatsLimit id limit := by
  unfold onMaxStreamData RepeatsLimit modifySend
  have hnote : (c.note (.grantedStream id limit)).app = c.app := rfl
  have hindex : (c.note (.grantedStream id limit)).streamIndex id = c.streamIndex id := rfl
  have hpair : ∀ i, (c.note (.grantedStream id limit)).pairAt i = c.pairAt i := fun _ => rfl
  have hunis : (c.note (.grantedStream id limit)).localUni = c.localUni := rfl
  generalize c.note (.grantedStream id limit) = d at hnote hindex hpair hunis
  rw [hindex, ← hnote]
  cases hi : c.streamIndex id with
  | none =>
    rw [app_queueSend]
    · simp only [← setLimit_eq_self, ← hunis]
      exact app_localUni
    · exact hindex.trans hi
  | some i =>
    have hi' := streamIndex_modifyPair d i id fun pair =>
      { pair with send := pair.send.setLimit limit }
    have hp' := pairAt_modifyPair d i i fun pair => { pair with send := pair.send.setLimit limit }
    rw [hindex, hi] at hi'
    rw [if_pos rfl, hpair] at hp'
    unfold queueSend
    rw [hi']
    simp only
    rw [hp']
    cases hp : c.pairAt i with
    | none =>
      simp only [Option.map_none, reduceCtorEq, false_implies, implies_true, iff_true]
      exact app_modifyPair.mpr fun pair h => by simp [hpair, hp] at h
    | some pair =>
      have hd := (hpair i).trans hp
      simp only [Option.map_some, Option.some.injEq, forall_eq']
      cases hq : pair.queued with
      | true =>
        simp only [if_true, app_modifyPair_of hd, and_true, ← setLimit_eq_self]
        constructor
        · exact fun h => congrArg StreamPair.send h
        · intro h
          rw [h]
      | false =>
        simp only [Bool.false_eq_true, if_false, and_false, iff_false]
        intro h
        have hstreams := congrArg (fun a : App => a.streams[i]?.join) h
        have hset : ((d.modifyPair i fun pair =>
            { pair with send := pair.send.setLimit limit }).modifyPair i
            fun pair => { pair with queued := true }).pairAt i = d.pairAt i := hstreams
        rw [pairAt_modifyPair, pairAt_modifyPair, if_pos rfl, if_pos rfl, hd] at hset
        have hqueued := congrArg (Option.map StreamPair.queued) hset
        simp [hq] at hqueued

/-- What is retired makes the queue longer. -/
theorem retirePending_retireBelow {c : Connection} {n : Nat} :
    (c.retireBelow n).retirePending = c.retirePending ↔
      (c.retirePriorTo < n → ∀ known ∈ c.peerCids, n ≤ known.seq) := by
  unfold retireBelow
  split
  · rename_i hlt
    simp [hlt]
  · rename_i hge
    simp [hge]

theorem app_retireBelow {c : Connection} {n : Nat}
    (h : c.retirePriorTo < n → ∀ known ∈ c.peerCids, n ≤ known.seq) :
    (c.retireBelow n).app = c.app := by
  have hpending := retirePending_retireBelow.mpr h
  unfold retireBelow at hpending ⊢
  split at hpending
  · rename_i hlt
    have hkept : (c.peerCids.filter fun p => !decide (p.seq < n)) = c.peerCids :=
      List.filter_eq_self.mpr fun p hp => by simp [h hlt p hp]
    simp only at hpending
    rw [if_pos hlt]
    simp only [app, hpending, hkept]
  · rename_i hge
    rw [if_neg hge]

theorem app_moveCid : c.moveCid.app = c.app := by
  unfold moveCid
  split
  · split <;> rfl
  · rfl

theorem app_holdCid (seq : Nat) (cid : Bytes) (token : Option Bytes) :
    (c.holdCid seq cid token).2.app = c.app ↔
      activeConnectionIdLimit ≤ c.peerCids.length ∨ maxCidLen < cid.length := by
  unfold holdCid ConnectionId.new
  split
  · rename_i hroom
    split
    · rename_i hnew
      simp only [true_iff]
      simp only [dite_eq_right_iff, reduceCtorEq, imp_false, Nat.not_le] at hnew
      exact Or.inr hnew
    · rename_i cid' hnew
      have hle : cid.length ≤ maxCidLen := by
        by_contra hgt
        rw [dif_neg hgt] at hnew
        cases hnew
      simp [app, Nat.not_le.mpr hroom, Nat.not_lt.mpr hle]
  · rename_i hroom
    simp [Nat.not_lt.mp hroom]

theorem retirePending_holdCid (seq : Nat) (cid : Bytes)
    (token : Option Bytes) : (c.holdCid seq cid token).2.retirePending = c.retirePending := by
  unfold holdCid
  split
  · split <;> rfl
  · rfl

theorem app_keepCid (seq retirePriorTo : Nat) (cid : Bytes) (token : Option Bytes) :
    ((c.retireBelow retirePriorTo).holdCid seq cid token).2.app = c.app ↔
      (c.retirePriorTo < retirePriorTo → ∀ known ∈ c.peerCids, retirePriorTo ≤ known.seq) ∧
      (activeConnectionIdLimit ≤ c.peerCids.length ∨ maxCidLen < cid.length) := by
  have hhold : (c.retireBelow retirePriorTo).app = c.app →
      (((c.retireBelow retirePriorTo).holdCid seq cid token).2.app = c.app ↔
        activeConnectionIdLimit ≤ c.peerCids.length ∨ maxCidLen < cid.length) := by
    intro hsame
    have hcids : (c.retireBelow retirePriorTo).peerCids = c.peerCids := congrArg App.peerCids hsame
    rw [← hsame, app_holdCid, hcids]
  constructor
  · intro h
    have hqueue := (retirePending_holdCid _ seq cid token).symm.trans (congrArg App.retirePending h)
    have hkept := retirePending_retireBelow.mp hqueue
    exact ⟨hkept, (hhold (app_retireBelow hkept)).mp h⟩
  · rintro ⟨hkept, h⟩
    exact (hhold (app_retireBelow hkept)).mpr h

theorem app_onNewConnectionId (seq retirePriorTo : Nat) (cid token : Bytes) :
    (c.onNewConnectionId seq retirePriorTo cid token).2.app = c.app ↔
      c.RepeatsCid seq retirePriorTo cid := by
  unfold onNewConnectionId RepeatsCid
  split
  · rename_i hnil
    simp [List.isEmpty_iff.mp hnil]
  split
  · rename_i hself
    simp [hself]
  rename_i hnil hself
  have hne : cid ≠ [] := fun h => hnil (List.isEmpty_iff.mpr h)
  simp only
  split
  · rename_i hlt
    simp [app, hne, hself, Nat.not_le.mpr hlt]
  rename_i hge
  simp only [hne, hself, Nat.not_lt.mp hge, false_or, true_and]
  generalize (if token.length = 16 then some token else none) = token'
  split
  · rename_i known hfind
    have hknown : ∃ known ∈ c.peerCids, known.seq = seq :=
      ⟨known, List.mem_of_find?_eq_some hfind, by simpa using List.find?_some hfind⟩
    simp only [hknown, true_or, iff_true]
    split <;> rfl
  · rename_i hfind
    have hnone : ¬ ∃ known ∈ c.peerCids, known.seq = seq := by
      rintro ⟨known, hmem, hseq⟩
      have := List.find?_eq_none.mp hfind known hmem
      simp [hseq] at this
    simp only [hnone, false_or]
    have hkeep := app_keepCid c seq retirePriorTo cid token'
    rcases hhold : (c.retireBelow retirePriorTo).holdCid seq cid token' with ⟨e | _, d⟩
    · rwa [hhold] at hkeep
    · rw [hhold] at hkeep
      simp only [app_moveCid]
      exact hkeep

/-! ## The handshake -/

@[simp] theorem offered_modifySpace (f : SpaceState → SpaceState)
    (raw : Option Bytes) : (c.modifySpace sp f).offered raw = c.offered raw := rfl

@[simp] theorem offered_wake (raw : Option Bytes) : c.wake.offered raw = c.offered raw := rfl

theorem offered_readHs (raw : Option Bytes) : c.readHs.2.offered raw = c.offered raw := by
  unfold readHs
  split <;> rfl

theorem handedOver_congr {c d : Connection} (h : ∀ raw, d.offered raw = c.offered raw)
    (ws : List TlsWrite) : d.handedOver ws = c.handedOver ws := by
  induction ws with
  | nil => rfl
  | cons w ws ih => simp only [handedOver, ih, h]

@[simp] theorem handedOver_modifySpace (f : SpaceState → SpaceState)
    (ws : List TlsWrite) : (c.modifySpace sp f).handedOver ws = c.handedOver ws :=
  handedOver_congr (offered_modifySpace c sp f) ws

@[simp] theorem handedOver_wake (ws : List TlsWrite) : c.wake.handedOver ws = c.handedOver ws :=
  handedOver_congr (offered_wake c) ws

theorem taking_eq_self {c : Connection} {params : Params} :
    c.app.taking params = c.app ↔ c.Agrees params := by
  simp only [App.taking, app, App.mk.injEq, true_and, and_true, Agrees]

/-- The parameters are taken if they are on offer. -/
theorem app_takePeerParams (raw : Option Bytes) :
    ((c.takePeerParams raw).1.toBool = (c.offered raw).isSome) ∧
    (c.takePeerParams raw).2.app = ((c.offered raw).map c.app.taking).getD c.app := by
  unfold takePeerParams offered
  cases raw with
  | none => exact ⟨rfl, rfl⟩
  | some raw =>
    simp only [Option.map_some]
    cases Params.decode raw with
    | error e => exact ⟨rfl, rfl⟩
    | ok params =>
      simp only
      cases ({ c with params := params } : Connection).validateServerParams with
      | error e => exact ⟨rfl, rfl⟩
      | ok u => exact ⟨rfl, rfl⟩

theorem app_pumpLoop_never : ∀ (ws : List TlsWrite) (c : Connection),
    ws.countP TlsWrite.givesOneRtt = 0 → (pumpLoop ws c).2.app = c.app
  | [], c, _ => rfl
  | w :: ws, c, h => by
    rw [List.countP_cons] at h
    have hws : ws.countP TlsWrite.givesOneRtt = 0 := by omega
    simp only [pumpLoop]
    split
    · exact app_pumpLoop_never ws _ hws
    · rename_i raw hchange
      simp [TlsWrite.givesOneRtt, hchange] at h
    · split
      · rfl
      · exact app_pumpLoop_never ws _ hws

/-- The transport parameters are all that rustls changes, if it hands them over at most once. -/
theorem app_pumpLoop : ∀ (ws : List TlsWrite) (c : Connection),
    ws.countP TlsWrite.givesOneRtt ≤ 1 →
      (pumpLoop ws c).2.app = ((c.handedOver ws).map c.app.taking).getD c.app
  | [], c, _ => rfl
  | w :: ws, c, h => by
    rw [List.countP_cons] at h
    have hws : ws.countP TlsWrite.givesOneRtt ≤ 1 := by omega
    simp only [pumpLoop, handedOver]
    cases hchange : w.change with
    | none =>
      simp only
      split
      · rfl
      · rw [app_pumpLoop ws _ hws]
        simp
    | some change =>
      cases change with
      | handshake =>
        rw [app_pumpLoop ws _ hws]
        simp
      | oneRtt raw =>
        have hnever : ws.countP TlsWrite.givesOneRtt = 0 := by
          simp only [TlsWrite.givesOneRtt, hchange, if_true] at h
          omega
        simp only
        generalize hd : c.modifySpace c.tlsSpace _ = d
        have htake := app_takePeerParams d raw
        rw [← hd, offered_modifySpace, app_modifySpace, hd] at htake
        rcases ht : d.takePeerParams raw with ⟨e | u, d'⟩
        · rw [ht] at htake
          exact htake.2
        · rw [ht] at htake
          exact (app_pumpLoop_never ws _ hnever).trans htake.2

theorem app_onCrypto {c : Connection} (h : c.tls.writes.countP TlsWrite.givesOneRtt ≤ 1)
    (sp : Space) (offset : Nat) (data : Bytes) :
    (c.onCrypto sp offset data).2.app = c.app ↔ (c.feedsTls sp offset data = true →
      ∀ params, c.handedOver c.tls.writes = some params → c.Agrees params) := by
  unfold onCrypto feedsTls
  rcases hpush : (c.space sp).cryptoIn.push offset data false with ⟨e | new, recv⟩
  · simp
  simp only
  split
  · rename_i hempty
    simp [hempty]
  rename_i hready
  have hread : ∀ f, (c.modifySpace sp f).readHs = (c.readHs.1, c.readHs.2.modifySpace sp f) := by
    intro f
    unfold readHs
    have htls : (c.modifySpace sp f).tls = c.tls := rfl
    rw [htls]
    split <;> rfl
  have hwrites : c.readHs.2.tls.writes = c.tls.writes := by
    unfold readHs
    split <;> rfl
  have happ := app_readHs c
  have hover := handedOver_congr (offered_readHs c)
  rw [hread]
  rcases hr : c.readHs with ⟨r, d⟩
  rw [hr] at hwrites happ hover
  cases r with
  | failed alert => simp [happ]
  | accepted =>
    have hpump : ∀ f g, ((d.modifySpace sp f).modifySpace sp g).pumpTls.2.app =
        ((c.handedOver c.tls.writes).map c.app.taking).getD c.app := by
      intro f g
      have hloop := app_pumpLoop d.tls.writes ((d.modifySpace sp f).modifySpace sp g) (hwrites ▸ h)
      rw [handedOver_modifySpace, handedOver_modifySpace, hover, hwrites, app_modifySpace,
        app_modifySpace, happ, ← hwrites] at hloop
      rw [← hwrites]
      exact hloop
    simp only [hpump, hready, decide_true]
    cases c.handedOver c.tls.writes with
    | none => simp
    | some params => simp [taking_eq_self]

/-! ## Acknowledgements -/

end Connection

/-- What packets of the handshake carry. -/
def SentFrame.ofHandshake : SentFrame → Bool
  | .crypto .. | .ping => true
  | _ => false

/-- A packet of the handshake. -/
def SentPacket.OfHandshake (p : SentPacket) : Prop := ∀ f ∈ p.frames, f.ofHandshake = true

namespace Connection

theorem onFrameAcked_ofHandshake {f : SentFrame} (hf : f.ofHandshake = true) (c : Connection) :
    c.onFrameAcked f = c := by
  cases f with
  | crypto | ping => rfl
  | _ => cases hf

theorem onFrameLost_ofHandshake {f : SentFrame} (hf : f.ofHandshake = true) (c : Connection)
    (sp : Space) :
    (c.onFrameLost sp f).app = c.app ∧ ((c.onFrameLost sp f).space sp).sent =
      (c.space sp).sent := by
  cases f with
  | crypto =>
    rw [onFrameLost, space_modifySpace, if_pos rfl]
    exact ⟨rfl, rfl⟩
  | ping => exact ⟨rfl, rfl⟩
  | _ => cases hf

/-- Acknowledging a packet of the handshake does nothing but trim. -/
theorem onPacketAcked_ofHandshake {p : SentPacket} (hp : p.OfHandshake) (c : Connection)
    (sp : Space) :
    (c.onPacketAcked sp p).app = c.app ∧ ((c.onPacketAcked sp p).space sp).sent =
      (c.space sp).sent := by
  have hframes : ∀ (l : List SentFrame), (∀ f ∈ l, f.ofHandshake = true) → ∀ d : Connection,
      l.foldl (fun c f => c.onFrameAcked f) d = d := by
    intro l
    induction l with
    | nil => exact fun _ _ => rfl
    | cons f l ih =>
      intro hl d
      rw [List.foldl_cons, onFrameAcked_ofHandshake (hl f List.mem_cons_self)]
      exact ih (fun g hg => hl g (List.mem_cons_of_mem _ hg)) d
  unfold onPacketAcked
  rw [hframes _ hp]
  split
  · rw [space_modifySpace, if_pos rfl]
    exact ⟨rfl, rfl⟩
  · exact ⟨rfl, rfl⟩

/-- From packets of the handshake in flight to such packets, without the application. -/
def Early (sp : Space) (c d : Connection) : Prop :=
  (∀ p ∈ (c.space sp).sent.packets, p.OfHandshake) →
    d.app = c.app ∧ ∀ p ∈ (d.space sp).sent.packets, p.OfHandshake

namespace Early

variable {sp : Space} {c d : Connection}

theorem composes (sp : Space) : Composes (Early sp) where
  refl _ h := ⟨rfl, h⟩
  trans h h' hc := by
    obtain ⟨happ, hd⟩ := h hc
    obtain ⟨happ', he⟩ := h' hd
    exact ⟨happ'.trans happ, he⟩

theorem of_sent (h : d.app = c.app ∧ (d.space sp).sent = (c.space sp).sent) : Early sp c d :=
  fun hc => ⟨h.1, h.2 ▸ hc⟩

theorem measured (h : Measured c d) : Early sp c d := by
  refine of_sent ?_
  rw [h]
  exact ⟨rfl, rfl⟩

theorem leave {sent : SentPackets} (h : ∀ p ∈ sent.packets, p ∈ (c.space sp).sent.packets) :
    Early sp c (c.modifySpace sp fun s => { s with sent := sent }) := by
  refine fun hc => ⟨rfl, fun p hp => ?_⟩
  rw [space_modifySpace, if_pos rfl] at hp
  exact hc p (h p hp)

theorem detectLost (hc : ∀ p ∈ (c.space sp).sent.packets, p.OfHandshake) (now lossDelay : Nat) :
    Early sp c (c.detectLost sp now lossDelay).2 := by
  obtain ⟨hlost, hkept⟩ := SentPackets.detectLost_subset (c.space sp).sent now lossDelay
  refine detectLost_composes (composes sp) (fun c g => measured (.congestion c g)) (leave hkept)
    (fun d p hp f hf => of_sent (onFrameLost_ofHandshake (hc p (hlost p hp) f hf) d sp))
    fun d deadline => of_sent ?_
  rw [space_modifySpace, if_pos rfl]
  exact ⟨rfl, rfl⟩

end Early

theorem app_onAck {c : Connection} {sp : Space} (h : ∀ p ∈ (c.space sp).sent.packets, p.OfHandshake)
    (largest delay firstRange : Nat) (ranges : Bytes) (now : Nat) :
    (c.onAck sp largest delay firstRange ranges now).app = c.app :=
  (onAck_composes (Early.composes sp) Early.measured (Early.leave fun _ =>
    SentPackets.drainAcked_subset) (fun d p hp => .of_sent
      (onPacketAcked_ofHandshake (h p (SentPackets.mem_drainAcked.mp hp).1) d sp))
    (fun _ lossDelay hd => Early.detectLost hd now lossDelay hd) h).1

/-! ## Frames and packets -/

/-- What the run so far makes of the spaces of the handshake: packets of the handshake in
flight, and rustls with the 1-RTT keys at most once ahead. -/
structure Staged (c : Connection) : Prop where
  flight : ∀ sp, sp ≠ .data → ∀ p ∈ (c.space sp).sent.packets, p.OfHandshake
  once : c.tls.writes.countP TlsWrite.givesOneRtt ≤ 1

theorem app_arrived (id stop : Nat) (r : Except Fault Unit × Connection) :
    (arrived id stop r).2.app = r.2.app := by
  rcases r with ⟨_ | _, c⟩ <;> rfl

/-- A frame of an Initial or Handshake packet leaves the application's state alone exactly if
it has nothing to change. -/
theorem app_handleFrame {c : Connection} (h : c.Staged) {sp : Space} (hsp : sp ≠ .data) (f : Frame)
    (now : Nat) : (c.handleFrame sp f now).2.app = c.app ↔ c.Inert sp f := by
  cases f with
  | ack largest delay firstRange ranges count =>
    simp only [handleFrame, Inert, iff_true]
    exact app_onAck (h.flight sp hsp) largest delay firstRange ranges now
  | crypto offset data => exact app_onCrypto h.once sp offset data
  | stream id offset fin data =>
    simp only [handleFrame, app_arrived]
    exact app_onStream c id offset data fin
  | resetStream id error finalSize =>
    simp only [handleFrame, app_arrived]
    exact app_onReset c id error finalSize
  | stopSending id error => exact app_onStopSending c id error
  | maxStreamData id limit => exact app_onMaxStreamData c id limit
  | newConnectionId seq retirePriorTo cid token =>
    exact app_onNewConnectionId c seq retirePriorTo cid token
  | maxData limit => simp [handleFrame, Inert, app, note]
  | maxStreams uni limit => cases uni <;> simp [handleFrame, Inert, app]
  | handshakeDone =>
    have happ : (c.handleFrame sp .handshakeDone now).2.app =
      { c.app with handshakeDone := true } := rfl
    rw [happ]
    simp only [app, App.mk.injEq, true_and]
    exact eq_comm
  | pathChallenge data =>
    simp only [handleFrame, Inert, onPathChallenge]
    split
    · rename_i hlen
      simp [app, hlen, eq_comm]
    · rename_i hlen
      simp [hlen]
  | close app error reason => simp [handleFrame, Inert, onClose]
  | _ => simp [handleFrame, Inert]

/-- The loop over a packet's frames, each of which finds the application's state as `a` and
leaves it so. -/
theorem handleFrames_app {I : Connection → Prop} (hstaged : ∀ {c : Connection}, I c → c.Staged)
    {sp : Space} (hsp : sp ≠ .data) {now : Nat}
    (hkeep : ∀ {c : Connection} (f : Frame), I c → I (c.handleFrame sp f now).2) {a : App} :
    ∀ (fs : List (Except FrameError Frame)) (eliciting : Bool) (c : Connection), I c →
      ((∀ y ∈ handledFrames sp now fs c, y.1.app = a) ∧
        (handleFrames sp now eliciting fs c).2.app = a ↔
        c.app = a ∧ ∀ y ∈ handledFrames sp now fs c, y.1.Inert sp y.2)
  | [], _, _, _ | .error _ :: _, _, _, _ => by simp [handledFrames, handleFrames]
  | .ok f :: rest, eliciting, c, hc => by
    have hframe := app_handleFrame (hstaged hc) hsp f now
    have hnext := hkeep f hc
    simp only [handledFrames, handleFrames, List.forall_mem_cons]
    rcases hf : c.handleFrame sp f now with ⟨e | u, d⟩
    · -- refused: no later frame is handled
      rw [hf] at hframe
      simp only [List.not_mem_nil, false_implies, implies_true, and_true]
      constructor
      · rintro ⟨rfl, hd⟩
        exact ⟨rfl, hframe.mp hd⟩
      · rintro ⟨rfl, hin⟩
        exact ⟨rfl, hframe.mpr hin⟩
    · rw [hf] at hframe hnext
      have hrest := handleFrames_app hstaged hsp hkeep (a := a) rest
        (eliciting || f.ackEliciting) d hnext
      rw [and_assoc, hrest]
      constructor
      · rintro ⟨rfl, hd, hin⟩
        exact ⟨rfl, hframe.mp hd, hin⟩
      · rintro ⟨rfl, hin, hall⟩
        exact ⟨rfl, hframe.mpr hin, hall⟩

@[simp] theorem app_rotateKeys (c : Connection) (at_ : Nat) (phase : Bool) :
    (c.rotateKeys at_ phase).app = c.app := by
  unfold rotateKeys
  split <;> rfl

/-- The first packet of the server brings the first connection id. -/
theorem app_acceptPacket {c : Connection} {p : Packet} (hsp : p.space ≠ .data) (pn : Nat)
    (generation : Generation) (received : ReceivedPackets) :
    (c.acceptPacket p pn generation received).app = c.app ↔
      c.handshakeDone = true ∨ c.peerCids ≠ [] := by
  have hadopt : ∀ d : Connection, d.app = c.app →
      ((d.adoptScid p).app = c.app ↔ c.handshakeDone = true ∨ c.peerCids ≠ []) := by
    intro d hd
    have hdone : d.handshakeDone = c.handshakeDone := congrArg App.handshakeDone hd
    have hcids : d.peerCids = c.peerCids := congrArg App.peerCids hd
    unfold adoptScid
    rw [hdone, hcids, ← hd]
    cases hdn : c.handshakeDone with
    | true => simp
    | false =>
      simp only [hsp, ne_eq, not_false_eq_true, and_self, if_true, app, hcids, Bool.false_eq_true,
        false_or, App.mk.injEq, true_and]
      cases c.peerCids with
      | nil => simp
      | cons => simp [hdone, hdn]
  unfold acceptPacket
  refine hadopt _ ?_
  split
  · rw [app_rotateKeys]
    rfl
  · rfl

/-- Nothing of the packet changes the application's state: every frame finds it as it was, and
so does what comes after the packet. -/
def Delivery.LeavesApp (x : Delivery) : Prop :=
  (∀ y ∈ x.conn.packetFrames x.now x.packet, y.1.app = x.conn.app) ∧ x.result.2.app = x.conn.app

theorem leavesApp_iff {I : Connection → Prop} (hstaged : ∀ {c : Connection}, I c → c.Staged)
    {x : Delivery} (hsp : x.packet.space ≠ .data)
    (hkeep : ∀ {c : Connection} (f : Frame), I c → I (c.handleFrame x.packet.space f x.now).2)
    (haccept : ∀ pn generation received, I (x.conn.acceptPacket x.packet pn generation received))
    (hfresh : x.fresh = true) :
    x.LeavesApp ↔ (x.conn.handshakeDone = true ∨ x.conn.peerCids ≠ []) ∧
      ∀ y ∈ x.conn.packetFrames x.now x.packet, y.1.Inert x.packet.space y.2 := by
  unfold Delivery.LeavesApp Delivery.result packetFrames handlePacket
  unfold Delivery.fresh at hfresh
  cases ho : x.conn.openPacket x.packet with
  | none =>
    rw [ho] at hfresh
    cases hfresh
  | some o =>
    obtain ⟨pn, generation⟩ := o
    rw [ho] at hfresh
    simp only at hfresh ⊢
    rcases hins : (x.conn.space x.packet.space).received.insert pn with ⟨new, received⟩
    rw [hins] at hfresh
    cases hfresh
    simp only
    have hloop := handleFrames_app hstaged hsp hkeep (a := x.conn.app)
      (frames x.packet.payload) false _ (haccept pn generation received)
    rw [app_acceptPacket hsp] at hloop
    rcases hr : handleFrames x.packet.space x.now false (frames x.packet.payload)
      (x.conn.acceptPacket x.packet pn generation received) with ⟨e | eliciting, d⟩
    · rwa [hr] at hloop
    · rw [hr] at hloop
      simpa only [app_recordPacket] using hloop

end Connection

/-! ## What packets of the handshake carry -/

namespace Filling

/-- Filling adds frames of the handshake only. -/
def KeepsHandshake (b b' : Filling) : Prop :=
  (∀ f ∈ b.frames, f.ofHandshake = true) → ∀ f ∈ b'.frames, f.ofHandshake = true

theorem concat_ofHandshake {fs : List SentFrame} {f : SentFrame} (hf : f.ofHandshake = true)
    (h : ∀ g ∈ fs, g.ofHandshake = true) : ∀ g ∈ fs ++ [f], g.ofHandshake = true := by
  intro g hg
  rcases List.mem_append.mp hg with hg | hg
  · exact h g hg
  · rw [List.mem_singleton.mp hg]
    exact hf

theorem composes_keepsHandshake : Composes KeepsHandshake :=
  ⟨fun _ h => h, fun h h' hb => h' (h hb)⟩

theorem turn_keepsHandshake {sp : Space} (hsp : sp ≠ .data) {budget : Nat} {b b' : Filling}
    (h : b.Turn sp budget b') : KeepsHandshake b b' := by
  cases h with
  | answered _ _ _ =>
    unfold ping
    split
    · exact id
    · exact concat_ofHandshake (f := .ping) rfl
  | crypto _ _ _ => exact concat_ofHandshake (f := .crypto _ _) rfl
  | _ => exact absurd ‹sp = .data› hsp

end Filling

namespace Connection

theorem fillPayload_ofHandshake {c c' : Connection} {sp : Space} (hsp : sp ≠ .data)
    {now budget : Nat} {congested : Bool} {filled : Filled}
    (h : c.fillPayload sp now budget congested = (.ok filled, c')) :
    ∀ f ∈ filled.frames, f.ofHandshake = true := by
  unfold fillPayload at h
  have hframes := Filling.ack_frames
    { conn := c, out := [], frames := [], ackEliciting := false } sp now budget
  split at h
  · simp at h
  · rename_i ackLargest b heq
    rw [heq] at hframes
    have hb : ∀ f ∈ b.frames, f.ofHandshake = true :=
      fun f hf => by rw [hframes] at hf; exact absurd hf List.not_mem_nil
    have hturn {b b' : Filling} (h : b.Turn sp budget b') : Filling.KeepsHandshake b b' :=
      Filling.turn_keepsHandshake hsp h
    have hpath := Filling.pathResponse_turns Filling.composes_keepsHandshake hturn b hb
    simp only at h
    split at h
    · cases h
      exact hpath
    · cases h
      exact Filling.fillRest_turns Filling.composes_keepsHandshake
        (Filling.turn_keepsHandshake hsp) _ congested hpath

end Connection

/-! ## Runs -/

namespace Accounts

/-- Only packets of the handshake are in flight below 1-RTT. -/
structure Layered (a : Accounts) : Prop where
  wf : a.Wf
  flight : ∀ sp, sp ≠ .data → ∀ p ∈ a.flight sp, p.OfHandshake

theorem Layered.kept : Kept (fun e => ∀ sp, e ≠ .emitted sp) Layered where
  wf := Layered.wf
  step h ha hs :=
    ⟨h.wf.step hs, fun sp hsp p hp => h.flight sp hsp p (hs.flight_subset ha sp hp)⟩

theorem Layered.emit {a : Accounts} (h : a.Layered) {sp : Space} {p : SentPacket}
    (hp : ∀ f ∈ p.frames, .wrote f ∈ a.log) (hof : sp ≠ .data → p.OfHandshake) :
    Layered { a with flight := Function.update a.flight sp (a.flight sp ++ [p]) } where
  wf := h.wf.step (Step.emit sp p hp)
  flight := by
    intro sp' hsp' q hq
    simp only [Function.update_apply] at hq
    split at hq
    · rename_i heq
      subst heq
      rcases List.mem_append.mp hq with hq | hq
      · exact h.flight sp' hsp' q hq
      · rw [List.mem_singleton.mp hq]
        exact hof hsp'
    · exact h.flight sp' hsp' q hq

end Accounts

namespace Connection

theorem writePacket_layered {c : Connection} (h : c.accounts.Layered) (sp : Space) (key : Key)
    (now written : Nat) (congested : Bool) (pad : Option Nat) :
    (c.writePacket sp key now written congested pad).2.accounts.Layered := by
  have hfilled : ∀ budget, (c.fillPayload sp now budget congested).2.accounts.Layered :=
    fun budget =>
    (fillPayload_does c sp now budget congested).keeps
      (Layered.kept.mono fun e he sp' heq => by rw [heq] at he; exact he) h
  unfold writePacket
  split
  · exact h
  · simp only
    generalize pad.getD maxDatagram - _ = budget
    have hd := hfilled budget
    split
    all_goals rename_i hfill; rw [hfill] at hd
    · exact hd
    · split
      · exact hd
      · simp only
        rw [accounts_emit]
        exact Layered.emit hd (fillPayload_frames h.wf hfill) fun hsp =>
          fillPayload_ofHandshake hsp hfill

/-- rustls will bring the 1-RTT keys at most once more. -/
def bringsOnce (l : Link) : Prop := l.writes.countP TlsWrite.givesOneRtt ≤ 1

theorem bringsOnce_keyProperty : Link.KeyProperty bringsOnce := by
  have hdrop : ∀ {w : TlsWrite} {ws : List TlsWrite}, (w :: ws).countP TlsWrite.givesOneRtt ≤ 1 →
      ws.countP TlsWrite.givesOneRtt ≤ 1 := by
    intro w ws h
    rw [List.countP_cons] at h
    omega
  exact ⟨fun _ _ _ _ _ _ h => h, fun h => hdrop h, fun _ _ h => hdrop h⟩

theorem bringsOnce_rotateKeys {c : Connection} (h : bringsOnce c.link) (at_ : Nat) (phase : Bool) :
    bringsOnce (c.rotateKeys at_ phase).link := by
  unfold rotateKeys
  split <;> exact h

/-- What every run keeps of the spaces of the handshake. -/
def Stages (c : Connection) : Prop := c.accounts.Layered ∧ bringsOnce c.link

theorem Stages.staged {c : Connection} (h : c.Stages) : c.Staged := ⟨h.1.flight, h.2⟩

theorem handleFrame_layered {c : Connection} (h : c.accounts.Layered) (sp : Space) (f : Frame)
    (now : Nat) : (c.handleFrame sp f now).2.accounts.Layered :=
  (handleFrame_does c sp f now).keeps
    (Layered.kept.mono fun e he sp' heq => by rw [heq] at he; exact he) h

theorem handleFrame_stages {c : Connection} (h : c.Stages) (sp : Space) (f : Frame) (now : Nat) :
    (c.handleFrame sp f now).2.Stages :=
  ⟨handleFrame_layered h.1 sp f now, handleFrame_keys bringsOnce_keyProperty h.2 sp f now⟩

theorem acceptPacket_stages {c : Connection} (h : c.Stages) (p : Packet) (pn : Nat)
    (generation : Generation) (received : ReceivedPackets) :
    (c.acceptPacket p pn generation received).Stages :=
  ⟨(acceptPacket_elsewhere c p pn generation received).accounts.symm ▸ h.1,
   acceptPacket_keys bringsOnce_keyProperty h.2 p pn received fun _ =>
     bringsOnce_rotateKeys h.2 pn _⟩

theorem handlePacket_stages {x : Delivery} (h : x.conn.Stages) : x.result.2.Stages :=
  ⟨handlePacket_keeps (Q := fun _ _ => True)
    (Layered.kept.mono fun e he sp heq => by rw [he] at heq; cases heq)
    (fun h _ => handleFrame_layered h x.packet.space _ x.now) h.1 fun _ _ => trivial,
   handlePacket_keys bringsOnce_keyProperty x.now h.2 fun pn _ => bringsOnce_rotateKeys h.2 pn _⟩

theorem Layered.quiet : Kept Quiet Layered :=
  Layered.kept.mono fun e he sp heq => by rw [heq] at he; exact he

theorem step_stages {c c' : Connection} {op : Op} (h : c.Stages) (hstep : op.step c = some c') :
    c'.Stages ∧ ∀ x ∈ op.packets c, x.conn.Stages := by
  cases op with
  | datagram now d =>
    cases hstep
    exact Op.datagram_invariant (I := Stages) (P := fun _ => True)
      ((Kept.around Layered.quiet).and (around_keys bringsOnce_keyProperty))
      (fun h _ => handlePacket_stages h) h now d fun _ _ => trivial
  | transmit now pad =>
    have hkeys := step_keys bringsOnce_keyProperty h.2 (fun _ _ => by simp) hstep
    refine ⟨⟨?_, hkeys⟩, fun _ hx => absurd hx List.not_mem_nil⟩
    rw [← Op.step_transmit hstep]
    exact pollTransmit_invariant (I := fun c => c.accounts.Layered)
      h.1 ((pumpTls_does _).keeps Layered.quiet h.1)
      (fun sp key written congested pad h => writePacket_layered h sp key now written congested pad)
      (fun h => (discardSpace_does _ .initial).keeps
        (Layered.kept.mono fun e he sp heq => by rw [he] at heq; cases heq) h)
      (fun h => by rwa [(armIdle_elsewhere _ _).accounts]) pad
  | _ =>
    refine ⟨⟨?_, step_keys bringsOnce_keyProperty h.2 (fun _ _ => by simp) hstep⟩,
      fun _ hx => absurd hx List.not_mem_nil⟩
    exact (Op.does_local (fun _ _ => by simp) (fun _ _ => by simp) hstep).keeps Layered.quiet h.1

end Connection

open Connection

/-- What Initial and Handshake packets can change. In every run in which rustls hands the 1-RTT
keys over once: a packet of those spaces that is opened and new leaves the application's state
alone, at each of its frames and behind it, exactly if it does not bring the first connection
id and every frame of it has nothing to change. Nothing else keeps the two apart. -/
theorem early_packet_leaves_app {input : LocalParamsInput} {localCid initialDcid : ConnectionId}
    {tls : Tls} {ops : List Op} {c : Connection} (htls : tls.writes.countP TlsWrite.givesOneRtt ≤ 1)
    (hrun : run Op.step (connect input localCid initialDcid tls) ops = some c) {now : Nat}
    {d : Datagram} {x : Delivery} (hx : x ∈ (Op.datagram now d).packets c)
    (hsp : x.packet.space ≠ .data) (hfresh : x.fresh = true) :
    x.LeavesApp ↔ (x.conn.handshakeDone = true ∨ x.conn.peerCids ≠ []) ∧
      ∀ y ∈ x.conn.packetFrames x.now x.packet, y.1.Inert x.packet.space y.2 := by
  have hstart : (connect input localCid initialDcid tls).Stages := by
    refine ⟨?_, htls⟩
    rw [accounts_connect]
    exact ⟨Wf.start _, fun sp _ p hp => absurd hp List.not_mem_nil⟩
  have hc : c.Stages := run_invariant (P := Stages) (fun h hs => (step_stages h hs).1) hstart hrun
  have hstep : (Op.datagram now d).step c = some (c.handleDatagram now d).2 := rfl
  have hfound : x.conn.Stages := (step_stages hc hstep).2 x hx
  exact leavesApp_iff Stages.staged hsp (fun f h => handleFrame_stages h x.packet.space f x.now)
    (fun pn generation received =>
      acceptPacket_stages hfound x.packet pn generation received) hfresh

/-! ## HANDSHAKE_DONE in an Initial packet -/

/-- The connection when the handshake is complete on our side and not yet confirmed. -/
def unconfirmed : Connection := (run Op.step newConnection handshakeOps).getD newConnection

/-- A second Initial packet under the keys that everyone can make. -/
def secondInitial (payload : Bytes) : Delivery :=
  ⟨2, unconfirmed, initialPacket 1 payload⟩

/-- A PING has nothing to change. -/
theorem early_packet_leaves_app_ping : (secondInitial putPing).LeavesApp := by
  have hrun : run Op.step newConnection handshakeOps = some unconfirmed := by decide +kernel
  have hmem : secondInitial putPing ∈
      (Op.datagram 2 ⟨[.packet (initialPacket 1 putPing)], none⟩).packets unconfirmed := by
    decide +kernel
  have hiff := early_packet_leaves_app (by decide) hrun hmem (by decide) (by decide +kernel)
  refine hiff.mpr ⟨Or.inr (by decide +kernel), fun y hy => ?_⟩
  have hping : y.2 = .ping := by
    have hall : ∀ y ∈ (secondInitial putPing).conn.packetFrames 2 (initialPacket 1 putPing),
        y.2 = .ping := by decide +kernel
    exact hall y hy
  rw [hping]
  trivial

/-- HANDSHAKE_DONE in an Initial packet confirms the handshake. -/
theorem initial_packet_confirms_handshake :
    run Op.step newConnection handshakeOps = some unconfirmed ∧
    secondInitial [0x1e] ∈ (Op.datagram 2 ⟨[.packet (initialPacket 1 [0x1e])],
      none⟩).packets unconfirmed ∧
    (secondInitial [0x1e]).fresh = true ∧
    (secondInitial [0x1e]).conn.handshakeDone = false ∧
    (secondInitial [0x1e]).result.2.handshakeDone = true := by
  decide +kernel

end Shb.Quic
