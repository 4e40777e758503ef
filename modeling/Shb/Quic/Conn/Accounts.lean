import Mathlib.Logic.Function.Basic
import Shb.Lib.Run
import Shb.Quic.Conn.Transmit

/-!
# A connection as its two ends account for it

Keys, timers, connection ids, queues and the ring's layout are how a connection works; what
it *promises* is about less: which streams there are and how far each has got, what may be
sent and what may be received, what is to be acknowledged, what is in flight. `Accounts` is
that much, with the ring and the lists of streams replaced by maps from stream ids.

`Step` says everything that can happen to the accounts. A guarantee of the connection is an
invariant of these steps; that the connection takes no other is shown in the modules behind
this one, function by function, and not again.
-/

namespace Shb.Quic

open Lib

@[ext]
structure Accounts where
  /-- The send halves, of request streams and of our unidirectional ones. -/
  sends : Nat → Option SendStream
  /-- The receive halves, of request streams and of those the peer opened. -/
  recvs : Nat → Option RecvStream
  /-- Request streams the worker is done with that are still there. -/
  retired : Nat → Bool
  /-- One past the last stream number of the ring. -/
  ringEnd : Nat
  nextBidi : Nat
  nextUni : Nat
  uniIds : List Nat
  /-- The streams the peer has opened. -/
  peerIds : List Nat
  acks : Space → AckState
  flight : Space → List SentPacket
  dataSent : Nat
  maxDataPeer : Nat
  dataReceived : Nat
  maxDataLocal : Nat
  log : List Entry

namespace Accounts

/-- Before anything has happened, with a window to receive in. -/
def start (window : Nat) : Accounts where
  sends := fun _ => none
  recvs := fun _ => none
  retired := fun _ => false
  ringEnd := 0
  nextBidi := 0
  nextUni := 0
  uniIds := []
  peerIds := []
  acks := fun _ => {}
  flight := fun _ => []
  dataSent := 0
  maxDataPeer := 0
  dataReceived := 0
  maxDataLocal := window
  log := []

/-- The layout agrees with the counters, and what is in flight was written. -/
structure Wf (a : Accounts) : Prop where
  ring : a.ringEnd = a.nextBidi
  unis : a.uniIds = (List.range a.nextUni).map (clientStreamId .uni)
  peers : ∀ id ∈ a.peerIds, isClientInitiated id = false
  flight : ∀ sp, ∀ p ∈ a.flight sp, ∀ f ∈ p.frames, .wrote f ∈ a.log

/-- What can happen to a send stream, its next frame going out apart. An acknowledgement or a
loss is of a frame that was written; a limit was granted by the peer. -/
inductive SendChange (log : List Entry) (id : Nat) (s : SendStream) : SendStream → Prop
  | write (data : Bytes) : SendChange log id s (s.write data).2
  | finish : SendChange log id s s.finish
  | setLimit {limit : Nat} (h : .grantedStream id limit ∈ log) :
    SendChange log id s (s.setLimit limit)
  | acked {offset len : Nat} {fin : Bool} (h : .wrote (.stream id offset len fin) ∈ log) :
    SendChange log id s (s.onAcked offset len fin)
  | lost {offset len : Nat} {fin : Bool} (h : .wrote (.stream id offset len fin) ∈ log) :
    SendChange log id s (s.onLost offset len fin)
  | reset : SendChange log id s s.reset.2
  | resetAcked : SendChange log id s s.onResetAcked

/-- What happened, as far as anyone has to tell steps apart. -/
inductive Act where
  | trim (sp : Space) (n : Nat)
  | record (sp : Space)
  | taken (sp : Space)
  | discard (sp : Space)
  | emitted (sp : Space)
  | arrived (id stop : Nat)
  | ignored (id stop : Nat)
  | other
  deriving DecidableEq

/-- The receive half a frame from the peer goes to: one that is there, or a new one of a
stream the peer opens. -/
def Receives (a : Accounts) (id : Nat) (r : RecvStream) : Prop :=
  a.recvs id = some r ∨ (a.recvs id = none ∧ isClientInitiated id = false ∧ r.received = 0)

/-- A request stream that was opened and is not there any more. -/
def Gone (a : Accounts) (id : Nat) : Prop :=
  a.recvs id = none ∧ isClientInitiated id = true ∧ streamDir id = .bi ∧ id / 4 < a.nextBidi

/-- Streams on which frames may be dropped unread: retired, or gone. -/
def Ignores (a : Accounts) (id : Nat) : Prop := a.retired id = true ∨ a.Gone id

/-- The frames that are dropped unread: a STREAM frame on a retired stream, either kind on one
that is gone. -/
def Drops (a : Accounts) : Frame → Prop
  | .stream id _ _ _ => a.Ignores id
  | .resetStream id _ _ => a.Gone id
  | _ => False

instance (a : Accounts) (id : Nat) : Decidable (a.Gone id) := inferInstanceAs (Decidable (_ ∧ _))

instance (a : Accounts) (id : Nat) : Decidable (a.Ignores id) := inferInstanceAs (Decidable (_ ∨ _))

instance (a : Accounts) (f : Frame) : Decidable (a.Drops f) := by
  unfold Drops
  split <;> infer_instance

inductive Step (a : Accounts) : Act → Accounts → Prop
  /-- An acknowledgement of an ACK of ours. -/
  | trim (sp : Space) (n : Nat) : Step a (.trim sp n)
    { a with acks := Function.update a.acks sp ((a.acks sp).trimBelow n) }
  /-- A packet whose frames were all taken. -/
  | record (sp : Space) (pn : Nat) (eliciting : Bool) (now : Nat) : Step a (.record sp)
    { a with acks := Function.update a.acks sp ((a.acks sp).record pn eliciting now) }
  /-- An ACK was put in a packet. -/
  | taken (sp : Space) : Step a (.taken sp)
    { a with acks := Function.update a.acks sp (a.acks sp).takePending }
  | discard (sp : Space) : Step a (.discard sp)
    { a with acks := Function.update a.acks sp {}, flight := Function.update a.flight sp [] }
  /-- Packets leave flight: acknowledged, lost, or given up with a Retry. -/
  | leave (sp : Space) (ps : List SentPacket) (h : ∀ p ∈ ps, p ∈ a.flight sp) : Step a .other
    { a with flight := Function.update a.flight sp ps }
  | emit (sp : Space) (p : SentPacket) (h : ∀ f ∈ p.frames, .wrote f ∈ a.log) : Step a (.emitted sp)
    { a with flight := Function.update a.flight sp (a.flight sp ++ [p]) }
  | openBi (limit window : Nat) : Step a .other
    { a with
      sends := Function.update a.sends (clientStreamId .bi a.nextBidi) (some (.new limit))
      recvs := Function.update a.recvs (clientStreamId .bi a.nextBidi) (some (.new window))
      retired := Function.update a.retired (clientStreamId .bi a.nextBidi) false
      ringEnd := a.ringEnd + 1
      nextBidi := a.nextBidi + 1
      log := .grantedStream (clientStreamId .bi a.nextBidi) limit :: a.log }
  | openUni (limit : Nat) : Step a .other
    { a with
      sends := Function.update a.sends (clientStreamId .uni a.nextUni) (some (.new limit))
      nextUni := a.nextUni + 1
      uniIds := a.uniIds ++ [clientStreamId .uni a.nextUni]
      log := .grantedStream (clientStreamId .uni a.nextUni) limit :: a.log }
  | send {id : Nat} {s s' : SendStream} (hs : a.sends id = some s)
    (h : SendChange a.log id s s') : Step a .other
    { a with sends := Function.update a.sends id (some s') }
  /-- A stream's next frame goes into a packet. -/
  | sent {id max offset : Nat} {data : Bytes} {fin : Bool} {s : SendStream}
    (hs : a.sends id = some s)
    (h : s.nextSend max (a.maxDataPeer - a.dataSent) = some (offset, data, fin)) : Step a .other
    { a with
      sends := Function.update a.sends id (some (s.onSent offset data.length fin).2)
      dataSent := a.dataSent + (s.onSent offset data.length fin).1
      log := .wrote (.stream id offset data.length fin) :: a.log }
  /-- A frame without stream data goes into a packet. -/
  | wrote (f : SentFrame) (h : ∀ id offset len fin, f ≠ .stream id offset len fin) : Step a .other
    { a with log := .wrote f :: a.log }
  /-- The application reads, or a limit is raised: nothing arrives. -/
  | read {id : Nat} {r r' : RecvStream} (hr : a.recvs id = some r)
    (h : r'.received = r.received) : Step a .other
    { a with recvs := Function.update a.recvs id (some r') }
  | arrived {id stop : Nat} {r r' : RecvStream} {peerIds : List Nat} (hr : a.Receives id r)
    (hids : peerIds = a.peerIds ∨ (peerIds = a.peerIds ++ [id] ∧ isClientInitiated id = false))
    (hr' : r'.received = max r.received stop)
    (hle : stop - r.received ≤ a.maxDataLocal - a.dataReceived) : Step a (.arrived id stop)
    { a with
      recvs := Function.update a.recvs id (some r')
      peerIds := peerIds
      dataReceived := a.dataReceived + (stop - r.received)
      log := .arrived id stop :: a.log }
  | ignored (id stop : Nat) (h : a.Ignores id) : Step a (.ignored id stop)
    { a with log := .arrived id stop :: a.log }
  | retire (id : Nat) (h : isClientInitiated id = true) : Step a .other
    { a with retired := Function.update a.retired id true }
  /-- A retired stream whose send half has settled is forgotten. -/
  | settle (id : Nat) (h : a.retired id = true) : Step a .other
    { a with
      sends := Function.update a.sends id none
      recvs := Function.update a.recvs id none
      retired := Function.update a.retired id false }
  | granted (limit maxDataPeer : Nat) (h : maxDataPeer ≤ max a.maxDataPeer limit) : Step a .other
    { a with maxDataPeer := maxDataPeer, log := .granted limit :: a.log }
  | grantedStream (id limit : Nat) : Step a .other
    { a with log := .grantedStream id limit :: a.log }
  | extend (limit : Nat) (h : a.maxDataLocal ≤ limit) : Step a .other
    { a with maxDataLocal := limit }

theorem Step.log_subset {a a' : Accounts} {e : Act} (h : Step a e a') : a.log ⊆ a'.log := by
  cases h
  all_goals first
    | exact List.Subset.refl _
    | exact List.subset_cons_self _ _

theorem log_subset_of_path {a a' : Accounts} {A : Act → Prop} (h : Steps Step A a a') :
    a.log ⊆ a'.log :=
  h.invariant (P := fun x => a.log ⊆ x.log) (fun hs _ hstep =>
    List.Subset.trans hs hstep.log_subset) (List.Subset.refl _)

theorem Wf.start (window : Nat) : (start window).Wf where
  ring := rfl
  unis := rfl
  peers := nofun
  flight := nofun

theorem Wf.step {a a' : Accounts} {e : Act} (h : a.Wf) (hs : Step a e a') : a'.Wf := by
  -- the log only grows, so what was written stays written
  have hmono : ∀ {log' : List Entry}, (∀ x ∈ a.log, x ∈ log') →
      ∀ sp, ∀ p ∈ a.flight sp, ∀ f ∈ p.frames, .wrote f ∈ log' :=
    fun hlog sp p hp f hf => hlog _ (h.flight sp p hp f hf)
  have hcons : ∀ (e : Entry), ∀ x ∈ a.log, x ∈ e :: a.log := fun _ _ hx => List.mem_cons_of_mem _ hx
  have hflight : ∀ (sp : Space) (ps : List SentPacket),
      (∀ p ∈ ps, ∀ f ∈ p.frames, .wrote f ∈ a.log) →
      ∀ sp', ∀ p ∈ Function.update a.flight sp ps sp', ∀ f ∈ p.frames, .wrote f ∈ a.log :=
    fun sp ps hps => (Function.forall_update_iff a.flight
      (p := fun _ ps => ∀ p ∈ ps, ∀ f ∈ p.frames, .wrote f ∈ a.log)).mpr
      ⟨hps, fun sp' _ => h.flight sp'⟩
  cases hs with
  | discard sp =>
    exact ⟨h.ring, h.unis, h.peers, hflight sp [] nofun⟩
  | leave sp ps hps =>
    exact ⟨h.ring, h.unis, h.peers, hflight sp ps fun p hp => h.flight sp p (hps p hp)⟩
  | emit sp q hq =>
    refine ⟨h.ring, h.unis, h.peers, hflight sp _ fun p hp => ?_⟩
    rcases List.mem_append.mp hp with hp | hp
    · exact h.flight sp p hp
    · exact List.mem_singleton.mp hp ▸ hq
  | openBi limit window =>
    exact ⟨congrArg (· + 1) h.ring, h.unis, h.peers, hmono (hcons _)⟩
  | openUni limit =>
    refine ⟨h.ring, ?_, h.peers, hmono (hcons _)⟩
    rw [h.unis, List.range_succ, List.map_append]
    rfl
  | sent hs hnext | wrote f hf => exact ⟨h.ring, h.unis, h.peers, hmono (hcons _)⟩
  | arrived hr hids hr' hle =>
    refine ⟨h.ring, h.unis, ?_, hmono (hcons _)⟩
    rcases hids with rfl | ⟨rfl, hid⟩
    · exact h.peers
    · intro id' hid'
      rcases List.mem_append.mp hid' with hid' | hid'
      · exact h.peers id' hid'
      · exact List.mem_singleton.mp hid' ▸ hid
  | ignored id stop hi | granted limit m hm | grantedStream id limit =>
    exact ⟨h.ring, h.unis, h.peers, hmono (hcons _)⟩
  | _ => exact ⟨h.ring, h.unis, h.peers, h.flight⟩

theorem Wf.path {a a' : Accounts} {A : Act → Prop} (h : a.Wf) (hp : Steps Step A a a') : a'.Wf :=
  hp.invariant (fun h _ hs => h.step hs) h

end Accounts

/-! ## The accounts of a connection -/

namespace Connection

def isRetired (c : Connection) (id : Nat) : Bool :=
  match c.streamIndex id with
  | some i => (c.pairAt i).any (·.retired)
  | none => false

def accounts (c : Connection) : Accounts where
  sends := c.sendMut
  recvs := c.recvMut
  retired := c.isRetired
  ringEnd := c.baseStream + c.streams.length
  nextBidi := c.nextBidi
  nextUni := c.nextUni
  uniIds := c.localUni.map (·.1)
  peerIds := c.peerUni.map (·.1)
  acks := fun sp => (c.space sp).ack
  flight := fun sp => (c.space sp).sent.packets
  dataSent := c.dataSent
  maxDataPeer := c.maxDataPeer
  dataReceived := c.dataReceived
  maxDataLocal := c.maxDataLocal
  log := c.log

/-- From a connection with consistent accounts, steps that `A` allows lead to the other's. -/
def Does (A : Accounts.Act → Prop) (c c' : Connection) : Prop :=
  c.accounts.Wf → Steps Accounts.Step A c.accounts c'.accounts

namespace Does

variable {A B : Accounts.Act → Prop} {c d g : Connection}

theorem of_eq (h : d.accounts = c.accounts) : Does A c d := fun _ => h ▸ Steps.refl _

theorem refl (c : Connection) : Does A c c := of_eq rfl

theorem of_step {e : Accounts.Act} (ha : A e)
    (h : c.accounts.Wf → Accounts.Step c.accounts e d.accounts) : Does A c d :=
  fun hw => Steps.single ha (h hw)

theorem trans (h₁ : Does A c d) (h₂ : Does A d g) : Does A c g :=
  fun hw => (h₁ hw).trans (h₂ (hw.path (h₁ hw)))

theorem after (h : Does A d g) (heq : d.accounts = c.accounts) : Does A c g :=
  (of_eq heq).trans h

theorem mono (hAB : ∀ e, A e → B e) (h : Does A c d) : Does B c d :=
  fun hw => (h hw).mono hAB

/-- For a call that was taken apart into its value and the connection behind it. -/
theorem of_result {α : Type} {r : α × Connection} {a : α} (hr : r = (a, d)) (h : Does A c r.2) :
    Does A c d := by
  rw [hr] at h
  exact h

/-- What is about frames that were written: they stay written. -/
theorem written (A : Accounts.Act → Prop) (fs : List SentFrame) :
    Composes fun c d : Connection => (∀ f ∈ fs, .wrote f ∈ c.log) → Does A c d where
  refl c _ := refl c
  trans h h' hc hw := by
    have h₁ := h hc hw
    have hlog := Accounts.log_subset_of_path h₁
    exact h₁.trans (h' (fun f hf => hlog (hc f hf)) (hw.path h₁))

end Does

end Connection

end Shb.Quic
