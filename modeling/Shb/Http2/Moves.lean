import Shb.Http2.Conn

/-!
# What a received frame can do

The handlers of `http2/conn.rs` differ in what they accept, but there are only a few things
they do to a connection. `Move` lists them once, with the events that are emitted and the frames
that are queued; every handler, and so every received byte, is a sequence of moves, whether it
fails or not. Invariants are then proved of moves.
-/

namespace Shb.Http2

open Lib

/-! ## Frames on the wire -/

structure Wire where
  kind : UInt8
  flags : UInt8
  stream : Nat
  payload : Bytes
  deriving DecidableEq, Repr

namespace Wire

def bytes (f : Wire) : Bytes :=
  (be32 f.payload.length).drop 1 ++ [f.kind, f.flags] ++ be32 f.stream ++ f.payload

/-- A frame of the connection's own: an answer to the peer, or credit. -/
def Control (f : Wire) : Prop :=
  (f.kind = FrameType.windowUpdate ∨ f.kind = FrameType.settings ∨ f.kind = FrameType.ping) ∧
    f.stream = 0 ∧ f.payload.length ≤ 8

end Wire

/-- The stream an event says is over. -/
def Event.endedStream : Event → Option Nat
  | .finished id => some id
  | .reset id => some id
  | .unprocessed id => some id
  | .status .. => none
  | .goaway => none

namespace Connection

/-! ## Moves -/

/-- Nothing of what decides about requests has changed. -/
structure Quiet (c c' : Connection) (events : List Event) (sent : List Wire) : Prop where
  nextId : c'.nextId = c.nextId
  opens : c'.opens = c.opens
  sendWindow : c'.sendWindow = c.sendWindow
  peerInitialWindow : c'.peerInitialWindow = c.peerInitialWindow
  peerMaxFrame : c'.peerMaxFrame = c.peerMaxFrame
  tableSizeUpdate : c'.tableSizeUpdate = c.tableSizeUpdate
  pending : c'.pending = c.pending
  preface : c.peerPrefaceSeen = true → c'.peerPrefaceSeen = true
  out : c'.out = c.out ++ sent.flatMap Wire.bytes
  control : ∀ f ∈ sent, f.Control
  events : ∀ e ∈ events, e.endedStream = none

inductive Move (c : Connection) : List Event → List Wire → Connection → Prop
  | quiet {c' : Connection} {events : List Event} {sent : List Wire}
      (h : Quiet c c' events sent) : Move c events sent c'
  /-- A stream the peer ended, one way or another. -/
  | finish {stream : Nat} {event : Event} (he : event.endedStream = some stream) :
      Move c (if (c.opens.take stream).1.isSome then [event] else []) []
        { c with opens := (c.opens.take stream).2 }
  | goaway (last : Nat) :
      Move c ((c.opens.retireAfter last).1.map (fun s => .unprocessed s.id) ++ [.goaway]) []
        { c with goaway := true, opens := (c.opens.retireAfter last).2 }
  | initialWindow {value : Nat} (h : value ≤ maxWindow) :
      Move c [] []
        { c with
          peerInitialWindow := value
          opens := c.opens.mapLive fun s =>
            { s with window := s.window + ((value : Int) - c.peerInitialWindow) } }
  | maxFrame {value : Nat} (h : defaultMaxFrame ≤ value ∧ value ≤ maxFrameCeiling) :
      Move c [] [] { c with peerMaxFrame := value }
  | tableSize (value : Nat) :
      Move c [] [] { c with tableSize := value, tableSizeUpdate := some value }
  | credit (n : Nat) : Move c [] [] { c with sendWindow := c.sendWindow + n }
  | streamCredit (stream n : Nat) :
      Move c [] []
        { c with opens := c.opens.modify stream fun s => { s with window := s.window + n } }

/-- Moves one after another, with their events and frames in order. -/
inductive Moved (c : Connection) : List Event → List Wire → Connection → Prop
  | refl : Moved c [] [] c
  | snoc {c₁ c₂ : Connection} {ev₁ ev₂ : List Event} {fs₁ fs₂ : List Wire} :
      Moved c ev₁ fs₁ c₁ → Move c₁ ev₂ fs₂ c₂ → Moved c (ev₁ ++ ev₂) (fs₁ ++ fs₂) c₂

variable {c' : Connection} {P : Connection → Prop}

theorem Move.moved {c : Connection} {ev : List Event} {fs : List Wire} (h : Move c ev fs c') :
    Moved c ev fs c' := Moved.refl.snoc h

theorem Moved.trans {c c₁ c₂ : Connection} {ev₁ ev₂ : List Event} {fs₁ fs₂ : List Wire}
    (h₁ : Moved c ev₁ fs₁ c₁) (h₂ : Moved c₁ ev₂ fs₂ c₂) :
    Moved c (ev₁ ++ ev₂) (fs₁ ++ fs₂) c₂ := by
  induction h₂ with
  | refl => rw [List.append_nil, List.append_nil]; exact h₁
  | snoc _ hm ih => rw [← List.append_assoc, ← List.append_assoc]; exact ih.snoc hm

/-- What each move keeps, moves keep. -/
theorem Moved.invariant
    (hstep : ∀ {c c' : Connection} {ev : List Event} {fs : List Wire}, P c → Move c ev fs c' → P c')
    {c : Connection} {ev : List Event} {fs : List Wire} (h : Moved c ev fs c') (hc : P c) :
    P c' := by
  induction h with
  | refl => exact hc
  | snoc _ hm ih => exact hstep ih hm

theorem Move.nextId {c : Connection} {ev : List Event} {fs : List Wire} (h : Move c ev fs c') :
    c'.nextId = c.nextId := by
  cases h with
  | quiet hq => exact hq.nextId
  | _ => rfl

/-- A handler that was given `events` and left `r`. -/
def Reaches (c : Connection) (events : List Event) (r : Connection × List Event) : Prop :=
  ∃ new sent, r.2 = events ++ new ∧ Moved c new sent r.1

namespace Reaches

variable {c c₁ : Connection} {events ev₁ : List Event} {r : Connection × List Event}

theorem refl (c : Connection) (events : List Event) : Reaches c events (c, events) :=
  ⟨[], [], (List.append_nil _).symm, .refl⟩

theorem of_move (events : List Event) {new : List Event} {sent : List Wire}
    (h : Move c new sent c₁) : Reaches c events (c₁, events ++ new) := ⟨new, sent, rfl, h.moved⟩

theorem trans (h₁ : Reaches c events (c₁, ev₁)) (h₂ : Reaches c₁ ev₁ r) : Reaches c events r := by
  obtain ⟨new₁, sent₁, rfl, hm₁⟩ := h₁
  obtain ⟨new₂, sent₂, heq, hm₂⟩ := h₂
  exact ⟨new₁ ++ new₂, sent₁ ++ sent₂, by rw [heq, List.append_assoc], hm₁.trans hm₂⟩

theorem after (h₂ : Reaches c₁ ev₁ r) (h₁ : Reaches c events (c₁, ev₁)) : Reaches c events r :=
  h₁.trans h₂

theorem nextId (h : Reaches c events r) : r.1.nextId = c.nextId := by
  obtain ⟨_, _, _, hm⟩ := h
  exact hm.invariant (P := fun d => d.nextId = c.nextId) (fun h hm => hm.nextId.trans h) rfl

theorem of_silent {sent : List Wire} (h : Move c [] sent c₁) : Reaches c events (c₁, events) := by
  have hmove := of_move events h
  rwa [List.append_nil] at hmove

end Reaches

/-! ## The handlers -/

/-- A change that is only to what the reader remembers of a header block. -/
theorem Quiet.of_eq {c : Connection} (hn : c'.nextId = c.nextId) (ho : c'.opens = c.opens)
    (hs : c'.sendWindow = c.sendWindow) (hi : c'.peerInitialWindow = c.peerInitialWindow)
    (hf : c'.peerMaxFrame = c.peerMaxFrame) (ht : c'.tableSizeUpdate = c.tableSizeUpdate)
    (hp : c'.pending = c.pending) (hpre : c.peerPrefaceSeen = true → c'.peerPrefaceSeen = true)
    (hout : c'.out = c.out) : Quiet c c' [] [] :=
  ⟨hn, ho, hs, hi, hf, ht, hp, hpre, by simpa using hout, by simp, by simp⟩

variable (c)

theorem finishStream_reaches {stream : Nat} {event : Event} (he : event.endedStream = some stream)
    (events : List Event) : Reaches c events (c.finishStream stream event events) := by
  have hmove := Reaches.of_move events (Move.finish (c := c) he)
  have heq : c.finishStream stream event events =
      ({ c with opens := (c.opens.take stream).2 },
        events ++ if (c.opens.take stream).1.isSome then [event] else []) := by
    unfold finishStream
    cases h : (c.opens.take stream).1 with
    | none => simp [h]
    | some s => simp [h]
  rw [heq]
  exact hmove

theorem quiet_control {c : Connection} {f : Wire} (hf : f.Control)
    (hq : Quiet c { c' with out := c.out } [] []) (hout : c'.out = c.out ++ f.bytes) :
    Quiet c c' [] [f] :=
  ⟨hq.nextId, hq.opens, hq.sendWindow, hq.peerInitialWindow, hq.peerMaxFrame, hq.tableSizeUpdate,
    hq.pending, hq.preface, by simpa using hout, by simpa using hf, by simp⟩

theorem onData_reaches (stream : Nat) (flags : UInt8) (payload : Bytes)
    (events : List Event) : Reaches c events (c.onData stream flags payload events) := by
  unfold onData
  have hconsumed : ∀ {c₁ : Connection},
      c₁ = (if windowRefresh ≤ c.recvConsumed + payload.length then
        { c with recvConsumed := 0 }.windowUpdate 0 (c.recvConsumed + payload.length)
        else { c with recvConsumed := c.recvConsumed + payload.length }) →
      Reaches c events (c₁, events) := by
    intro c₁ hc₁
    subst hc₁
    split
    · refine Reaches.of_silent (.quiet (quiet_control
        (f := ⟨FrameType.windowUpdate, 0, 0, be32 (c.recvConsumed + payload.length)⟩)
        ⟨Or.inl rfl, rfl, by simp [be32]⟩ (.of_eq rfl rfl rfl rfl rfl rfl rfl id rfl) ?_))
      simp [windowUpdate, frameHeader, Wire.bytes, be32]
    · exact Reaches.of_silent (.quiet (.of_eq rfl rfl rfl rfl rfl rfl rfl id rfl))
  split
  · exact (hconsumed rfl).trans (finishStream_reaches _ rfl events)
  · exact hconsumed rfl

theorem completeHeaders_reaches (stream : Nat) (endStream : Bool)
    (block : Bytes) (events : List Event) :
    Reaches c events (c.completeHeaders stream endStream block events).2 := by
  unfold completeHeaders
  cases findStatus block with
  | error e => exact Reaches.refl c events
  | ok found =>
    -- the status, and then the end of the stream
    have hfinish : ∀ ev, Reaches c events (c, ev) → Reaches c events
        (if endStream then (Except.ok (), c.finishStream stream (.finished stream) ev)
          else (Except.ok (), c, ev) : Handled).2 := by
      intro ev hev
      split
      · exact hev.trans (finishStream_reaches c rfl ev)
      · exact hev
    refine hfinish _ ?_
    cases found with
    | none => exact Reaches.refl c events
    | some status =>
      dsimp only
      split
      · exact Reaches.refl c events
      · have hquiet : Quiet c c [.status stream status] [] :=
          ⟨rfl, rfl, rfl, rfl, rfl, rfl, rfl, id, by simp, by simp, by simp [Event.endedStream]⟩
        exact Reaches.of_move events (.quiet hquiet)

theorem onHeaders_reaches (stream : Nat) (flags : UInt8) (payload : Bytes)
    (events : List Event) : Reaches c events (c.onHeaders stream flags payload events).2 := by
  unfold onHeaders
  split
  · exact Reaches.refl c events
  · split
    · exact Reaches.refl c events
    · split
      · exact completeHeaders_reaches c _ _ _ _
      · exact Reaches.of_silent (.quiet (.of_eq rfl rfl rfl rfl rfl rfl rfl id rfl))

theorem onContinuation_reaches (stream : Nat) (flags : UInt8) (payload : Bytes)
    (events : List Event) : Reaches c events (c.onContinuation stream flags payload events).2 := by
  unfold onContinuation
  split
  · exact Reaches.refl c events
  · dsimp only
    split
    · exact Reaches.of_silent (.quiet (.of_eq rfl rfl rfl rfl rfl rfl rfl id rfl))
    · exact (completeHeaders_reaches _ _ _ _ _).after
        (Reaches.of_silent (.quiet (.of_eq rfl rfl rfl rfl rfl rfl rfl id rfl)))

theorem onSetting_reaches (key value : Nat) (events : List Event) :
    Reaches c events ((c.onSetting key value).2, events) := by
  unfold onSetting
  split
  · exact Reaches.of_silent (.tableSize value)
  · split
    · exact Reaches.of_silent (.quiet (.of_eq rfl rfl rfl rfl rfl rfl rfl id rfl))
    · split
      · split
        · rename_i h
          exact Reaches.of_silent (.initialWindow h)
        · exact Reaches.refl c events
      · split
        · split
          · rename_i h
            exact Reaches.of_silent (.maxFrame h)
          · exact Reaches.refl c events
        · exact Reaches.refl c events

variable {c}

theorem applySettings_reaches (events : List Event) (entries : List (Nat × Nat)) :
    ∀ c : Connection, Reaches c events ((c.applySettings entries).2, events) := by
  induction entries with
  | nil => exact fun c => Reaches.refl c events
  | cons entry entries ih =>
    intro c
    obtain ⟨key, value⟩ := entry
    have hone := onSetting_reaches c key value events
    unfold applySettings
    rcases h : c.onSetting key value with ⟨r, c'⟩
    rw [h] at hone
    cases r with
    | error e => exact hone
    | ok _ => exact hone.trans (ih c')

theorem onSettings_reaches (c : Connection) (flags : UInt8) (payload : Bytes)
    (events : List Event) : Reaches c events ((c.onSettings flags payload).2, events) := by
  have hall := applySettings_reaches events (settingEntries payload) c
  unfold onSettings
  split
  · exact Reaches.refl c events
  · split
    · exact Reaches.refl c events
    · rcases h : c.applySettings (settingEntries payload) with ⟨r, c'⟩
      rw [h] at hall
      cases r with
      | error e => exact hall
      | ok _ =>
        dsimp only
        -- the limit it did not name, and the acknowledgement
        have hack : ∀ c₁ : Connection, Reaches c₁ events
            (c₁.frameHeader 0 FrameType.settings flagAck 0, events) := by
          intro c₁
          refine Reaches.of_silent (.quiet (quiet_control
            (f := ⟨FrameType.settings, flagAck, 0, []⟩)
            ⟨Or.inr (Or.inl rfl), rfl, by decide⟩ (.of_eq rfl rfl rfl rfl rfl rfl rfl id rfl) ?_))
          simp [frameHeader, Wire.bytes]
        split
        · refine hall.trans (Reaches.after (hack _) ?_)
          exact Reaches.of_silent (.quiet (.of_eq rfl rfl rfl rfl rfl rfl rfl id rfl))
        · exact hall.trans (hack c')

theorem onWindowUpdate_reaches (c : Connection) (stream : Nat) (payload : Bytes)
    (events : List Event) : Reaches c events ((c.onWindowUpdate stream payload).2, events) := by
  unfold onWindowUpdate
  split
  · exact Reaches.refl c events
  · dsimp only
    split
    · exact Reaches.of_silent (.credit _)
    · exact Reaches.of_silent (.streamCredit stream _)

theorem onPing_reaches (c : Connection) (stream : Nat) (flags : UInt8) (payload : Bytes)
    (events : List Event) : Reaches c events ((c.onPing stream flags payload).2, events) := by
  unfold onPing
  split
  · exact Reaches.refl c events
  · split
    · exact Reaches.refl c events
    · split
      · rename_i hlen _
        have hlen : payload.length = 8 := not_not.mp hlen
        refine Reaches.of_silent (.quiet (quiet_control (f := ⟨FrameType.ping, flagAck, 0, payload⟩)
          ⟨Or.inr (Or.inr rfl), rfl, Nat.le_of_eq hlen⟩
          (.of_eq rfl rfl rfl rfl rfl rfl rfl id rfl) ?_))
        simp [frameHeader, Wire.bytes, hlen]
      · exact Reaches.refl c events

theorem onRstStream_reaches (c : Connection) (stream : Nat) (payload : Bytes)
    (events : List Event) : Reaches c events (c.onRstStream stream payload events).2 := by
  unfold onRstStream
  split
  · exact Reaches.refl c events
  · refine finishStream_reaches c ?_ events
    split <;> rfl

theorem onGoaway_reaches (c : Connection) (payload : Bytes) (events : List Event) :
    Reaches c events (c.onGoaway payload events).2 := by
  unfold onGoaway
  split
  · exact Reaches.refl c events
  · have hmove := Reaches.of_move events
      (Move.goaway (c := c) (fromBe (payload.take 4) % 2 ^ 31))
    rw [← List.append_assoc] at hmove
    exact hmove

/-- Whatever a frame says, it makes moves. -/
theorem onFrame_reaches (c : Connection) (kind flags : UInt8) (stream : Nat) (payload : Bytes)
    (events : List Event) : Reaches c events (c.onFrame kind flags stream payload events).2 := by
  unfold onFrame
  split
  · exact Reaches.refl c events
  split
  · exact onData_reaches c _ _ _ _
  split
  · exact onHeaders_reaches c _ _ _ _
  split
  · exact onContinuation_reaches c _ _ _ _
  split
  · exact onSettings_reaches c _ _ _
  split
  · exact onWindowUpdate_reaches c _ _ _
  split
  · exact onPing_reaches c _ _ _ _
  split
  · exact onRstStream_reaches c _ _ _
  split
  · exact onGoaway_reaches c _ _
  · exact Reaches.refl c events

theorem checkPreface_reaches {c c' : Connection} {kind flags : UInt8} (events : List Event)
    (h : c.checkPreface kind flags = .ok c') : Reaches c events (c', events) := by
  unfold checkPreface at h
  split at h
  · cases h
    exact Reaches.refl c events
  · split at h
    · cases h
    · cases h
      exact Reaches.of_silent (.quiet (.of_eq rfl rfl rfl rfl rfl rfl rfl (fun _ => rfl) rfl))

theorem frames_reaches (fuel : Nat) : ∀ (c : Connection) (buf : Bytes) (events : List Event),
    Reaches c events (frames fuel c buf events).2 := by
  induction fuel with
  | zero => exact fun c _ events => Reaches.refl c events
  | succ fuel ih =>
    intro c buf events
    unfold frames
    split
    · split
      · exact Reaches.refl c events
      · rename_i c' hpre
        have hc := checkPreface_reaches events hpre
        dsimp only
        split
        · exact hc
        · rename_i l0 l1 l2 kind flags s0 s1 s2 s3 rest _ _
          have hone := onFrame_reaches c' kind flags (fromBe [s0 &&& 0x7f, s1, s2, s3])
            (rest.take (fromBe [l0, l1, l2])) events
          split
          · rename_i heq
            rw [heq] at hone
            exact hc.trans hone
          · rename_i heq
            rw [heq] at hone
            exact (hc.trans hone).trans (ih _ _ _)
    · exact Reaches.refl c events

theorem run_reaches (c : Connection) (buf : Bytes) (events : List Event) :
    Reaches c events (run c buf events).2 := by
  unfold run
  split
  · exact Reaches.refl c events
  · exact frames_reaches _ _ _ _

/-- Received bytes make moves, up to what is kept of a partial frame. -/
theorem feed_reaches (c : Connection) (data : Bytes) (events : List Event) :
    ∃ c', Reaches { c with pending := [] } events (c', (c.feed data events).2.2) ∧
      (c.feed data events).2.1 = { c' with pending := (c.feed data events).2.1.pending } := by
  have hrun := run_reaches { c with pending := [] } (c.pending ++ data) events
  unfold feed
  split
  · rename_i heq
    rw [heq] at hrun
    exact ⟨_, hrun, rfl⟩
  · rename_i heq
    rw [heq] at hrun
    exact ⟨_, hrun, rfl⟩

/-- No byte a peer can send changes the id the next stream will get. -/
theorem nextId_feed (c : Connection) (data : Bytes) (events : List Event) :
    (c.feed data events).2.1.nextId = c.nextId := by
  obtain ⟨c', hr, heq⟩ := feed_reaches c data events
  rw [heq]
  exact hr.nextId

/-! ## Opening a stream, in its parts -/

/-- The block as it goes out: behind the table size update the peer is owed, if one is. -/
def ownBlock (c : Connection) (block : Bytes) : Bytes :=
  match c.tableSizeUpdate with
  | some size => sizeUpdate size ++ block
  | none => block

/-- The frames of a header block. -/
def writeHeaders (c : Connection) (stream : Nat) (endStream : UInt8) (block : Bytes) : Connection :=
  if block.length ≤ c.peerMaxFrame then
    let c := c.frameHeader block.length FrameType.headers (flagEndHeaders ||| endStream) stream
    { c with out := c.out ++ block }
  else headerFrames block.length c stream endStream true block

theorem headerFrames_out (fuel : Nat) : ∀ (c : Connection) (stream : Nat) (endStream : UInt8)
    (first : Bool) (block : Bytes), headerFrames fuel c stream endStream first block =
      { c with out := (headerFrames fuel c stream endStream first block).out } := by
  induction fuel with
  | zero => exact fun _ _ _ _ _ => rfl
  | succ fuel ih =>
    intro c stream endStream first block
    unfold headerFrames
    dsimp only
    split
    · rfl
    · rw [ih]
      rfl

theorem writeHeaders_out (c : Connection) (stream : Nat) (endStream : UInt8)
    (block : Bytes) : c.writeHeaders stream endStream block =
      { c with out := (c.writeHeaders stream endStream block).out } := by
  unfold writeHeaders
  split
  · rfl
  · exact headerFrames_out _ _ _ _ _ _

/-- The connection once the headers are written, before anything of the body is. -/
def opening (c : Connection) (block body : Bytes) : Connection :=
  let c₁ := { c with
    nextId := min (c.nextId + 2) (2 ^ 32 - 1), tableSizeUpdate := none }.writeHeaders
    c.nextId (if body.isEmpty then flagEndStream else 0) (c.ownBlock block)
  { c₁ with
    opens := c₁.opens.push c.nextId { id := c.nextId, sent := 0, window := c₁.peerInitialWindow } }

theorem opens_opening (c : Connection) (block body : Bytes) :
    (c.opening block body).opens = c.opens.push c.nextId
      { id := c.nextId, sent := 0, window := c.peerInitialWindow } := by
  unfold opening
  rw [writeHeaders_out]

theorem nextId_opening (c : Connection) (block body : Bytes) :
    (c.opening block body).nextId = min (c.nextId + 2) (2 ^ 32 - 1) := by
  unfold opening
  rw [writeHeaders_out]

/-! ## Sending a body, frame by frame -/

/-- How much of the body the next DATA of a stream carries. -/
def share (c : Connection) (s : OpenStream) (body : Bytes) : Nat :=
  min (min (body.length - s.sent) c.peerMaxFrame) (max (min c.sendWindow s.window) 0).toNat

/-- The DATA frame a round of `write_body` sends. -/
def slice (c : Connection) (s : OpenStream) (body : Bytes) : Wire where
  kind := FrameType.data
  flags := if s.sent + c.share s body = body.length then flagEndStream else 0
  stream := s.id
  payload := (body.drop s.sent).take (c.share s body)

/-- The connection after a round of `write_body`. -/
def sendSlice (c : Connection) (pos : Nat) (s : OpenStream) (body : Bytes) : Connection :=
  { c with
    out := c.out ++ (c.slice s body).bytes
    opens := c.opens.slotModify pos fun s' =>
      { s' with sent := s'.sent + c.share s body, window := s'.window - c.share s body }
    sendWindow := c.sendWindow - c.share s body }

theorem length_slice (c : Connection) (s : OpenStream) (body : Bytes) :
    (c.slice s body).payload.length = c.share s body := by
  have hle : c.share s body ≤ body.length - s.sent :=
    Nat.le_trans (Nat.min_le_left _ _) (Nat.min_le_left _ _)
  show ((body.drop s.sent).take _).length = _
  rw [List.length_take, List.length_drop, Nat.min_eq_left hle]

theorem writeBody_succ (fuel : Nat) (c : Connection) (pos : Nat) (body : Bytes) :
    writeBody (fuel + 1) c pos body =
      match c.opens.slot pos with
      | none => c
      | some s =>
        if body.length ≤ s.sent ∨ c.share s body = 0 then c
        else writeBody fuel (c.sendSlice pos s body) pos body := by
  rw [writeBody]
  cases c.opens.slot pos with
  | none => rfl
  | some s =>
    refine if_congr Iff.rfl rfl (congrArg (writeBody fuel · pos body) ?_)
    have hlen := length_slice c s body
    simp only [sendSlice, Wire.bytes, hlen, frameHeader, List.append_assoc]
    rfl

/-- What every round keeps, `write_body` keeps. -/
theorem writeBody_invariant {pos : Nat} {body : Bytes}
    (hround : ∀ c s, P c → c.opens.slot pos = some s → s.sent < body.length →
      0 < c.share s body → P (c.sendSlice pos s body)) (fuel : Nat) :
    ∀ {c : Connection}, P c → P (writeBody fuel c pos body) := by
  induction fuel with
  | zero => exact fun h => h
  | succ fuel ih =>
    intro c h
    rw [writeBody_succ]
    split
    · exact h
    · rename_i s hs
      split
      · exact h
      · rename_i hgo
        rw [not_or, Nat.not_le] at hgo
        exact ih (hround c s h hs hgo.1 (Nat.pos_of_ne_zero hgo.2))

theorem pumpBodies_invariant {body : Bytes}
    (hround : ∀ c pos s, P c → c.opens.slot pos = some s → s.sent < body.length →
      0 < c.share s body → P (c.sendSlice pos s body)) {c : Connection} (h : P c) :
    P (c.pumpBodies body) := by
  unfold pumpBodies
  split
  · exact h
  · generalize List.range c.opens.slotCount = positions
    induction positions generalizing c with
    | nil => exact h
    | cons pos positions ih =>
      exact ih (writeBody_invariant (fun c s => hround c pos s) body.length h)

theorem startStream_refused {c : Connection} (h : c.canOpen = false) (block body : Bytes) :
    c.startStream block body = (none, c) := by
  rw [startStream, h]
  rfl

theorem startStream_opened {c : Connection} (h : c.canOpen = true) (block body : Bytes) :
    c.startStream block body =
      (some c.nextId,
        if body.isEmpty then c.opening block body
        else writeBody body.length (c.opening block body)
          ((c.opening block body).opens.slotCount - 1) body) := by
  rw [startStream, h]
  rfl

end Connection

end Shb.Http2
