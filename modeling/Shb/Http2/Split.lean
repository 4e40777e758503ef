import Shb.Http2.Moves
import Shb.Http2.Worker

/-!
# Reading does not depend on where the receives end

A receive can end anywhere, so `feed` keeps what is left of a partial frame and starts from it
the next time. Two things are decided before a frame is whole and could tell: that the answer
to the preface is an HTTP/1.1 status line, from five octets, and that the first frame is a
SETTINGS, from its header. `Waiting` is what every connection keeps of them between receives.
-/

namespace Shb.Http2

open Lib

namespace Connection

/-! ## The loop over frames -/

variable {buf : Bytes} {c c' : Connection} {events : List Event} {fuel : Nat}

theorem frames_short (h : buf.length < 9) : frames fuel c buf events = (.ok buf, c, events) := by
  cases fuel with
  | zero => rfl
  | succ fuel =>
    unfold frames
    split
    · simp only [List.length_cons] at h
      omega
    · rfl

theorem header_of_length (h : 9 ≤ buf.length) :
    ∃ l0 l1 l2 kind flags s0 s1 s2 s3 rest,
      buf = l0 :: l1 :: l2 :: kind :: flags :: s0 :: s1 :: s2 :: s3 :: rest := by
  match buf, h with
  | l0 :: l1 :: l2 :: kind :: flags :: s0 :: s1 :: s2 :: s3 :: rest, _ =>
    exact ⟨l0, l1, l2, kind, flags, s0, s1, s2, s3, rest, rfl⟩

theorem frames_fuel (n : Nat) : ∀ {m : Nat} {c : Connection} {buf : Bytes}
    {events : List Event}, buf.length ≤ n → buf.length ≤ m →
    frames n c buf events = frames m c buf events := by
  induction n with
  | zero =>
    intro m c buf events hn hm
    rw [frames_short (by omega), frames_short (by omega)]
  | succ n ih =>
    intro m c buf events hn hm
    by_cases h9 : buf.length < 9
    · rw [frames_short h9, frames_short h9]
    · obtain ⟨l0, l1, l2, kind, flags, s0, s1, s2, s3, rest, rfl⟩ :=
        header_of_length (Nat.not_lt.mp h9)
      simp only [List.length_cons] at hn hm
      cases m with
      | zero => omega
      | succ m =>
        have hrest : ∀ (c : Connection) (len : Nat) (events : List Event),
            frames n c (rest.drop len) events = frames m c (rest.drop len) events :=
          fun c len events => ih (by rw [List.length_drop]; omega) (by rw [List.length_drop]; omega)
        simp only [frames, hrest]

theorem checkPreface_seen (h : c.peerPrefaceSeen = true) (kind flags : UInt8) :
    c.checkPreface kind flags = .ok c := by
  rw [checkPreface, if_pos h]

theorem seen_of_checkPreface {kind flags : UInt8} (h : c.checkPreface kind flags = .ok c') :
    c'.peerPrefaceSeen = true := by
  unfold checkPreface at h
  split at h
  · cases h
    assumption
  · split at h
    · cases h
    · cases h
      rfl

/-- The frames of two pieces: those of the first, then those of what it left and the second. -/
def resume (r : Except FrameError Bytes × Connection × List Event) (more : Bytes) :
    Except FrameError Bytes × Connection × List Event :=
  match r with
  | (.error e, c, events) => (.error e, c, events)
  | (.ok rest, c, events) => frames (rest ++ more).length c (rest ++ more) events

theorem frames_append (n : Nat) : ∀ {m : Nat} {c : Connection} {a b : Bytes}
    {events : List Event}, a.length ≤ n → (a ++ b).length ≤ m →
    frames m c (a ++ b) events = resume (frames n c a events) b := by
  induction n with
  | zero =>
    intro m c a b events _ hm
    exact frames_fuel m hm (Nat.le_refl _)
  | succ n ih =>
    intro m c a b events hn hm
    by_cases h9 : a.length < 9
    · rw [frames_short h9]
      exact frames_fuel m hm (Nat.le_refl _)
    · obtain ⟨l0, l1, l2, kind, flags, s0, s1, s2, s3, rest, rfl⟩ :=
        header_of_length (Nat.not_lt.mp h9)
      obtain ⟨m, rfl⟩ := Nat.exists_eq_succ_of_ne_zero (show m ≠ 0 by
        simp only [List.cons_append, List.length_cons] at hm
        omega)
      simp only [List.length_cons] at hn
      by_cases hlen : rest.length < fromBe [l0, l1, l2]
      · -- A partial frame: its header is read again with what follows, to the same effect.
        simp only [List.cons_append, frames]
        cases hpre : c.checkPreface kind flags with
        | error e => rfl
        | ok c₁ =>
          dsimp only
          rw [if_pos hlen]
          refine Eq.trans ?_ (frames_fuel (m + 1) hm (Nat.le_refl _))
          simp [frames, checkPreface_seen (seen_of_checkPreface hpre)]
      · have hlen := Nat.not_lt.mp hlen
        simp only [List.cons_append, List.length_cons, List.length_append] at hm
        simp only [List.cons_append, frames]
        cases hpre : c.checkPreface kind flags with
        | error e => rfl
        | ok c₁ =>
          dsimp only
          rw [if_neg (Nat.not_lt.mpr hlen), if_neg (by rw [List.length_append]; omega),
            List.take_append_of_le_length hlen, List.drop_append_of_le_length hlen]
          rcases c₁.onFrame kind flags (fromBe [s0 &&& 0x7f, s1, s2, s3])
            (rest.take (fromBe [l0, l1, l2])) events with ⟨r, c₂, events₂⟩
          cases r with
          | error e => rfl
          | ok _ =>
            exact ih (by rw [List.length_drop]; omega)
              (by rw [List.length_append, List.length_drop]; omega)

/-! ## Between receives -/

/-- A whole frame's worth of octets is not there yet. -/
def Unfinished (buf : Bytes) : Prop :=
  match buf with
  | l0 :: l1 :: l2 :: _ :: _ :: _ :: _ :: _ :: _ :: rest => rest.length < fromBe [l0, l1, l2]
  | _ => True

/-- What is carried over between two receives has been looked at already: it holds no frame,
its header if it has one has passed the preface's check, and it is no status line. -/
structure Waiting (c : Connection) : Prop where
  part : Unfinished c.pending
  seen : 9 ≤ c.pending.length → c.peerPrefaceSeen = true
  http : c.peerPrefaceSeen = false → httpSlash.isPrefixOf c.pending = false

theorem Waiting.of_nil (h : c.pending = []) : c.Waiting where
  part := by rw [h]; trivial
  seen hlen := by rw [h] at hlen; exact absurd hlen (by simp)
  http _ := by rw [h]; rfl

/-- What the writing half leaves alone. -/
def reader (c : Connection) : Bytes × Bool := (c.pending, c.peerPrefaceSeen)

theorem Waiting.of_reader (h : c.Waiting) (heq : c'.reader = c.reader) : c'.Waiting := by
  obtain ⟨hp, hs⟩ := Prod.ext_iff.mp heq
  simp only [reader] at hp hs
  exact ⟨hp ▸ h.part, fun hlen => hs ▸ h.seen (hp ▸ hlen), fun hseen => hp ▸ h.http (hs ▸ hseen)⟩

theorem seen_frames {rest : Bytes} {events' : List Event}
    (h : frames fuel c buf events = (.ok rest, c', events')) (hc : c.peerPrefaceSeen = true) :
    c'.peerPrefaceSeen = true := by
  obtain ⟨new, sent, _, hmoved⟩ := frames_reaches fuel c buf events
  rw [h] at hmoved
  refine hmoved.invariant (P := fun c => c.peerPrefaceSeen = true) (fun hp hm => ?_) hc
  cases hm with
  | quiet hq => exact hq.preface hp
  | _ => exact hp

/-- Once a header has been read, the preface has been seen. -/
theorem seen_of_frames {rest : Bytes} {events' : List Event}
    (h : frames fuel c buf events = (.ok rest, c', events')) (hfuel : buf.length ≤ fuel)
    (h9 : 9 ≤ buf.length) : c'.peerPrefaceSeen = true := by
  obtain ⟨fuel, rfl⟩ := Nat.exists_eq_succ_of_ne_zero (show fuel ≠ 0 by omega)
  obtain ⟨l0, l1, l2, kind, flags, s0, s1, s2, s3, tail, rfl⟩ := header_of_length h9
  simp only [frames] at h
  cases hpre : c.checkPreface kind flags with
  | error e => rw [hpre] at h; cases h
  | ok c₁ =>
    have hseen := seen_of_checkPreface hpre
    -- From a connection that has seen it, the same call gives the same.
    have hsame : frames (fuel + 1) c₁
        (l0 :: l1 :: l2 :: kind :: flags :: s0 :: s1 :: s2 :: s3 :: tail) events =
        (.ok rest, c', events') := by
      simp only [frames, checkPreface_seen hseen]
      rw [hpre] at h
      exact h
    exact seen_frames hsame hseen

theorem unfinished_frames (fuel : Nat) : ∀ {c c' : Connection} {buf rest : Bytes}
    {events events' : List Event}, buf.length ≤ fuel →
    frames fuel c buf events = (.ok rest, c', events') →
    Unfinished rest ∧ (9 ≤ rest.length → 9 ≤ buf.length) ∧
      (buf.length < 9 → rest = buf ∧ c' = c) := by
  induction fuel with
  | zero =>
    intro c c' buf rest events events' hlen h
    have hnil : buf = [] := List.eq_nil_of_length_eq_zero (Nat.le_zero.mp hlen)
    subst hnil
    cases h
    exact ⟨trivial, id, fun _ => ⟨rfl, rfl⟩⟩
  | succ fuel ih =>
    intro c c' buf rest events events' hlen h
    by_cases h9 : buf.length < 9
    · rw [frames_short h9] at h
      cases h
      refine ⟨?_, id, fun _ => ⟨rfl, rfl⟩⟩
      unfold Unfinished
      split
      · simp only [List.length_cons] at h9
        omega
      · trivial
    · refine ⟨?_, fun _ => Nat.not_lt.mp h9, fun hlt => absurd hlt h9⟩
      obtain ⟨l0, l1, l2, kind, flags, s0, s1, s2, s3, tail, rfl⟩ :=
        header_of_length (Nat.not_lt.mp h9)
      simp only [frames] at h
      cases hpre : c.checkPreface kind flags with
      | error e => rw [hpre] at h; cases h
      | ok c₁ =>
        rw [hpre] at h
        dsimp only at h
        split at h
        · rename_i hshort
          cases h
          exact hshort
        · rcases hframe : c₁.onFrame kind flags (fromBe [s0 &&& 0x7f, s1, s2, s3])
            (tail.take (fromBe [l0, l1, l2])) events with ⟨r, c₂, events₂⟩
          rw [hframe] at h
          cases r with
          | error e => cases h
          | ok _ =>
            simp only [List.length_cons] at hlen
            exact (ih (by rw [List.length_drop]; omega) h).1

theorem waiting_feed (data : Bytes) (events : List Event) : (c.feed data events).2.1.Waiting := by
  unfold feed
  split
  · rename_i e c' events' heq
    obtain ⟨new, sent, _, hmoved⟩ := run_reaches { c with pending := [] } (c.pending ++ data) events
    rw [heq] at hmoved
    -- A failure keeps nothing.
    refine Waiting.of_nil (hmoved.invariant (P := fun c => c.pending = []) (fun hp hm => ?_) rfl)
    cases hm with
    | quiet hq => exact hq.pending.trans hp
    | _ => exact hp
  · rename_i rest c' events' heq
    unfold run at heq
    split at heq
    · cases heq
    · rename_i hhttp
      obtain ⟨hpart, h9, hshort⟩ := unfinished_frames _ (Nat.le_refl _) heq
      have hseen : 9 ≤ (c.pending ++ data).length → c'.peerPrefaceSeen = true :=
        seen_of_frames heq (Nat.le_refl _)
      refine ⟨hpart, fun hlen => hseen (h9 hlen), fun hunseen => ?_⟩
      by_cases hlen : (c.pending ++ data).length < 9
      · obtain ⟨rfl, rfl⟩ := hshort hlen
        rw [show ({ c with pending := [] } : Connection).peerPrefaceSeen = false
          from hunseen] at hhttp
        exact Bool.not_eq_true _ ▸ hhttp
      · exact absurd ((hseen (Nat.not_lt.mp hlen)).symm.trans hunseen) (by simp)

theorem Waiting.feed_nil (h : c.Waiting) (events : List Event) :
    c.feed [] events = (.ok (), c, events) := by
  have hrun : run { c with pending := [] } c.pending events =
      (.ok c.pending, { c with pending := [] }, events) := by
    unfold run
    rw [if_neg]
    · by_cases h9 : c.pending.length < 9
      · exact frames_short h9
      · have hseen : ({ c with pending := [] } : Connection).peerPrefaceSeen = true :=
          h.seen (Nat.not_lt.mp h9)
        have hpart := h.part
        obtain ⟨l0, l1, l2, kind, flags, s0, s1, s2, s3, rest, hbuf⟩ :=
          header_of_length (Nat.not_lt.mp h9)
        rw [hbuf] at hpart ⊢
        rw [List.length_cons, frames, checkPreface_seen hseen]
        exact if_pos hpart
    · cases hs : c.peerPrefaceSeen with
      | true => simp
      | false => simp [h.http hs]
  rw [feed, List.append_nil, hrun]

theorem httpSlash_append {a b : Bytes} (h : 9 ≤ a.length) :
    httpSlash.isPrefixOf (a ++ b) = httpSlash.isPrefixOf a := by
  obtain ⟨l0, l1, l2, kind, flags, s0, s1, s2, s3, rest, rfl⟩ := header_of_length h
  rfl

theorem httpSlash_append_of {a b : Bytes} (h : httpSlash.isPrefixOf a = true) :
    httpSlash.isPrefixOf (a ++ b) = true := by
  rw [List.isPrefixOf_iff_prefix] at h ⊢
  exact h.trans (List.prefix_append a b)

theorem run_append (c : Connection) (a b : Bytes) (events : List Event) :
    run c (a ++ b) events =
      match run c a events with
      | (.error e, c, events) => (.error e, c, events)
      | (.ok rest, c, events) => run c (rest ++ b) events := by
  have hframes : ∀ {c : Connection} {buf : Bytes} {events : List Event},
      c.peerPrefaceSeen = true → run c buf events = frames buf.length c buf events := by
    intro c buf events hs
    rw [run, hs]
    rfl
  have hsplit : frames (a ++ b).length c (a ++ b) events = _ :=
    frames_append a.length (Nat.le_refl _) (Nat.le_refl _)
  cases hs : c.peerPrefaceSeen with
  | true =>
    rw [hframes hs, hframes hs, hsplit]
    rcases hrun : frames a.length c a events with ⟨r, c', events'⟩
    cases r with
    | error e => rfl
    | ok rest => exact (hframes (seen_frames hrun hs)).symm
  | false =>
    cases hh : httpSlash.isPrefixOf a with
    | true =>
      have hleft := httpSlash_append_of (b := b) hh
      simp [run, hs, hh, hleft]
    | false =>
      have hrun : run c a events = frames a.length c a events := by
        rw [run, hs, hh]
        rfl
      by_cases h9 : a.length < 9
      · rw [hrun, frames_short h9]
      · have hbuf := httpSlash_append (b := b) (Nat.not_lt.mp h9)
        rw [hrun, run, hs, hbuf, hh]
        rw [if_neg (by simp), hsplit]
        rcases hrest : frames a.length c a events with ⟨r, c', events'⟩
        cases r with
        | error e => rfl
        | ok rest =>
          exact (hframes (seen_of_frames hrest (Nat.le_refl _) (Nat.not_lt.mp h9))).symm

theorem pending_run (c : Connection) (buf : Bytes) (events : List Event) :
    (run c buf events).2.1.pending = c.pending := by
  obtain ⟨new, sent, _, hmoved⟩ := run_reaches c buf events
  refine hmoved.invariant (P := fun c' => c'.pending = c.pending) (fun hp hm => ?_) rfl
  cases hm with
  | quiet hq => exact hq.pending.trans hp
  | _ => exact hp

/-- Two receives are one. -/
theorem feed_append (c : Connection) (xs ys : Bytes) (events : List Event) :
    c.feed (xs ++ ys) events =
      match c.feed xs events with
      | (.error e, c, events) => (.error e, c, events)
      | (.ok _, c, events) => c.feed ys events := by
  have hsplit := run_append { c with pending := [] } (c.pending ++ xs) ys events
  have hpending := pending_run { c with pending := [] } (c.pending ++ xs) events
  rw [List.append_assoc] at hsplit
  simp only [feed]
  rw [hsplit]
  rcases hrun : run { c with pending := [] } (c.pending ++ xs) events with ⟨r, c', events'⟩
  rw [hrun] at hpending
  cases r with
  | error e => rfl
  | ok rest =>
    have hc' : ({ c' with pending := [] } : Connection) = c' := by
      rw [← show c'.pending = [] from hpending]
    simp only [hc']

/-! ## Reachable connections -/

theorem reader_headerFrames (fuel : Nat) : ∀ (c : Connection) (stream : Nat) (endStream : UInt8)
    (first : Bool) (block : Bytes),
    (headerFrames fuel c stream endStream first block).reader = c.reader := by
  induction fuel with
  | zero => exact fun _ _ _ _ _ => rfl
  | succ fuel ih =>
    intro c stream endStream first block
    unfold headerFrames
    dsimp only
    split
    · rfl
    · exact ih _ _ _ _ _

theorem reader_writeBody (fuel : Nat) : ∀ (c : Connection) (pos : Nat) (body : Bytes),
    (writeBody fuel c pos body).reader = c.reader := by
  induction fuel with
  | zero => exact fun _ _ _ => rfl
  | succ fuel ih =>
    intro c pos body
    unfold writeBody
    split
    · rfl
    · dsimp only
      split
      · rfl
      · exact ih _ _ _

theorem reader_pumpBodies (c : Connection) (body : Bytes) :
    (c.pumpBodies body).reader = c.reader := by
  unfold pumpBodies
  split
  · rfl
  · generalize List.range c.opens.slotCount = positions
    induction positions generalizing c with
    | nil => rfl
    | cons pos positions ih => exact (ih _).trans (reader_writeBody _ _ _ _)

theorem reader_writeHeaders (c : Connection) (stream : Nat) (endStream : UInt8)
    (block : Bytes) : (c.writeHeaders stream endStream block).reader = c.reader := by
  unfold writeHeaders
  split
  · rfl
  · exact reader_headerFrames _ _ _ _ _ _

theorem reader_startStream (c : Connection) (block body : Bytes) :
    (c.startStream block body).2.reader = c.reader := by
  cases h : c.canOpen with
  | false => rw [startStream_refused h]
  | true =>
    have hopening : (c.opening block body).reader = c.reader := reader_writeHeaders _ _ _ _
    rw [startStream_opened h]
    split
    · exact hopening
    · exact (reader_writeBody _ _ _ _).trans hopening

/-- The states a connection gets into, whatever is received and sent. -/
inductive Reachable : Connection → Prop
  | new : Reachable Connection.new
  | initiate {c : Connection} : Reachable c → Reachable c.initiate
  | startStream {c : Connection} (block body : Bytes) :
      Reachable c → Reachable (c.startStream block body).2
  | pumpBodies {c : Connection} (body : Bytes) : Reachable c → Reachable (c.pumpBodies body)
  | takeOutput {c : Connection} : Reachable c → Reachable c.takeOutput.2
  | sendGoaway {c : Connection} : Reachable c → Reachable c.sendGoaway
  | feed {c : Connection} (data : Bytes) (events : List Event) :
      Reachable c → Reachable (c.feed data events).2.1

theorem Reachable.waiting (h : c.Reachable) : c.Waiting := by
  induction h with
  | new => exact Waiting.of_nil rfl
  | initiate _ ih => exact ih.of_reader rfl
  | startStream block body _ ih => exact ih.of_reader (reader_startStream _ _ _)
  | pumpBodies body _ ih => exact ih.of_reader (reader_pumpBodies _ _)
  | takeOutput _ ih =>
    refine ih.of_reader ?_
    unfold Connection.takeOutput
    split <;> rfl
  | sendGoaway _ ih => exact ih.of_reader rfl
  | feed data events _ _ => exact waiting_feed data events

end Connection

theorem feedAll_eq_feed {segments : List Bytes} : ∀ {c : Connection} {events : List Event},
    c.Waiting → feedAll c segments events = c.feed segments.flatten events := by
  induction segments with
  | nil =>
    intro c events hc
    exact (hc.feed_nil events).symm
  | cons xs segments ih =>
    intro c events hc
    have hnext := Connection.waiting_feed (c := c) xs events
    rw [List.flatten_cons, Connection.feed_append, feedAll]
    rcases hfeed : c.feed xs events with ⟨r, c', events'⟩
    rw [hfeed] at hnext
    cases r with
    | error e => rfl
    | ok _ => exact ih hnext

/-- **Frame processing does not depend on receive boundaries.** From any state a connection gets
into, the segments of a byte stream leave the same events, the same connection with the same
output queued, and fail or not in the same way, as the stream at once. -/
theorem reading_ignores_boundaries {c : Connection} (h : c.Reachable) (segments : List Bytes)
    (events : List Event) : feedAll c segments events = c.feed segments.flatten events :=
  feedAll_eq_feed h.waiting

/-- The server's SETTINGS and a PING, cut in the middle of both. -/
theorem reading_ignores_boundaries_settings :
    feedAll Connection.new.initiate [[0, 0, 0, 4], [0, 0, 0, 0, 0, 0, 0, 8, 6, 0],
        [0, 0, 0, 0, 1, 2, 3, 4, 5, 6, 7, 8]] [] =
      Connection.new.initiate.feed [0, 0, 0, 4, 0, 0, 0, 0, 0, 0, 0, 8, 6, 0, 0, 0, 0,
        0, 1, 2, 3, 4, 5, 6, 7, 8] [] :=
  reading_ignores_boundaries (.initiate .new) [[0, 0, 0, 4], [0, 0, 0, 0, 0, 0, 0, 8, 6, 0],
    [0, 0, 0, 0, 1, 2, 3, 4, 5, 6, 7, 8]] []

end Shb.Http2
