import Shb.Http3.Proto
import Shb.Lib.Scan

/-!
# A stream of HTTP/3 frames, and the two readers of it

`frames` cuts a stream into its complete frames and what is left: nothing, or the beginning of a
frame. Both readers of `proto.rs` are the same loop over such a stream. A frame of one kind is read
whole; every other frame is skipped by its length, which needs no more than its header; and a
header may be refused. `Rules` says which, `Rules.scanner` is the loop a symbol at a time, and each
reader is shown to follow its scanner, so that neither depends on how the stream is cut.

What a scanner reports at the end is then said in terms of `frames` alone (`Rules.scans_frames`):
it has read the complete frames, and it has stopped between two frames exactly if nothing is left.
-/

namespace Shb.Http3

open Lib Quic

/-! ## Frames -/

theorem frameHeader_eq_some {buf : Bytes} {kind len header : Nat}
    (h : frameHeader buf = some (kind, len, header)) :
    ∃ n₁ n₂, getVarint buf = some (kind, n₁) ∧ getVarint (buf.drop n₁) = some (len, n₂) ∧
      n₁ + n₂ = header := by
  unfold frameHeader at h
  cases h₁ : getVarint buf with
  | none => rw [h₁] at h; cases h
  | some first =>
    rw [h₁] at h
    simp only at h
    cases h₂ : getVarint (buf.drop first.2) with
    | none => rw [h₂] at h; cases h
    | some second =>
      rw [h₂] at h
      cases h
      exact ⟨_, _, rfl, h₂, rfl⟩

theorem frameHeader_fits {buf : Bytes} {kind len header : Nat}
    (h : frameHeader buf = some (kind, len, header)) : 0 < header ∧ header ≤ buf.length := by
  obtain ⟨n₁, n₂, h₁, h₂, rfl⟩ := frameHeader_eq_some h
  have hsecond := getVarint_fits h₂
  rw [List.length_drop] at hsecond
  omega

theorem frameHeader_append {buf : Bytes} {out : Nat × Nat × Nat} (h : frameHeader buf = some out)
    (more : Bytes) : frameHeader (buf ++ more) = some out := by
  obtain ⟨kind, len, header⟩ := out
  obtain ⟨n₁, n₂, h₁, h₂, rfl⟩ := frameHeader_eq_some h
  have hdrop : (buf ++ more).drop n₁ = buf.drop n₁ ++ more :=
    List.drop_append_of_le_length (getVarint_fits h₁).2
  simp only [frameHeader, getVarint_append h₁, hdrop, getVarint_append h₂]

structure Frame where
  kind : Nat
  payload : Bytes
  deriving DecidableEq, Repr

/-- The complete frame at the front, and how many bytes it takes. -/
def completeFrame (buf : Bytes) : Option (Frame × Nat) :=
  match frameHeader buf with
  | none => none
  | some (kind, len, header) =>
    if buf.length < header + len then none
    else some ({ kind := kind, payload := (buf.drop header).take len }, header + len)

/-- So many frames at most. -/
def cut : Nat → Bytes → List Frame × Bytes
  | 0, buf => ([], buf)
  | fuel + 1, buf =>
    match completeFrame buf with
    | none => ([], buf)
    | some (frame, n) =>
      let (fs, rest) := cut fuel (buf.drop n)
      (frame :: fs, rest)

/-- The complete frames of a stream, and what is left. A frame takes two bytes or more, so no
stream has more of them than bytes. -/
def frames (buf : Bytes) : List Frame × Bytes := cut buf.length buf

theorem completeFrame_eq_some {buf : Bytes} {frame : Frame} {n : Nat}
    (h : completeFrame buf = some (frame, n)) :
    ∃ len header, frameHeader buf = some (frame.kind, len, header) ∧ header + len ≤ buf.length ∧
      frame.payload = (buf.drop header).take len ∧ n = header + len := by
  unfold completeFrame at h
  cases hh : frameHeader buf with
  | none => rw [hh] at h; cases h
  | some out =>
    rw [hh] at h
    simp only at h
    split at h
    · cases h
    · rename_i hl
      cases h
      exact ⟨_, _, rfl, Nat.not_lt.mp hl, rfl, rfl⟩

theorem completeFrame_fits {buf : Bytes} {frame : Frame} {n : Nat}
    (h : completeFrame buf = some (frame, n)) : 0 < n ∧ n ≤ buf.length := by
  obtain ⟨len, header, hh, hl, -, rfl⟩ := completeFrame_eq_some h
  exact ⟨Nat.add_pos_left (frameHeader_fits hh).1 _, hl⟩

theorem cut_of_none {buf : Bytes} (h : completeFrame buf = none) (fuel : Nat) :
    cut fuel buf = ([], buf) := by
  cases fuel with
  | zero => rfl
  | succ fuel => simp only [cut, h]

theorem cut_more : ∀ {fuel : Nat} {buf : Bytes}, buf.length ≤ fuel →
    cut fuel buf = cut buf.length buf
  | 0, buf, h => by rw [Nat.le_zero.mp h]
  | fuel + 1, buf, h => by
    cases hf : completeFrame buf with
    | none => rw [cut_of_none hf, cut_of_none hf]
    | some out =>
      obtain ⟨frame, n⟩ := out
      have hfits := completeFrame_fits hf
      cases hl : buf.length with
      | zero => omega
      | succ k =>
        have hdrop : (buf.drop n).length ≤ k := by rw [List.length_drop]; omega
        simp only [cut, hf]
        rw [cut_more (Nat.le_trans hdrop (by omega)), cut_more hdrop]

theorem frames_of_none {buf : Bytes} (h : completeFrame buf = none) : frames buf = ([], buf) :=
  cut_of_none h _

theorem frames_of_some {buf : Bytes} {frame : Frame} {n : Nat}
    (h : completeFrame buf = some (frame, n)) :
    frames buf = (frame :: (frames (buf.drop n)).1, (frames (buf.drop n)).2) := by
  have hfits := completeFrame_fits h
  unfold frames
  cases hl : buf.length with
  | zero => omega
  | succ k =>
    have hdrop : (buf.drop n).length ≤ k := by rw [List.length_drop]; omega
    simp only [cut, h]
    rw [cut_more hdrop]

/-- A stream is a frame and the rest of it, or has no complete frame. -/
theorem frames_induction {motive : Bytes → Prop}
    (last : ∀ buf, completeFrame buf = none → motive buf)
    (frame : ∀ buf f n, completeFrame buf = some (f, n) → motive (buf.drop n) → motive buf)
    (buf : Bytes) : motive buf := by
  induction hn : buf.length using Nat.strongRecOn generalizing buf with
  | ind k ih =>
    cases hf : completeFrame buf with
    | none => exact last buf hf
    | some out =>
      obtain ⟨f, n⟩ := out
      have hfits := completeFrame_fits hf
      refine frame buf f n hf (ih (buf.drop n).length ?_ _ rfl)
      rw [List.length_drop]
      omega

/-! ## The loop -/

/-- What a reader does with frames: which kind it reads whole and how, and which headers it
refuses. -/
structure Rules (σ : Type) where
  whole : Nat → Bool
  refuse : Nat → Nat → Option ProtoError
  read : σ → Bytes → Except ProtoError σ

namespace Rules

variable {σ : Type} (R : Rules σ)

/-- One step: a byte of what is skipped, the header of what will be, or a whole frame. -/
def act (st : Nat × σ) (buf : Bytes) : Act (Nat × σ) ProtoError :=
  if 0 < st.1 then
    if buf.isEmpty then .wait else .take 1 (st.1 - 1, st.2)
  else
    match frameHeader buf with
    | none => .wait
    | some (kind, len, header) =>
      match R.refuse kind len with
      | some e => .fail e
      | none =>
        if R.whole kind then
          if buf.length < header + len then .wait
          else
            match R.read st.2 ((buf.drop header).take len) with
            | .error e => .fail e
            | .ok s => .take (header + len) (0, s)
        else .take header (len, st.2)

variable {R} {s s' : σ} {skip skip' : Nat} {buf rest : Bytes} {kind len header : Nat}
  {e : ProtoError}

theorem act_skip (b : UInt8) : R.act (skip + 1, s) (b :: buf) = .take 1 (skip, s) := rfl

theorem act_owed (h : 0 < skip) : R.act (skip, s) [] = .wait := by
  simp [act, if_pos h]

theorem act_short (h : frameHeader buf = none) : R.act (0, s) buf = .wait := by
  simp [act, h]

section

variable (h : frameHeader buf = some (kind, len, header))
include h

theorem act_refused (hr : R.refuse kind len = some e) : R.act (0, s) buf = .fail e := by
  simp [act, h, hr]

theorem act_header (hr : R.refuse kind len = none) (hw : R.whole kind = false) :
    R.act (0, s) buf = .take header (len, s) := by
  simp [act, h, hr, hw]

theorem act_partly (hr : R.refuse kind len = none) (hw : R.whole kind = true)
    (hl : buf.length < header + len) : R.act (0, s) buf = .wait := by
  simp [act, h, hr, hw, if_pos hl]

theorem act_whole
    (hr : R.refuse kind len = none) (hw : R.whole kind = true) (hl : ¬ buf.length < header + len) :
    R.act (0, s) buf = match R.read s ((buf.drop header).take len) with
      | .error e => .fail e
      | .ok s => .take (header + len) (0, s) := by
  simp [act, h, hr, hw, if_neg hl]

end

/-- What is decided at the front of a stream, and on how much of it. -/
theorem act_cases (R : Rules σ) (st : Nat × σ) (buf : Bytes) :
    R.act st buf = .wait ∨
      ((∃ e, R.act st buf = .fail e) ∨ ∃ n t, 0 < n ∧ n ≤ buf.length ∧ R.act st buf = .take n t) ∧
        ∀ more, R.act st (buf ++ more) = R.act st buf := by
  obtain ⟨skip, s⟩ := st
  cases skip with
  | succ skip =>
    cases buf with
    | nil => exact Or.inl rfl
    | cons b buf =>
      exact Or.inr ⟨Or.inr ⟨1, _, Nat.one_pos, Nat.le_add_left _ _, act_skip b⟩, fun _ => rfl⟩
  | zero =>
    cases hh : frameHeader buf with
    | none => exact Or.inl (act_short hh)
    | some out =>
      obtain ⟨kind, len, header⟩ := out
      obtain ⟨hpos, hfits⟩ := frameHeader_fits hh
      have hmore := fun more => frameHeader_append hh more
      cases hr : R.refuse kind len with
      | some e =>
        exact Or.inr ⟨Or.inl ⟨e, act_refused hh hr⟩,
          fun more => (act_refused (hmore more) hr).trans (act_refused hh hr).symm⟩
      | none =>
        cases hw : R.whole kind with
        | false =>
          exact Or.inr ⟨Or.inr ⟨header, _, hpos, hfits, act_header hh hr hw⟩,
            fun more => (act_header (hmore more) hr hw).trans (act_header hh hr hw).symm⟩
        | true =>
          by_cases hl : buf.length < header + len
          · exact Or.inl (act_partly hh hr hw hl)
          · refine Or.inr ⟨?_, fun more => ?_⟩
            · rw [act_whole hh hr hw hl]
              cases R.read s ((buf.drop header).take len) with
              | error e => exact Or.inl ⟨e, rfl⟩
              | ok s' => exact Or.inr ⟨_, _, by omega, Nat.not_lt.mp hl, rfl⟩
            · -- the payload is in what there is
              have hl' : ¬ (buf ++ more).length < header + len := by
                rw [List.length_append]; omega
              have hpayload : ((buf ++ more).drop header).take len =
                (buf.drop header).take len := by
                rw [List.drop_append_of_le_length hfits, List.take_append_of_le_length]
                rw [List.length_drop]; omega
              rw [act_whole (hmore more) hr hw hl', act_whole hh hr hw hl, hpayload]

/-- The loop of a reader. -/
def scanner (R : Rules σ) : Scanner (Nat × σ) UInt8 ProtoError := .ofCases R.act R.act_cases

/-- Skipping is a byte at a time. -/
theorem scans_skip {out : Except ProtoError ((Nat × σ) × Bytes)} :
    ∀ {k skip : Nat} {buf : Bytes}, k ≤ skip → k ≤ buf.length →
      Scans R.scanner (skip - k, s) (buf.drop k) out → Scans R.scanner (skip, s) buf out
  | 0, _, _, _, _, h => h
  | k + 1, skip + 1, b :: buf, hk, hl, h => by
    rw [Nat.succ_sub_succ, List.drop_succ_cons] at h
    have hstep : R.scanner.act (skip + 1, s) (b :: buf) = .take 1 (skip, s) := rfl
    exact .take hstep (scans_skip (Nat.le_of_succ_le_succ hk) (Nat.le_of_succ_le_succ hl) h)

/-- The loop over a buffer as the source has it: it skips all it can at once. -/
def loop (R : Rules σ) : Nat → Nat × σ → Bytes → Except ProtoError ((Nat × σ) × Bytes)
  | 0, st, buf => .ok (st, buf)
  | fuel + 1, st, buf =>
    let take := min st.1 buf.length
    let buf := buf.drop take
    if 0 < st.1 - take then .ok ((st.1 - take, st.2), buf)
    else
      match R.act (0, st.2) buf with
      | .wait => .ok ((0, st.2), buf)
      | .fail e => .error e
      | .take n st => loop R fuel st (buf.drop n)

/-- A round takes at least a byte, so the loop comes to an end of its own. -/
theorem scans_loop (R : Rules σ) : ∀ {fuel : Nat} (st : Nat × σ) {buf : Bytes},
    buf.length < fuel → Scans R.scanner st buf (R.loop fuel st buf)
  | fuel + 1, (skip, s), buf, hfuel => by
    refine scans_skip (k := min skip buf.length) (Nat.min_le_left _ _) (Nat.min_le_right _ _) ?_
    simp only [loop]
    split
    · -- the buffer is used up before what is skipped
      rename_i hskip
      have hnil : buf.drop (min skip buf.length) = [] := by
        rw [List.drop_eq_nil_iff]
        omega
      rw [hnil]
      exact .wait (act_owed (R := R) hskip)
    · rename_i hskip
      have hzero : skip - min skip buf.length = 0 := Nat.le_zero.mp (Nat.not_lt.mp hskip)
      have hle : (buf.drop (min skip buf.length)).length ≤ fuel := by
        rw [List.length_drop]
        omega
      rw [hzero]
      generalize buf.drop (min skip buf.length) = buf at hle
      cases hact : R.act (0, s) buf with
      | wait => exact .wait hact
      | fail e => exact .fail hact
      | take n st =>
        have htake : R.scanner.act (0, s) buf = .take n st := hact
        have hfits := R.scanner.fits htake
        refine .take htake (scans_loop R st ?_)
        rw [List.length_drop]
        omega

/-- Reading the frames of a list. -/
def readAll (R : Rules σ) : σ → List Frame → Except ProtoError σ
  | s, [] => .ok s
  | s, f :: fs =>
    match R.refuse f.kind f.payload.length with
    | some e => .error e
    | none =>
      if R.whole f.kind then
        match R.read s f.payload with
        | .error e => .error e
        | .ok s => readAll R s fs
      else readAll R s fs

/-- What becomes of what is left, of which no frame is complete: its header is refused, it waits,
or it is a part of what is skipped. -/
def halt (R : Rules σ) (s : σ) (rest : Bytes) : Except ProtoError ((Nat × σ) × Bytes) :=
  match frameHeader rest with
  | none => .ok ((0, s), rest)
  | some (kind, len, header) =>
    match R.refuse kind len with
    | some e => .error e
    | none =>
      if R.whole kind then .ok ((0, s), rest) else .ok ((header + len - rest.length, s), [])

/-- What is to be made of a stream that begins with a frame. -/
def verdict (R : Rules σ) (s : σ) (buf : Bytes) : Except ProtoError ((Nat × σ) × Bytes) :=
  match R.readAll s (frames buf).1 with
  | .error e => .error e
  | .ok s => R.halt s (frames buf).2

theorem halt_state {st : Nat × σ} {owed : Bytes} (h : R.halt s rest = .ok (st, owed)) :
    st.2 = s := by
  unfold halt at h
  split at h
  · cases h
    rfl
  · split at h
    · cases h
    · split at h
      · cases h
        rfl
      · cases h
        rfl

theorem verdict_ok {st : Nat × σ} {owed : Bytes} (h : R.verdict s buf = .ok (st, owed)) :
    R.readAll s (frames buf).1 = .ok st.2 ∧ R.halt st.2 (frames buf).2 = .ok (st, owed) := by
  unfold verdict at h
  split at h
  · cases h
  · rename_i s' hread
    rw [halt_state h]
    exact ⟨hread, h⟩

theorem scans_halt (R : Rules σ) (s : σ) {buf : Bytes} (h : completeFrame buf = none) :
    Scans R.scanner (0, s) buf (R.halt s buf) := by
  unfold halt
  cases hh : frameHeader buf with
  | none => exact .wait (act_short hh)
  | some out =>
    obtain ⟨kind, len, header⟩ := out
    have hl : buf.length < header + len := by
      simp only [completeFrame, hh] at h
      split at h
      · assumption
      · cases h
    have hfits := (frameHeader_fits hh).2
    dsimp only
    cases hr : R.refuse kind len with
    | some e => exact .fail (act_refused hh hr)
    | none =>
      cases hw : R.whole kind with
      | true => exact .wait (act_partly hh hr hw hl)
      | false =>
        -- what there is of the payload is skipped, and the rest of it is owed
        have hrest : (buf.drop header).drop (buf.length - header) = [] := by
          rw [List.drop_drop, List.drop_eq_nil_iff]
          omega
        have howed : len - (buf.length - header) = header + len - buf.length := by omega
        refine .take (act_header hh hr hw) (scans_skip (k := buf.length - header) (by omega) ?_ ?_)
        · exact Nat.le_of_eq List.length_drop.symm
        · rw [hrest, howed]
          exact .wait (act_owed (R := R) (Nat.sub_pos_of_lt hl))

/-- **What a reader makes of a stream, in terms of its frames.** -/
theorem scans_verdict (R : Rules σ) (s : σ) (buf : Bytes) :
    Scans R.scanner (0, s) buf (R.verdict s buf) := by
  induction buf using frames_induction generalizing s with
  | last buf h =>
    simp only [verdict, frames_of_none h, readAll]
    exact scans_halt R s h
  | frame buf f n h ih =>
    simp only [verdict, frames_of_some h, readAll]
    obtain ⟨len, header, hh, hfits, hpayload, rfl⟩ := completeFrame_eq_some h
    have hlen : f.payload.length = len := by
      rw [hpayload, List.length_take, List.length_drop]
      omega
    rw [hlen]
    cases hr : R.refuse f.kind len with
    | some e => exact .fail (act_refused hh hr)
    | none =>
      cases hw : R.whole f.kind with
      | true =>
        have hact := act_whole (s := s) hh hr hw (Nat.not_lt.mpr hfits)
        rw [← hpayload] at hact
        cases hread : R.read s f.payload with
        | error e =>
          rw [hread] at hact
          exact .fail hact
        | ok s' =>
          rw [hread] at hact
          exact .take hact (ih s')
      | false =>
        refine .take (act_header hh hr hw) (scans_skip (k := len) (Nat.le_refl _) ?_ ?_)
        · rw [List.length_drop]
          omega
        · rw [Nat.sub_self, List.drop_drop]
          exact ih s

end Rules

/-! ## Responses -/

/-- What a section leaves of the status: trailers and a 1xx leave it alone. -/
def noteStatus (status : Nat) : Option Nat → Nat
  | some found => if isInformational found then status else found
  | none => status

theorem ResponseReader.note_eq (r : ResponseReader) (found : Option Nat) :
    r.note found = { r with status := noteStatus r.status found } := by
  cases found with
  | none => rfl
  | some found =>
    simp only [note, noteStatus]
    split <;> rfl

def responseRules : Rules Nat where
  whole kind := kind = FrameType.headers
  refuse kind len := if kind = FrameType.goaway ∧ 2 ^ 20 < len then some .oversizedGoaway else none
  read status payload :=
    match findStatus payload with
    | .error e => .error (.qpack e)
    | .ok found => .ok (noteStatus status found)

namespace ResponseReader

def view (r : ResponseReader) : (Nat × Nat) × Bytes := ((r.skip, r.status), r.pending)

/-- What the loop leaves, as it is put back into the reader. -/
def left : Except ProtoError Bytes × ResponseReader →
    Except ProtoError ((Nat × Nat) × Bytes)
  | (.error e, _) => .error e
  | (.ok rest, r) => .ok ((r.skip, r.status), rest)

theorem left_run : ∀ (fuel : Nat) (r : ResponseReader) (buf : Bytes),
    left (run fuel r buf) = responseRules.loop fuel (r.skip, r.status) buf
  | 0, _, _ => rfl
  | fuel + 1, r, buf => by
    simp only [run, Rules.loop]
    split
    · rfl
    · rename_i hskip
      have hzero : r.skip - min r.skip buf.length = 0 := Nat.le_zero.mp (Nat.not_lt.mp hskip)
      rw [hzero]
      generalize buf.drop (min r.skip buf.length) = buf
      cases hh : frameHeader buf with
      | none =>
        rw [Rules.act_short hh]
        rfl
      | some out =>
        obtain ⟨kind, len, header⟩ := out
        dsimp only
        by_cases hw : kind = FrameType.headers
        · have hr : responseRules.refuse kind len = none := by
            rw [hw]
            rfl
          have hw' : responseRules.whole kind = true := decide_eq_true hw
          rw [if_pos hw]
          split
          · rw [Rules.act_partly hh hr hw' ‹_›]
            rfl
          · rename_i hl
            rw [Rules.act_whole hh hr hw' hl]
            simp only [responseRules]
            cases findStatus ((buf.drop header).take len) with
            | error e => rfl
            | ok found =>
              dsimp only
              rw [note_eq, left_run]
              rfl
        · have hw' : responseRules.whole kind = false := decide_eq_false hw
          rw [if_neg hw]
          split
          · rename_i hbig
            rw [Rules.act_refused hh (if_pos hbig)]
            rfl
          · rename_i hbig
            rw [Rules.act_header hh (if_neg hbig) hw', left_run]

theorem tracks : Tracks responseRules.scanner feed view := by
  intro r data
  have h := responseRules.scans_loop (r.skip, r.status)
    (Nat.lt_succ_self (r.pending ++ data).length)
  rw [← left_run _ { r with pending := [] }] at h
  simp only [feed]
  cases hrun : run ((r.pending ++ data).length + 1) { r with pending := [] }
    (r.pending ++ data) with
  | mk result r' =>
    rw [hrun] at h
    cases result with
    | error e => exact h
    | ok rest => exact h

end ResponseReader

/-- The status a frame gives a response, if it is a section with a status that is not 1xx. -/
def Frame.finalStatus (f : Frame) : Option Nat :=
  if f.kind = FrameType.headers then
    match findStatus f.payload with
    | .ok found => found.filter fun status => !isInformational status
    | .error _ => none
  else none

/-- The last such status; none counts as 0. -/
def lastStatus (fs : List Frame) : Nat := ((fs.filterMap Frame.finalStatus).getLast?).getD 0

theorem noteStatus_eq (status : Nat) (found : Option Nat) :
    noteStatus status found = (found.filter fun x => !isInformational x).getD status := by
  cases found with
  | none => rfl
  | some x =>
    by_cases hx : isInformational x
    · simp [noteStatus, Option.filter, hx]
    · simp [noteStatus, Option.filter, hx]

theorem readAll_responseRules : ∀ {fs : List Frame} {status status' : Nat},
    responseRules.readAll status fs = .ok status' →
      status' = ((fs.filterMap Frame.finalStatus).getLast?).getD status
  | [], _, _, h => by
    cases h
    rfl
  | f :: fs, status, status', h => by
    have hcons : ∀ found, f.finalStatus = found →
        responseRules.readAll (found.getD status) fs = .ok status' →
        status' = (((f :: fs).filterMap Frame.finalStatus).getLast?).getD status := by
      intro found hfound hrest
      have ih := readAll_responseRules hrest
      cases found with
      | none => rw [List.filterMap_cons_none hfound, ih, Option.getD_none]
      | some x =>
        rw [List.filterMap_cons_some hfound, ih, List.getLast?_cons, Option.getD_some]
        rfl
    simp only [Rules.readAll] at h
    split at h
    · cases h
    · by_cases hw : f.kind = FrameType.headers
      · have hw' : responseRules.whole f.kind = true := decide_eq_true hw
        rw [if_pos hw'] at h
        cases hf : findStatus f.payload with
        | error e =>
          have hread : responseRules.read status f.payload = .error (.qpack e) := by
            simp only [responseRules, hf]
          rw [hread] at h
          cases h
        | ok found =>
          have hread : responseRules.read status f.payload = .ok (noteStatus status found) := by
            simp only [responseRules, hf]
          rw [hread, noteStatus_eq] at h
          refine hcons _ ?_ h
          simp only [Frame.finalStatus, if_pos hw, hf]
      · have hw' : ¬ responseRules.whole f.kind = true := fun hk => hw (of_decide_eq_true hk)
        rw [if_neg hw'] at h
        exact hcons none (if_neg hw) h

/-! ## The control stream -/

def uniRules : Rules (Option Nat) where
  whole kind := kind = FrameType.goaway
  refuse kind len := if kind = FrameType.goaway ∧ 8 < len then some .goawayTooLong else none
  read goaway payload :=
    match getVarint payload with
    | none => .error .goawayWithoutId
    | some (id, n) =>
      if n ≠ payload.length then .error .goawayTrailing
      else if goaway.any (· < id) then .error .goawayRaised
      else .ok (some id)

namespace UniReader

theorem onGoaway_eq (r : UniReader) (payload : Bytes) :
    r.onGoaway payload = match uniRules.read r.goaway payload with
      | .error e => (.error e, r)
      | .ok goaway => (.ok (), { r with goaway := goaway }) := by
  simp only [onGoaway, uniRules]
  repeat' split
  all_goals first | rfl | simp_all

/-- A stream says what it is, and then the control stream is a stream of frames; whatever comes on
another is dropped. -/
def act (st : Option Nat × Nat × Option Nat) (buf : Bytes) :
    Act (Option Nat × Nat × Option Nat) ProtoError :=
  match st.1 with
  | none =>
    match getVarint buf with
    | none => .wait
    | some (kind, n) => .take n (some kind, st.2)
  | some kind =>
    if kind = streamControl then
      match uniRules.act st.2 buf with
      | .wait => .wait
      | .fail e => .fail e
      | .take n st => .take n (some kind, st)
    else if buf.isEmpty then .wait
    else .take 1 st

section Steps

variable {st : Nat × Option Nat} {buf : Bytes}

theorem act_none (h : getVarint buf = none) : act (none, st) buf = .wait := by
  simp only [act, h]

theorem act_kind {kind n : Nat} (h : getVarint buf = some (kind, n)) :
    act (none, st) buf = .take n (some kind, st) := by
  simp only [act, h]

theorem act_other {kind : Nat} (h : kind ≠ streamControl) (b : UInt8) :
    act (some kind, st) (b :: buf) = .take 1 (some kind, st) := by
  simp [act, if_neg h]

/-- A frame of the control stream. -/
def lift : Act (Nat × Option Nat) ProtoError → Act (Option Nat × Nat × Option Nat) ProtoError
  | .wait => .wait
  | .fail e => .fail e
  | .take n st => .take n (some streamControl, st)

theorem act_control : act (some streamControl, st) buf = lift (uniRules.act st buf) := by
  simp only [act, if_true]
  cases uniRules.act st buf <;> rfl

end Steps

/-- What is decided, and on how much of the stream. -/
theorem act_cases (st : Option Nat × Nat × Option Nat) (buf : Bytes) :
    act st buf = .wait ∨
      ((∃ e, act st buf = .fail e) ∨ ∃ n t, 0 < n ∧ n ≤ buf.length ∧ act st buf = .take n t) ∧
        ∀ more, act st (buf ++ more) = act st buf := by
  obtain ⟨kind, st⟩ := st
  cases kind with
  | none =>
    cases hv : getVarint buf with
    | none => exact Or.inl (act_none hv)
    | some out =>
      obtain ⟨kind, n⟩ := out
      obtain ⟨hpos, hle⟩ := getVarint_fits hv
      exact Or.inr ⟨Or.inr ⟨n, _, hpos, hle, act_kind hv⟩,
        fun more => (act_kind (getVarint_append hv more)).trans (act_kind hv).symm⟩
  | some kind =>
    by_cases hk : kind = streamControl
    · rw [hk]
      simp only [act_control]
      rcases uniRules.act_cases st buf with hw | ⟨hdone, hmore⟩
      · exact Or.inl (by rw [hw]; rfl)
      · refine Or.inr ⟨?_, fun more => congrArg lift (hmore more)⟩
        rcases hdone with ⟨e, he⟩ | ⟨n, t, hpos, hle, ht⟩
        · exact Or.inl ⟨e, by rw [he]; rfl⟩
        · exact Or.inr ⟨n, _, hpos, hle, by rw [ht]; rfl⟩
    · cases buf with
      | nil => exact Or.inl (by simp only [act, if_neg hk, List.isEmpty_nil, if_true])
      | cons b buf =>
        exact Or.inr ⟨Or.inr ⟨1, _, Nat.one_pos, Nat.le_add_left _ _, act_other hk b⟩,
          fun more => (act_other hk b).trans (act_other hk b).symm⟩

def scanner : Scanner (Option Nat × Nat × Option Nat) UInt8 ProtoError := .ofCases act act_cases

def view (r : UniReader) : (Option Nat × Nat × Option Nat) × Bytes :=
  ((r.kind, r.skip, r.goaway), r.pending)

/-- What the loop leaves, as it is put back into the reader. -/
def left : Except ProtoError Bytes × UniReader →
    Except ProtoError ((Nat × Option Nat) × Bytes)
  | (.error e, _) => .error e
  | (.ok rest, r) => .ok ((r.skip, r.goaway), rest)

theorem left_run : ∀ (fuel : Nat) (r : UniReader) (buf : Bytes),
    left (run fuel r buf) = uniRules.loop fuel (r.skip, r.goaway) buf
  | 0, _, _ => rfl
  | fuel + 1, r, buf => by
    simp only [run, Rules.loop]
    split
    · rfl
    · rename_i hskip
      have hzero : r.skip - min r.skip buf.length = 0 := Nat.le_zero.mp (Nat.not_lt.mp hskip)
      rw [hzero]
      generalize buf.drop (min r.skip buf.length) = buf
      cases hh : frameHeader buf with
      | none =>
        rw [Rules.act_short hh]
        rfl
      | some out =>
        obtain ⟨kind, len, header⟩ := out
        dsimp only
        by_cases hw : kind = FrameType.goaway
        · have hw' : uniRules.whole kind = true := decide_eq_true hw
          rw [if_pos hw]
          split
          · rename_i hbig
            rw [Rules.act_refused hh (if_pos ⟨hw, hbig⟩)]
            rfl
          · rename_i hbig
            have hr : uniRules.refuse kind len = none := if_neg fun h => hbig h.2
            split
            · rw [Rules.act_partly hh hr hw' ‹_›]
              rfl
            · rename_i hl
              rw [Rules.act_whole hh hr hw' hl, onGoaway_eq]
              cases uniRules.read r.goaway ((buf.drop header).take len) with
              | error e => rfl
              | ok goaway =>
                rw [left_run]
        · have hw' : uniRules.whole kind = false := decide_eq_false hw
          rw [if_neg hw, Rules.act_header hh (if_neg fun h => hw h.1) hw', left_run]

/-- The loop knows what the stream is, and leaves it so. -/
theorem kind_run : ∀ (fuel : Nat) (r : UniReader) (buf : Bytes),
    (run fuel r buf).2.kind = r.kind
  | 0, _, _ => rfl
  | fuel + 1, r, buf => by
    simp only [run]
    split
    · rfl
    · split
      · rfl
      · split
        · split
          · rfl
          · split
            · rfl
            · rw [onGoaway_eq]
              cases uniRules.read r.goaway _ with
              | error e => rfl
              | ok goaway => exact kind_run fuel _ _
        · exact kind_run fuel _ _

theorem scans_control {st : Nat × Option Nat} {buf : Bytes}
    {out : Except ProtoError ((Nat × Option Nat) × Bytes)} (h : Scans uniRules.scanner st buf out) :
    Scans scanner (some streamControl, st) buf
      (out.map fun p => ((some streamControl, p.1), p.2)) := by
  have hact : ∀ st buf, scanner.act (some streamControl, st) buf = lift (uniRules.act st buf) :=
    fun _ _ => act_control
  induction h with
  | @wait st buf hw =>
    refine .wait ((hact st buf).trans ?_)
    rw [show uniRules.act st buf = .wait from hw]
    rfl
  | @fail st buf e hf =>
    refine .fail ((hact st buf).trans ?_)
    rw [show uniRules.act st buf = .fail e from hf]
    rfl
  | @take st t buf n out ht _ ih =>
    refine .take ((hact st buf).trans ?_) ih
    rw [show uniRules.act st buf = .take n t from ht]
    rfl

theorem scans_other {kind : Nat} (h : kind ≠ streamControl) (st : Nat × Option Nat) :
    ∀ buf : Bytes, Scans scanner (some kind, st) buf (.ok ((some kind, st), []))
  | [] => .wait (by simp only [scanner, Scanner.ofCases, act, if_neg h, List.isEmpty_nil, if_true])
  | b :: buf => .take (act_other h b) (scans_other h st buf)

theorem scans_interpret {r : UniReader} {kind : Nat} (hk : r.kind = some kind) (buf : Bytes) :
    Scans scanner (some kind, r.skip, r.goaway) buf (outcome view (r.interpret buf)) := by
  unfold interpret
  by_cases hc : kind = streamControl
  · have hkind : r.kind = some streamControl := hc ▸ hk
    rw [if_neg (fun h => h hkind), hc]
    have h := scans_control (uniRules.scans_loop (r.skip, r.goaway)
      (Nat.lt_succ_self buf.length))
    have hkept := kind_run (buf.length + 1) r buf
    rw [← left_run] at h
    cases hrun : run (buf.length + 1) r buf with
    | mk result r' =>
      rw [hrun] at h hkept
      cases result with
      | error e => exact h
      | ok rest =>
        have hkind' : r'.kind = some streamControl := hkept.trans hkind
        have hview : view { r' with pending := rest } =
            ((some streamControl, r'.skip, r'.goaway), rest) := by
          simp only [view, hkind']
        simp only [outcome, hview]
        exact h
  · have hkind : r.kind ≠ some streamControl := fun h => hc (Option.some.inj (hk.symm.trans h))
    rw [if_pos hkind]
    have hview : view { r with pending := [] } = ((some kind, r.skip, r.goaway), []) := by
      simp only [view, hk]
    simp only [outcome, hview]
    exact scans_other hc _ buf

theorem tracks : Tracks scanner feed view := by
  intro r data
  obtain ⟨kind, pending, skip, goaway⟩ := r
  have hinterpret : ∀ kind buf, Scans scanner (some kind, skip, goaway) buf (outcome view
      (interpret { kind := some kind, pending := pending ++ data, skip := skip, goaway := goaway }
        buf)) := by
    intro kind buf
    exact scans_interpret (r := { kind := some kind, pending := pending ++ data, skip := skip
                                  goaway := goaway }) rfl buf
  cases kind with
  | some kind => exact hinterpret kind (pending ++ data)
  | none =>
    simp only [feed]
    cases hv : getVarint (pending ++ data) with
    | none => exact .wait (act_none hv)
    | some out =>
      obtain ⟨kind, n⟩ := out
      exact .take (act_kind hv) (hinterpret kind ((pending ++ data).drop n))

end UniReader

/-- The stream id a frame announces. -/
def Frame.announced (f : Frame) : Option Nat :=
  if f.kind = FrameType.goaway then (getVarint f.payload).map Prod.fst else none

/-- The complete frames of the control stream; of another stream none. -/
def controlFrames (stream : Bytes) : List Frame :=
  match getVarint stream with
  | none => []
  | some (kind, n) => if kind = streamControl then (frames (stream.drop n)).1 else []

/-- An id may only be lowered, so the last one announced is the smallest. -/
theorem readAll_uniRules : ∀ {fs : List Frame} {goaway goaway' : Option Nat},
    uniRules.readAll goaway fs = .ok goaway' →
      goaway' = (goaway.toList ++ fs.filterMap Frame.announced).min?
  | [], goaway, _, h => by
    cases h
    cases goaway <;> rfl
  | f :: fs, goaway, goaway', h => by
    simp only [Rules.readAll] at h
    split at h
    · cases h
    · by_cases hw : f.kind = FrameType.goaway
      · have hw' : uniRules.whole f.kind = true := decide_eq_true hw
        rw [if_pos hw'] at h
        cases hread : uniRules.read goaway f.payload with
        | error e => rw [hread] at h; cases h
        | ok lowered =>
          rw [hread] at h
          have ih := readAll_uniRules h
          simp only [uniRules] at hread
          cases hv : getVarint f.payload with
          | none => rw [hv] at hread; cases hread
          | some out =>
            obtain ⟨id, n⟩ := out
            simp only [hv] at hread
            split at hread
            · cases hread
            · split at hread
              · cases hread
              · rename_i hle
                cases hread
                have hann : f.announced = some id := by
                  rw [Frame.announced, if_pos hw, hv]
                  rfl
                rw [ih, List.filterMap_cons_some hann]
                cases goaway with
                | none => rfl
                | some old =>
                  have hmin : min old id = id := by
                    simp only [Option.any_some, decide_eq_true_eq] at hle
                    omega
                  simp only [Option.toList_some, List.singleton_append, List.min?_cons',
                    List.foldl_cons, hmin]
      · have hw' : ¬ uniRules.whole f.kind = true := fun hk => hw (of_decide_eq_true hk)
        rw [if_neg hw'] at h
        have hann : f.announced = none := if_neg hw
        rw [readAll_uniRules h, List.filterMap_cons_none hann]

/-! ## What the readers report -/

theorem ResponseReader.outcome_feed (stream : Bytes) :
    outcome view (feed {} stream) = responseRules.verdict 0 stream :=
  (tracks {} stream).unique (responseRules.scans_verdict 0 stream)

/-- A response as far as it has come: the complete frames are read, and what is left of another
waits or is skipped. -/
theorem ResponseReader.feed_ok {stream : Bytes} (h : (feed {} stream).1 = .ok ()) :
    responseRules.readAll 0 (frames stream).1 = .ok (feed {} stream).2.status ∧
      responseRules.halt (feed {} stream).2.status (frames stream).2 =
        .ok (feed {} stream).2.view := by
  have hout := outcome_feed stream
  generalize feed {} stream = fed at h hout
  obtain ⟨verdict, r⟩ := fed
  cases h
  exact Rules.verdict_ok hout.symm

/-- A stream the server opened, as far as it has come. -/
theorem UniReader.feed_ok {stream : Bytes} (h : (feed {} stream).1 = .ok ()) :
    (feed {} stream).2.kind = (getVarint stream).map Prod.fst ∧
      (feed {} stream).2.goaway = ((controlFrames stream).filterMap Frame.announced).min? := by
  have hscan := tracks {} stream
  generalize feed {} stream = fed at h hscan
  obtain ⟨verdict, r⟩ := fed
  cases h
  have hview : ∀ {st : Option Nat × Nat × Option Nat} {owed : Bytes},
      Scans scanner (none, 0, none) stream (.ok (st, owed)) →
        r.kind = st.1 ∧ r.goaway = st.2.2 := by
    intro st owed hother
    have heq : r.view = (st, owed) := Except.ok.inj (hscan.unique hother)
    exact ⟨congrArg (·.1.1) heq, congrArg (·.1.2.2) heq⟩
  cases hv : getVarint stream with
  | none =>
    obtain ⟨hkind, hgoaway⟩ := hview (.wait (act_none hv))
    refine ⟨hkind, ?_⟩
    simp only [hgoaway, controlFrames, hv]
    rfl
  | some out =>
    obtain ⟨kind, n⟩ := out
    by_cases hc : kind = streamControl
    · subst hc
      have hcontrol := scans_control (uniRules.scans_verdict none (stream.drop n))
      cases hverdict : uniRules.verdict none (stream.drop n) with
      | error e =>
        rw [hverdict] at hcontrol
        have hfails : Scans scanner (none, 0, none) stream (.error e) :=
          .take (act_kind hv) hcontrol
        exact nomatch hscan.unique hfails
      | ok out =>
        rw [hverdict] at hcontrol
        obtain ⟨hkind, hgoaway⟩ := hview (.take (act_kind hv) hcontrol)
        refine ⟨hkind, ?_⟩
        have hread := readAll_uniRules (Rules.verdict_ok hverdict).1
        simp only [controlFrames, hv, if_true]
        exact hgoaway.trans hread
    · obtain ⟨hkind, hgoaway⟩ := hview (.take (act_kind hv) (scans_other hc _ _))
      refine ⟨hkind, ?_⟩
      simp only [hgoaway, controlFrames, hv, if_neg hc]
      rfl

/-- **The stream readers do not depend on how a stream is cut.** They fail on the pieces exactly if
they fail on the whole, and otherwise end in the same state; the status is the last that is not 1xx
among the complete frames, and the id of the GOAWAY is the smallest announced. -/
theorem stream_readers_ignore_segmentation (segs : List Bytes) :
    ((feedPieces ResponseReader.feed {} segs).1 = (ResponseReader.feed {} segs.flatten).1 ∧
      ((ResponseReader.feed {} segs.flatten).1 = .ok () →
        (feedPieces ResponseReader.feed {} segs).2 = (ResponseReader.feed {} segs.flatten).2 ∧
          (ResponseReader.feed {} segs.flatten).2.status =
            lastStatus (frames segs.flatten).1)) ∧
    ((feedPieces UniReader.feed {} segs).1 = (UniReader.feed {} segs.flatten).1 ∧
      ((UniReader.feed {} segs.flatten).1 = .ok () →
        (feedPieces UniReader.feed {} segs).2 = (UniReader.feed {} segs.flatten).2 ∧
          (UniReader.feed {} segs.flatten).2.kind = (getVarint segs.flatten).map Prod.fst ∧
          (UniReader.feed {} segs.flatten).2.goaway =
            ((controlFrames segs.flatten).filterMap Frame.announced).min?)) := by
  have hresponse := ResponseReader.tracks.feedPieces_eq (r := {}) (fun r r' h => ?_) segs rfl
  have huni := UniReader.tracks.feedPieces_eq (r := {}) (fun r r' h => ?_) segs rfl
  · refine ⟨⟨hresponse.1, fun hok => ⟨hresponse.2 hok, ?_⟩⟩, huni.1, fun hok => ⟨huni.2 hok, ?_⟩⟩
    · exact readAll_responseRules (ResponseReader.feed_ok hok).1
    · exact UniReader.feed_ok hok
  · obtain ⟨kind, pending, skip, goaway⟩ := r
    cases h
    rfl
  · obtain ⟨pending, skip, status⟩ := r
    cases h
    rfl

/-- A response in two pieces, cut inside the field section. -/
theorem stream_readers_ignore_segmentation_split :
    (feedPieces ResponseReader.feed {} [[1, 3, 0], [0, 0xd9, 0, 2, 7]]).2 =
      { pending := [], skip := 1, status := 200 } := by
  have hwhole : (ResponseReader.feed {} [1, 3, 0, 0, 0xd9, 0, 2, 7]).1 = .ok () := rfl
  rw [((stream_readers_ignore_segmentation [[1, 3, 0], [0, 0xd9, 0, 2, 7]]).1.2 hwhole).1]
  rfl

end Shb.Http3
