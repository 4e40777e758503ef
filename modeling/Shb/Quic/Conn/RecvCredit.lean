import Shb.Lib.HighWater
import Shb.Quic.Conn.Ops

/-!
# What has been received, by both ends' count

The peer charges every stream for the furthest offset or final size it has named on it, and
keeps that charge when the stream is over. `data_received` is our count of the same: it
decides when the window is extended. The two agree on streams that are there. A frame for a
stream that was retired or is gone is dropped unread, so it moves the peer's count alone,
unless it names nothing new.
-/

namespace Shb.Quic

open Lib Accounts Accounts.Act

/-- The frames that named an end of a stream, newest first. -/
def arrivals (log : List Entry) : List (Nat × Nat) :=
  log.filterMap fun
    | .arrived id stop => some (id, stop)
    | _ => none

theorem arrivals_mono {log log' : List Entry} (h : log ⊆ log') : arrivals log ⊆ arrivals log' := by
  intro r hr
  obtain ⟨e, he, her⟩ := List.mem_filterMap.mp hr
  exact List.mem_filterMap.mpr ⟨e, h he, her⟩

namespace Accounts

/-- The furthest the peer has got on a stream. -/
def reached (a : Accounts) (id : Nat) : Nat := high id (arrivals a.log)

/-- Our count is the peer's. -/
structure Counted (a : Accounts) : Prop where
  wf : a.Wf
  /-- Every stream that is there knows how far it has got. -/
  live : ∀ {id r}, a.recvs id = some r → r.received = a.reached id
  /-- A stream of the peer's that is not there has never been heard of. -/
  peer : ∀ {id}, isClientInitiated id = false → a.recvs id = none → a.reached id = 0
  /-- Nothing arrives on a request stream before it is opened. -/
  unopened : ∀ {n}, a.nextBidi ≤ n →
    a.recvs (clientStreamId .bi n) = none ∧ a.reached (clientStreamId .bi n) = 0
  ours : ∀ {id}, a.retired id = true → isClientInitiated id = true
  total : a.dataReceived = totalHigh (arrivals a.log)
  le : a.dataReceived ≤ a.maxDataLocal

theorem Counted.start (window : Nat) : (start window).Counted where
  wf := Wf.start window
  live := fun h => absurd h (by simp [Accounts.start])
  peer := fun _ _ => rfl
  unopened := fun _ => ⟨rfl, rfl⟩
  ours := fun h => absurd h (by simp [Accounts.start])
  total := rfl
  le := Nat.zero_le _

theorem isClientInitiated_bi (n : Nat) : isClientInitiated (clientStreamId .bi n) = true := by
  refine decide_eq_true ?_
  simp only [clientStreamId]
  omega

variable {a a' : Accounts} {id : Nat}

/-- The stream a frame goes to has got as far as its peer has. -/
theorem Counted.receives (h : a.Counted) {r : RecvStream} (hr : a.Receives id r) :
    r.received = a.reached id := by
  rcases hr with hr | ⟨hnone, hpeer, hzero⟩
  · exact h.live hr
  · rw [hzero, h.peer hpeer hnone]

theorem Counted.openBi (h : a.Counted) (limit window : Nat) (hw : a'.Wf) (ha' : a' = { a with
      sends := Function.update a.sends (clientStreamId .bi a.nextBidi) (some (.new limit))
      recvs := Function.update a.recvs (clientStreamId .bi a.nextBidi) (some (.new window))
      retired := Function.update a.retired (clientStreamId .bi a.nextBidi) false
      ringEnd := a.ringEnd + 1
      nextBidi := a.nextBidi + 1
      log := .grantedStream (clientStreamId .bi a.nextBidi) limit :: a.log }) : a'.Counted := by
  have hnew := (h.unopened (Nat.le_refl a.nextBidi)).2
  subst ha'
  refine ⟨hw, ?_, ?_, ?_, ?_, h.total, h.le⟩
  · intro id r hr
    simp only [Function.update_apply] at hr
    split at hr
    · rename_i hid
      cases hr
      exact hid ▸ hnew.symm
    · exact h.live hr
  · intro id hpeer hnone
    simp only [Function.update_apply] at hnone
    split at hnone
    · simp at hnone
    · exact h.peer hpeer hnone
  · intro n hn
    have hn' : a.nextBidi + 1 ≤ n := hn
    obtain ⟨hnone, hzero⟩ := h.unopened (n := n) (by omega)
    refine ⟨?_, hzero⟩
    have hne : clientStreamId .bi n ≠ clientStreamId .bi a.nextBidi := by
      simp only [clientStreamId]
      omega
    simp only [Function.update_of_ne hne]
    exact hnone
  · intro id hid
    simp only [Function.update_apply] at hid
    split at hid
    · simp at hid
    · exact h.ours hid

/-- A frame that is taken is counted by both ends. -/
theorem Counted.arrived (h : a.Counted) {stop : Nat} {r r' : RecvStream} {peerIds : List Nat}
    (hr : a.Receives id r) (hr' : r'.received = max r.received stop)
    (hle : stop - r.received ≤ a.maxDataLocal - a.dataReceived) (hw : a'.Wf) (ha' : a' = { a with
      recvs := Function.update a.recvs id (some r')
      peerIds := peerIds
      dataReceived := a.dataReceived + (stop - r.received)
      log := .arrived id stop :: a.log }) : a'.Counted := by
  have hgot := h.receives hr
  have hself : a'.reached id = max stop (a.reached id) := by
    subst ha'
    exact high_cons_self id stop _
  have hother : ∀ id', id' ≠ id → a'.reached id' = a.reached id' := by
    subst ha'
    exact fun id' hne => high_cons_of_ne (Ne.symm hne) stop _
  have hlt : ∀ n, a.nextBidi ≤ n → clientStreamId .bi n ≠ id := by
    rintro n hn rfl
    rcases hr with hr | ⟨-, hpeer, -⟩
    · rw [(h.unopened hn).1] at hr
      simp at hr
    · rw [isClientInitiated_bi] at hpeer
      simp at hpeer
  have hrecvs : ∀ id', id' ≠ id → a'.recvs id' = a.recvs id' := by
    subst ha'
    exact fun id' hne => Function.update_of_ne hne _ _
  have hrecv : a'.recvs id = some r' := by
    subst ha'
    exact Function.update_self id _ _
  have htotal : a'.dataReceived = totalHigh (arrivals a'.log) := by
    subst ha'
    show a.dataReceived + (stop - r.received) = totalHigh ((id, stop) :: arrivals a.log)
    rw [totalHigh_cons, ← h.total, hgot]
    rfl
  have hwindow : a'.dataReceived ≤ a'.maxDataLocal := by
    have := h.le
    subst ha'
    show a.dataReceived + (stop - r.received) ≤ a.maxDataLocal
    omega
  refine ⟨hw, ?_, ?_, ?_, ?_, htotal, hwindow⟩
  · intro id' r'' hr''
    by_cases hid : id' = id
    · subst hid
      rw [hrecv, Option.some.injEq] at hr''
      rw [← hr'', hr', hself, hgot, Nat.max_comm]
    · rw [hother id' hid]
      exact h.live (hrecvs id' hid ▸ hr'')
  · intro id' hpeer hnone
    by_cases hid : id' = id
    · subst hid
      rw [hrecv] at hnone
      simp at hnone
    · rw [hother id' hid]
      exact h.peer hpeer (hrecvs id' hid ▸ hnone)
  · intro n hn
    have hn' : a.nextBidi ≤ n := by
      subst ha'
      exact hn
    rw [hrecvs _ (hlt n hn'), hother _ (hlt n hn')]
    exact h.unopened hn'
  · intro id' hid'
    subst ha'
    exact h.ours hid'

theorem Counted.ignored (h : a.Counted) {stop : Nat} (hold : stop ≤ a.reached id) (hw : a'.Wf)
    (ha' : a' = { a with log := .arrived id stop :: a.log }) : a'.Counted := by
  have hreached : ∀ id', a'.reached id' = a.reached id' := by
    intro id'
    subst ha'
    show high id' ((id, stop) :: arrivals a.log) = _
    by_cases hid : id' = id
    · subst hid
      rw [high_cons_self]
      exact Nat.max_eq_right hold
    · exact high_cons_of_ne (Ne.symm hid) stop _
  have htotal : a'.dataReceived = totalHigh (arrivals a'.log) := by
    subst ha'
    show a.dataReceived = totalHigh ((id, stop) :: arrivals a.log)
    rw [totalHigh_cons, Nat.sub_eq_zero_of_le (show stop ≤ high id (arrivals a.log) from hold)]
    exact h.total
  have hsame : a'.recvs = a.recvs ∧ a'.retired = a.retired ∧ a'.nextBidi = a.nextBidi ∧
      a'.dataReceived = a.dataReceived ∧ a'.maxDataLocal = a.maxDataLocal := by
    subst ha'
    exact ⟨rfl, rfl, rfl, rfl, rfl⟩
  obtain ⟨h1, h2, h3, h4, h5⟩ := hsame
  refine ⟨hw, ?_, ?_, ?_, ?_, htotal, ?_⟩
  · intro id' r hr
    rw [hreached]
    exact h.live (h1 ▸ hr)
  · intro id' hpeer hnone
    rw [hreached]
    exact h.peer hpeer (h1 ▸ hnone)
  · intro n hn
    rw [hreached, h1]
    exact h.unopened (h3 ▸ hn)
  · intro id' hid
    exact h.ours (h2 ▸ hid)
  · rw [h4, h5]
    exact h.le

/-- Every step keeps the counts equal, but for a dropped frame that names something new. -/
theorem Counted.step {e : Act} (h : a.Counted) (hs : Step a e a')
    (hold : ∀ id stop, e = .ignored id stop → stop ≤ a.reached id) : a'.Counted := by
  have hw := h.wf.step hs
  cases hs with
  | openBi limit window => exact h.openBi limit window hw rfl
  | arrived hr hids hr' hle => exact h.arrived hr hr' hle hw rfl
  | ignored id stop hi => exact h.ignored (hold id stop rfl) hw rfl
  | read hr hsame =>
    refine ⟨hw, ?_, ?_, ?_, h.ours, h.total, h.le⟩
    · intro id' r'' hr''
      simp only [Function.update_apply] at hr''
      split at hr''
      · rename_i hid
        cases hr''
        rw [hsame, hid]
        exact h.live hr
      · exact h.live hr''
    · intro id' hpeer hnone
      simp only [Function.update_apply] at hnone
      split at hnone
      · simp at hnone
      · exact h.peer hpeer hnone
    · intro n hn
      obtain ⟨hnone, hzero⟩ := h.unopened hn
      refine ⟨?_, hzero⟩
      simp only [Function.update_apply]
      split
      · rename_i hid
        rw [hid, hr] at hnone
        simp at hnone
      · exact hnone
  | retire id hid =>
    refine ⟨hw, h.live, h.peer, h.unopened, ?_, h.total, h.le⟩
    intro id' hid'
    simp only [Function.update_apply] at hid'
    split at hid'
    · rename_i heq
      exact heq ▸ hid
    · exact h.ours hid'
  | settle id hid =>
    have hours := h.ours hid
    refine ⟨hw, ?_, ?_, ?_, ?_, h.total, h.le⟩
    · intro id' r hr
      simp only [Function.update_apply] at hr
      split at hr
      · simp at hr
      · exact h.live hr
    · intro id' hpeer hnone
      simp only [Function.update_apply] at hnone
      split at hnone
      · rename_i heq
        rw [heq, hours] at hpeer
        simp at hpeer
      · exact h.peer hpeer hnone
    · intro n hn
      obtain ⟨hnone, hzero⟩ := h.unopened hn
      refine ⟨?_, hzero⟩
      simp only [Function.update_apply]
      split
      · rfl
      · exact hnone
    · intro id' hid'
      simp only [Function.update_apply] at hid'
      split at hid'
      · simp at hid'
      · exact h.ours hid'
  | extend limit hle =>
    exact ⟨hw, h.live, h.peer, h.unopened, h.ours, h.total, Nat.le_trans h.le hle⟩
  | _ => exact ⟨hw, h.live, h.peer, h.unopened, h.ours, h.total, h.le⟩

theorem Counted.kept {A : Act → Prop} (hA : ∀ id stop, ¬ A (.ignored id stop)) :
    Kept A Counted where
  wf := Counted.wf
  step := fun h ha hs => h.step hs fun id stop he => absurd (he ▸ ha) (hA id stop)

/-- Nothing is taken beyond the window, whatever is dropped. -/
def Within (a : Accounts) : Prop := a.Wf ∧ a.dataReceived ≤ a.maxDataLocal

theorem Within.kept : Kept (fun _ => True) Within where
  wf := fun h => h.1
  step := fun {a e a'} h _ hs => by
    refine ⟨h.1.step hs, ?_⟩
    have hle := h.2
    cases hs with
    | arrived hr hids hr' hle' =>
      show _ + _ ≤ a.maxDataLocal
      omega
    | extend limit hlimit => exact Nat.le_trans hle hlimit
    | _ => exact hle

end Accounts

namespace Connection

/-- A frame names nothing new, if it is one that is dropped unread: a STREAM frame for a
retired stream, or either kind for one that is gone. -/
def NamesOld (c : Connection) (f : Frame) : Prop :=
  match f.names with
  | some (id, stop) => c.accounts.Drops f → stop ≤ high id (arrivals c.log)
  | none => True

instance (c : Connection) (f : Frame) : Decidable (c.NamesOld f) := by
  unfold NamesOld
  split <;> infer_instance

theorem handleFrame_counted {c : Connection} {f : Frame} {sp : Space} {now : Nat}
    (hi : c.accounts.Counted) (hf : c.NamesOld f) :
    (c.handleFrame sp f now).2.accounts.Counted := by
  -- a frame that was old before is still old at the step that drops it
  refine ((handleFrame_does c sp f now hi.wf).invariant
    (P := fun a => a.Counted ∧ c.log ⊆ a.log) ?_ ⟨hi, List.Subset.refl _⟩).1
  intro a e a' ha he hs
  refine ⟨ha.1.step hs ?_, List.Subset.trans ha.2 hs.log_subset⟩
  rintro id stop rfl
  unfold NamesOld at hf
  rw [he.1] at hf
  exact Nat.le_trans (hf he.2) (high_mono (arrivals_mono ha.2) id)

end Connection

open Connection

/-- Nothing is received beyond what the window allows; and in every run in which no frame that
is dropped names something new, `data_received` is the sum over all streams of the furthest
end the peer has named on each. -/
theorem received_is_sum_of_ends {input : LocalParamsInput} {localCid initialDcid : ConnectionId}
    {tls : Tls} {ops : List Op} {c : Connection}
    (hrun : run Op.step (connect input localCid initialDcid tls) ops = some c) :
    c.dataReceived ≤ c.maxDataLocal ∧
    (Meets Op.step (fun c op => ∀ x ∈ op.packets c, ∀ y ∈ x.conn.packetFrames x.now x.packet,
        y.1.NamesOld y.2) (connect input localCid initialDcid tls) ops →
      c.dataReceived = ∑ id ∈ ((arrivals c.log).map Prod.fst).toFinset,
        high id (arrivals c.log)) := by
  have hstart := accounts_connect input localCid initialDcid tls
  constructor
  · have h : c.accounts.Within := run_invariant (P := fun c : Connection => c.accounts.Within)
      (fun hi h => Op.keeps_all Within.kept hi h)
      (hstart ▸ ⟨Wf.start _, Nat.zero_le _⟩) hrun
    exact h.2
  · intro hmeets
    have h : c.accounts.Counted := hmeets.invariant (P := fun c : Connection => c.accounts.Counted)
      (fun hi hp h => Op.keeps (Counted.kept fun _ _ h => h)
        (fun hi hx => handlePacket_keeps (Counted.kept fun _ _ h => by cases h)
          (fun hi hf => handleFrame_counted hi hf) hi hx) hi hp h)
      (hstart ▸ Counted.start _) hrun
    exact h.total

/-- Three bytes arrive on a request stream, `late` after it was retired unanswered. -/
def threeBytes (late : Bool) : List Op :=
  handshakeOps ++ .openBi :: (if late then [.retire 0 0x10c] else []) ++
    [oneRttDatagram 2 0 (putStream 0 0 false [7, 7, 7])]

def afterThreeBytes (late : Bool) (n : Nat) : Connection :=
  (run Op.step newConnection ((threeBytes late).take n)).getD newConnection

theorem received_is_sum_of_ends_live :
    (afterThreeBytes false 4).dataReceived = 3 ∧ (afterThreeBytes false 4).dataReceived ≤ 100 ∧
    (afterThreeBytes false 4).dataReceived =
      ∑ id ∈ ((arrivals (afterThreeBytes false 4).log).map Prod.fst).toFinset,
        high id (arrivals (afterThreeBytes false 4).log) := by
  have hrun : run Op.step newConnection (threeBytes false) = some (afterThreeBytes false 4) := rfl
  have h := received_is_sum_of_ends hrun
  exact ⟨rfl, h.1, h.2 (by decide +kernel)⟩

theorem received_less_than_sum :
    run Op.step newConnection (threeBytes true) = some (afterThreeBytes true 5) ∧
    (afterThreeBytes true 5).closed = none ∧ (afterThreeBytes true 5).dataReceived = 0 ∧
    ∑ id ∈ ((arrivals (afterThreeBytes true 5).log).map Prod.fst).toFinset,
      high id (arrivals (afterThreeBytes true 5).log) = 3 :=
  ⟨rfl, rfl, rfl, rfl⟩

end Shb.Quic
