import Shb.Lib.HighWater
import Shb.Quic.SendSets
import Shb.Quic.Conn.Ops

/-!
# Send flow control is exact

Every STREAM frame that was put in a packet is in the log, and so is every limit the peer has
granted. The bytes of a stream that its frames cover are always the first of them, up to the
stream's mark, whatever was lost and sent again; `data_sent` adds the marks up over all streams
ever opened. A frame of new bytes is cut to what the connection's limit leaves, and a stream
is never written beyond its own.
-/

namespace Shb.Quic

open Lib Accounts Accounts.Act

/-! ## Reading the log -/

/-- The spans of a stream's frames, newest first. -/
def streamFrames (id : Nat) (log : List Entry) : List (Nat × Nat) :=
  log.filterMap fun
    | .wrote (.stream id' offset len _) => if id' = id then some (offset, len) else none
    | _ => none

/-- The bytes of a stream that were put in some packet. -/
def sentBytes (id : Nat) (log : List Entry) : Finset Nat := covered (streamFrames id log)

/-- The limits the peer has granted on the connection. -/
def grants (log : List Entry) : List Nat :=
  log.filterMap fun
    | .granted limit => some limit
    | _ => none

/-- The limits the peer has granted on streams. -/
def streamGrants (log : List Entry) : List (Nat × Nat) :=
  log.filterMap fun
    | .grantedStream id limit => some (id, limit)
    | _ => none

variable (nextBidi nextUni : Nat)

/-- The streams opened so far, by the numbers of the next. -/
def openedIds : Finset Nat :=
  (Finset.range nextBidi).image (clientStreamId .bi) ∪ (Finset.range nextUni).image
    (clientStreamId .uni)

theorem mem_streamFrames {id : Nat} {log : List Entry} {offset len : Nat} :
    (offset, len) ∈ streamFrames id log ↔ ∃ fin, .wrote (.stream id offset len fin) ∈ log := by
  constructor
  · intro h
    obtain ⟨e, he, hspan⟩ := List.mem_filterMap.mp h
    split at hspan
    · rename_i id' o l fin
      split at hspan
      · rename_i hid
        cases hspan
        exact ⟨fin, hid ▸ he⟩
      · simp at hspan
    · simp at hspan
  · rintro ⟨fin, h⟩
    exact List.mem_filterMap.mpr ⟨_, h, if_pos rfl⟩

theorem streamFrames_self (id offset len : Nat) (fin : Bool) (log : List Entry) :
    streamFrames id (.wrote (.stream id offset len fin) :: log) =
      (offset, len) :: streamFrames id log := by
  simp [streamFrames]

theorem streamFrames_of_ne {id id' : Nat} (h : id ≠ id') (offset len : Nat) (fin : Bool)
    (log : List Entry) :
    streamFrames id' (.wrote (.stream id offset len fin) :: log) = streamFrames id' log := by
  simp [streamFrames, h]

theorem streamFrames_wrote {f : SentFrame} (h : ∀ id offset len fin, f ≠ .stream id offset len fin)
    (id : Nat) (log : List Entry) : streamFrames id (.wrote f :: log) = streamFrames id log := by
  cases f with
  | stream id' offset len fin => exact absurd rfl (h id' offset len fin)
  | _ => rfl

theorem openedIds_succ_bi :
    openedIds (nextBidi + 1) nextUni = insert (clientStreamId .bi nextBidi)
      (openedIds nextBidi nextUni) := by
  simp [openedIds, Finset.range_add_one, Finset.image_insert, Finset.insert_union]

theorem openedIds_succ_uni :
    openedIds nextBidi (nextUni + 1) = insert (clientStreamId .uni nextUni)
      (openedIds nextBidi nextUni) := by
  simp [openedIds, Finset.range_add_one, Finset.image_insert, Finset.union_insert]

theorem bi_not_mem_openedIds : clientStreamId .bi nextBidi ∉ openedIds nextBidi nextUni := by
  simp only [openedIds, Finset.mem_union, Finset.mem_image, Finset.mem_range, clientStreamId]
  omega

theorem uni_not_mem_openedIds : clientStreamId .uni nextUni ∉ openedIds nextBidi nextUni := by
  simp only [openedIds, Finset.mem_union, Finset.mem_image, Finset.mem_range, clientStreamId]
  omega

/-! ## One stream -/

/-- A stream that is there, and its frames in the log: they cover exactly what is below its
mark, and it may not go beyond what the peer has granted. -/
structure Tracked (log : List Entry) (id : Nat) (s : SendStream) : Prop where
  ok : s.wasReset = false → s.Ok
  bytes : sentBytes id log = Finset.range s.mark
  ends : ∀ {offset len}, (offset, len) ∈ streamFrames id log → offset + len ≤ s.mark
  limit : s.limit ≤ high id (streamGrants log)

namespace Tracked

variable {log : List Entry} {id : Nat} {s s' : SendStream}

/-- A change that leaves the mark and the limit. -/
theorem of_mark (h : Tracked log id s) (hok : s'.wasReset = false → s'.Ok)
    (hmark : s'.mark = s.mark) (hlimit : s'.limit ≤ high id (streamGrants log)) :
    Tracked log id s' where
  ok := hok
  bytes := hmark ▸ h.bytes
  ends := fun hr => hmark ▸ h.ends hr
  limit := hlimit

theorem change (h : Tracked log id s) (hs : SendChange log id s s') : Tracked log id s' := by
  cases hs with
  | write data =>
    have hbase := SendStream.write_frame SendStream.baseOffset (fun _ _ _ => rfl) s data
    have hsent := SendStream.write_frame SendStream.sent (fun _ _ _ => rfl) s data
    have hreset := SendStream.write_frame SendStream.wasReset (fun _ _ _ => rfl) s data
    have hlimit := SendStream.write_frame SendStream.limit (fun _ _ _ => rfl) s data
    refine h.of_mark (fun hr => (h.ok (hreset ▸ hr)).write data) ?_ (hlimit ▸ h.limit)
    simp only [SendStream.mark, hbase, hsent]
  | finish => exact h.of_mark (fun hr => (h.ok hr).finish) rfl h.limit
  | setLimit hgrant =>
    refine h.of_mark (fun hr => (h.ok hr).setLimit _) rfl (Nat.max_le.mpr ⟨h.limit, le_high ?_⟩)
    exact List.mem_filterMap.mpr ⟨_, hgrant, rfl⟩
  | @acked offset len fin hwrote =>
    cases hr : s.wasReset with
    | true =>
      have hsame : s.onAcked offset len fin = s := by simp [SendStream.onAcked, hr]
      exact hsame.symm ▸ h
    | false =>
      have hacked := (h.ok hr).onAcked hr (h.ends (mem_streamFrames.mpr ⟨fin, hwrote⟩)) fin
      exact h.of_mark (fun _ => hacked.ok) hacked.mark_eq (hacked.same.1 ▸ h.limit)
  | @lost offset len fin hwrote =>
    cases hr : s.wasReset with
    | true =>
      have hsame : s.onLost offset len fin = s := by simp [SendStream.onLost, hr]
      exact hsame.symm ▸ h
    | false =>
      have hlost := (h.ok hr).onLost hr (h.ends (mem_streamFrames.mpr ⟨fin, hwrote⟩)) fin
      obtain ⟨-, hbase, hsent, hlimit, -⟩ := hlost.same
      refine h.of_mark (fun _ => hlost.ok) ?_ (hlimit ▸ h.limit)
      simp only [SendStream.mark, hbase, hsent]
  | reset => exact h.of_mark (fun hr => by simp [SendStream.reset] at hr) rfl h.limit
  | resetAcked =>
    refine h.of_mark (fun hr => ?_) rfl h.limit
    have hok := h.ok hr
    exact ⟨hok.start_le, hok.sent_le, hok.total_le, hok.lost_lt, hok.runs,
      hok.acked_le, hok.disjoint⟩

/-- The next frame: its new bytes are what `on_sent` counts. -/
theorem sent (h : Tracked log id s) {max credit offset : Nat} {data : Bytes} {fin : Bool}
    (hnext : s.nextSend max credit = some (offset, data, fin)) :
    Tracked (.wrote (.stream id offset data.length fin) :: log) id
      (s.onSent offset data.length fin).2 ∧
    (s.onSent offset data.length fin).2.mark = s.mark + (s.onSent offset data.length fin).1 ∧
    (s.onSent offset data.length fin).1 ≤ credit ∧
    offset + data.length ≤ high id (streamGrants log) := by
  have hsent := (h.ok (SendStream.nextSend_cases hnext).1).sent hnext
  have hmark := hsent.mark_eq
  have hlimit : (s.onSent offset data.length fin).2.limit ≤ high id (streamGrants log) :=
    hsent.same.2.2.1 ▸ h.limit
  refine ⟨⟨fun _ => hsent.ok, ?_, ?_, hlimit⟩, hmark, hsent.new_le, ?_⟩
  · unfold sentBytes
    rw [streamFrames_self]
    exact covered_cons_range h.bytes (by omega) hsent.end_le hsent.fresh
  · intro o l hr
    rw [streamFrames_self] at hr
    rcases List.mem_cons.mp hr with hr | hr
    · cases hr
      exact hsent.end_le
    · exact Nat.le_trans (h.ends hr) (by omega)
  · calc offset + data.length ≤ (s.onSent offset data.length fin).2.mark := hsent.end_le
      _ ≤ (s.onSent offset data.length fin).2.total := hsent.ok.mark_le
      _ ≤ (s.onSent offset data.length fin).2.limit := hsent.ok.total_le
      _ ≤ high id (streamGrants log) := hlimit

/-- What is in the log of other streams, or about the connection, does not matter. -/
theorem of_log {log' : List Entry} (h : Tracked log id s)
    (hframes : streamFrames id log' = streamFrames id log) (hsub : log ⊆ log') :
    Tracked log' id s where
  ok := h.ok
  bytes := by
    unfold sentBytes
    rw [hframes]
    exact h.bytes
  ends := fun hr => h.ends (hframes ▸ hr)
  limit := Nat.le_trans h.limit (high_mono (List.filterMap_subset _ hsub) id)

theorem new {limit : Nat} (hframes : streamFrames id log = []) :
    Tracked (.grantedStream id limit :: log) id (.new limit) where
  ok := fun _ => SendStream.ok_new limit
  bytes := by
    unfold sentBytes
    rw [show streamFrames id (.grantedStream id limit :: log) = [] from hframes]
    rfl
  ends := fun hr => absurd (hframes ▸ hr) List.not_mem_nil
  limit := le_high List.mem_cons_self

end Tracked

/-! ## The connection -/

namespace Accounts

def opened (a : Accounts) : Finset Nat := openedIds a.nextBidi a.nextUni

structure Exact (a : Accounts) : Prop where
  wf : a.Wf
  tracked : ∀ {id s}, a.sends id = some s → Tracked a.log id s
  mem : ∀ {id s}, a.sends id = some s → id ∈ a.opened
  unopened : ∀ {id}, id ∉ a.opened → streamFrames id a.log = []
  fits : ∀ {id offset len}, (offset, len) ∈ streamFrames id a.log →
    offset + len ≤ high id (streamGrants a.log)
  total : a.dataSent = ∑ id ∈ a.opened, (sentBytes id a.log).card
  peer : a.maxDataPeer ≤ highest (grants a.log)
  le : a.dataSent ≤ highest (grants a.log)

theorem Exact.start (window : Nat) : (start window).Exact where
  wf := Wf.start window
  tracked := fun h => absurd h (by simp [Accounts.start])
  mem := fun h => absurd h (by simp [Accounts.start])
  unopened := fun _ => rfl
  fits := nofun
  total := rfl
  peer := Nat.le_refl _
  le := Nat.le_refl _

theorem Exact.note {a a' : Accounts} (h : a.Exact) (hw : a'.Wf) (hsends : a'.sends = a.sends)
    (hopened : a'.opened = a.opened) (hsent : a'.dataSent = a.dataSent)
    (hsub : a.log ⊆ a'.log) (hframes : ∀ id, streamFrames id a'.log = streamFrames id a.log)
    (hpeer : a'.maxDataPeer ≤ highest (grants a'.log)) : a'.Exact := by
  have hgrants : grants a.log ⊆ grants a'.log := List.filterMap_subset _ hsub
  have hstream : streamGrants a.log ⊆ streamGrants a'.log := List.filterMap_subset _ hsub
  refine ⟨hw, ?_, ?_, ?_, ?_, ?_, hpeer, ?_⟩
  · intro id s hs
    exact (h.tracked (hsends ▸ hs)).of_log (hframes id) hsub
  · intro id s hs
    exact hopened ▸ h.mem (hsends ▸ hs)
  · intro id hid
    rw [hframes]
    exact h.unopened (hopened ▸ hid)
  · intro id offset len hr
    rw [hframes] at hr
    exact Nat.le_trans (h.fits hr) (high_mono hstream id)
  · rw [hsent, hopened, h.total]
    unfold sentBytes
    simp only [hframes]
  · rw [hsent]
    exact Nat.le_trans h.le (highest_mono hgrants)

theorem Exact.opens {a a' : Accounts} (h : a.Exact) (hw : a'.Wf) {id limit : Nat}
    (hid : id ∉ a.opened) (hsends : a'.sends = Function.update a.sends id (some (.new limit)))
    (hopened : a'.opened = insert id a.opened) (hsent : a'.dataSent = a.dataSent)
    (hpeer : a'.maxDataPeer = a.maxDataPeer) (hlog : a'.log = .grantedStream id limit :: a.log) :
    a'.Exact := by
  have hsub : a.log ⊆ a'.log := hlog ▸ List.subset_cons_self _ _
  have hframes : ∀ id', streamFrames id' a'.log = streamFrames id' a.log := by
    intro id'
    rw [hlog]
    rfl
  have hgrants : grants a'.log = grants a.log := by
    rw [hlog]
    rfl
  refine ⟨hw, ?_, ?_, ?_, ?_, ?_, ?_, ?_⟩
  · intro id' s hs
    rw [hsends, Function.update_apply] at hs
    split at hs
    · rename_i heq
      cases hs
      rw [heq, hlog]
      exact Tracked.new (h.unopened hid)
    · exact (h.tracked hs).of_log (hframes id') hsub
  · intro id' s hs
    rw [hsends, Function.update_apply] at hs
    rw [hopened]
    split at hs
    · rename_i heq
      exact heq ▸ Finset.mem_insert_self _ _
    · exact Finset.mem_insert_of_mem (h.mem hs)
  · intro id' hid'
    rw [hframes]
    exact h.unopened fun hmem => hid' (hopened ▸ Finset.mem_insert_of_mem hmem)
  · intro id' offset len hr
    rw [hframes] at hr
    exact Nat.le_trans (h.fits hr) (high_mono (List.filterMap_subset _ hsub) id')
  · have hnone : (sentBytes id a'.log).card = 0 := by
      unfold sentBytes
      rw [hframes, h.unopened hid]
      rfl
    rw [hsent, hopened, Finset.sum_insert hid, hnone, h.total, Nat.zero_add]
    unfold sentBytes
    simp only [hframes]
  · rw [hpeer, hgrants]
    exact h.peer
  · rw [hsent, hgrants]
    exact h.le

theorem Exact.sent {a a' : Accounts} (h : a.Exact) (hw : a'.Wf) {id max offset : Nat}
    {data : Bytes} {fin : Bool} {s : SendStream} (hs : a.sends id = some s)
    (hnext : s.nextSend max (a.maxDataPeer - a.dataSent) = some (offset, data, fin))
    (ha' : a' = { a with
      sends := Function.update a.sends id (some (s.onSent offset data.length fin).2)
      dataSent := a.dataSent + (s.onSent offset data.length fin).1
      log := .wrote (.stream id offset data.length fin) :: a.log }) : a'.Exact := by
  obtain ⟨htracked, hmark, hcredit, hfits⟩ := (h.tracked hs).sent hnext
  have hother : ∀ id', id' ≠ id →
      streamFrames id' (.wrote (.stream id offset data.length fin) :: a.log) =
        streamFrames id' a.log := fun id' hne => streamFrames_of_ne (Ne.symm hne) _ _ _ _
  have hle : a.dataSent + (s.onSent offset data.length fin).1 ≤ highest (grants a.log) := by
    have := h.peer
    have := h.le
    omega
  have htotal : ∑ id' ∈ a.opened,
      (sentBytes id' (.wrote (.stream id offset data.length fin) :: a.log)).card =
      ∑ id' ∈ a.opened, (sentBytes id' a.log).card + (s.onSent offset data.length fin).1 := by
    refine sum_bump (h.mem hs) ?_ fun id' _ hne => ?_
    · rw [htracked.bytes, (h.tracked hs).bytes, Finset.card_range, Finset.card_range, hmark]
    · unfold sentBytes
      rw [hother id' hne]
  subst ha'
  refine ⟨hw, ?_, ?_, ?_, ?_, ?_, h.peer, hle⟩
  · intro id' s' hs'
    simp only [Function.update_apply] at hs'
    split at hs'
    · rename_i heq
      cases hs'
      exact heq ▸ htracked
    · rename_i hne
      exact (h.tracked hs').of_log (hother id' hne) (List.subset_cons_self _ _)
  · intro id' s' hs'
    simp only [Function.update_apply] at hs'
    split at hs'
    · rename_i heq
      subst heq
      exact h.mem hs
    · exact h.mem hs'
  · intro id' hid'
    have hne : id' ≠ id := by
      rintro rfl
      exact hid' (h.mem hs)
    exact (hother id' hne).trans (h.unopened hid')
  · intro id' o l hr
    by_cases heq : id' = id
    · subst heq
      simp only [streamFrames_self] at hr
      rcases List.mem_cons.mp hr with hr | hr
      · cases hr
        exact hfits
      · exact h.fits hr
    · simp only [hother id' heq] at hr
      exact h.fits hr
  · exact (htotal.trans (congrArg (· + _) h.total.symm)).symm

theorem Exact.step {a a' : Accounts} {e : Act} (h : a.Exact) (hs : Step a e a') : a'.Exact := by
  have hw := h.wf.step hs
  have hsub := hs.log_subset
  cases hs with
  | openBi limit window =>
    exact h.opens hw (bi_not_mem_openedIds _ _) rfl (openedIds_succ_bi _ _) rfl rfl rfl
  | openUni limit =>
    exact h.opens hw (uni_not_mem_openedIds _ _) rfl (openedIds_succ_uni _ _) rfl rfl rfl
  | @send id s s' hsend hchange =>
    refine ⟨hw, ?_, ?_, h.unopened, h.fits, h.total, h.peer, h.le⟩
    · intro id' t ht
      simp only [Function.update_apply] at ht
      split at ht
      · rename_i heq
        cases ht
        exact heq ▸ (h.tracked hsend).change hchange
      · exact h.tracked ht
    · intro id' t ht
      simp only [Function.update_apply] at ht
      split at ht
      · rename_i heq
        subst heq
        exact h.mem hsend
      · exact h.mem ht
  | sent hsend hnext => exact h.sent hw hsend hnext rfl
  | wrote f hf =>
    exact h.note hw rfl rfl rfl hsub (fun id => streamFrames_wrote hf id _) h.peer
  | settle id hid =>
    refine ⟨hw, ?_, ?_, h.unopened, h.fits, h.total, h.peer, h.le⟩
    · intro id' t ht
      simp only [Function.update_apply] at ht
      split at ht
      · simp at ht
      · exact h.tracked ht
    · intro id' t ht
      simp only [Function.update_apply] at ht
      split at ht
      · simp at ht
      · exact h.mem ht
  | granted limit maxDataPeer hle =>
    refine h.note hw rfl rfl rfl hsub (fun _ => rfl) (Nat.le_trans hle ?_)
    show max a.maxDataPeer limit ≤ max limit (highest (grants a.log))
    have := h.peer
    omega
  | grantedStream id limit | arrived hr hids hr' hle | ignored id stop hi =>
    exact h.note hw rfl rfl rfl hsub (fun _ => rfl) h.peer
  | _ => exact ⟨hw, h.tracked, h.mem, h.unopened, h.fits, h.total, h.peer, h.le⟩

end Accounts

open Connection

/-- Over any run: `data_sent` is the number of distinct stream bytes ever put in a packet,
added up over all streams ever opened; it is within the largest limit the peer has granted on
the connection; and no STREAM frame ends beyond the largest limit granted on its stream. -/
theorem send_flow_control_exact {input : LocalParamsInput} {localCid initialDcid : ConnectionId}
    {tls : Tls} {ops : List Op} {c : Connection}
    (hrun : run Op.step (connect input localCid initialDcid tls) ops = some c) :
    c.dataSent = ∑ id ∈ openedIds c.nextBidi c.nextUni, (sentBytes id c.log).card ∧
    c.dataSent ≤ highest (grants c.log) ∧
    ∀ id offset len fin, .wrote (.stream id offset len fin) ∈ c.log →
      offset + len ≤ high id (streamGrants c.log) := by
  have h : c.accounts.Exact := run_invariant (P := fun c : Connection => c.accounts.Exact)
    (fun hi h => Op.keeps_all ⟨Exact.wf, fun h _ hs => h.step hs⟩ hi h)
    (accounts_connect input localCid initialDcid tls ▸ Exact.start _) hrun
  exact ⟨h.total, h.le, fun id offset len fin hwrote =>
    h.fits (mem_streamFrames.mpr ⟨fin, hwrote⟩)⟩

/-- Ten bytes go out on a request stream, then one more in each of three packets. Only the
last packet is acknowledged, so the first is lost and its ten bytes go out again. -/
def resentOps : List Op :=
  handshakeOps ++ [ .transmit 2 none, .transmit 3 none, .openBi,
    .write 0 (List.replicate 10 7), .transmit 4 none, .write 0 [8], .transmit 5 none,
    .write 0 [8], .transmit 6 none, .write 0 [8], .transmit 7 none,
    oneRttDatagram 8 0 [2, 3, 0, 0, 0], .transmit 9 none ]

def afterResent : Connection := (run Op.step newConnection resentOps).getD newConnection

theorem send_flow_control_exact_resent :
    streamFrames 0 afterResent.log = [(0, 10), (12, 1), (11, 1), (10, 1), (0, 10)] ∧
    afterResent.dataSent = 13 ∧
    afterResent.dataSent =
      ∑ id ∈ openedIds afterResent.nextBidi afterResent.nextUni,
        (sentBytes id afterResent.log).card ∧
    afterResent.dataSent ≤ highest (grants afterResent.log) := by
  have hrun : run Op.step newConnection resentOps = some afterResent := by decide +kernel
  have h := send_flow_control_exact hrun
  exact ⟨by decide +kernel, by decide +kernel, h.1, h.2.1⟩

end Shb.Quic
