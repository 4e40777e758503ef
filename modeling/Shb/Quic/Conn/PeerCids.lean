import Shb.Quic.Conn.Link

/-!
# The connection id in use

The server's first packet brings the first of its connection ids, number 0; NEW_CONNECTION_ID
frames bring others and retire old ones, and when the one in use goes the connection moves to
the lowest it has left. As long as that is all that happens, `peerCid` is the id the table has
under `peerCidSeq`, and that number is not retired.

It is not all that happens. Until HANDSHAKE_DONE every long header sets `peerCid` again, and
`peerCidSeq` is not touched: a Handshake packet that comes after the connection has moved puts
the retired id back under the new number.
-/

namespace Shb.Quic

open Lib

/-! ## The table -/

/-- The ids held: none below what is retired, no number twice, and number 0 is the server's
first, gone only if it was retired. -/
structure CidTable (scid : ConnectionId) (cids : List PeerCid) (prior : Nat) : Prop where
  kept : ∀ p ∈ cids, prior ≤ p.seq
  distinct : (cids.map (·.seq)).Nodup
  first : ∀ p ∈ cids, p.seq = 0 → p.cid = scid
  zero : prior = 0 → ∃ p ∈ cids, p.seq = 0

namespace CidTable

variable {scid : ConnectionId} {cids : List PeerCid} {prior : Nat}

theorem start (scid : ConnectionId) : CidTable scid [⟨0, scid, none⟩] 0 where
  kept := fun _ _ => Nat.zero_le _
  distinct := List.nodup_singleton _
  first := fun p hp _ => by rw [List.mem_singleton.mp hp]
  zero := fun _ => ⟨_, List.mem_singleton_self _, rfl⟩

theorem retire (h : CidTable scid cids prior) {n : Nat} (hn : prior < n) :
    CidTable scid (cids.filter fun p => !decide (p.seq < n)) n where
  kept := fun p hp => by
    have := (List.mem_filter.mp hp).2
    simpa using this
  distinct := h.distinct.sublist (List.filter_sublist.map _)
  first := fun p hp => h.first p (List.mem_filter.mp hp).1
  zero := fun h0 => absurd h0 (by omega)

theorem hold (h : CidTable scid cids prior) {new : PeerCid} (hprior : prior ≤ new.seq)
    (hnew : ∀ p ∈ cids, p.seq ≠ new.seq) : CidTable scid (cids ++ [new]) prior where
  kept := fun p hp => by
    rcases List.mem_append.mp hp with hp | hp
    · exact h.kept p hp
    · rw [List.mem_singleton.mp hp]
      exact hprior
  distinct := by
    rw [List.map_append, List.nodup_append]
    refine ⟨h.distinct, List.nodup_singleton _, ?_⟩
    intro a ha b hb
    obtain ⟨p, hp, rfl⟩ := List.mem_map.mp ha
    rw [List.mem_singleton.mp hb]
    exact hnew p hp
  first := fun p hp h0 => by
    rcases List.mem_append.mp hp with hp | hp
    · exact h.first p hp h0
    · -- number 0 is in the table, or retired
      rw [List.mem_singleton.mp hp] at h0
      obtain ⟨q, hq, hq0⟩ := h.zero (by omega)
      exact absurd (hq0.trans h0.symm) (hnew q hq)
  zero := fun h0 => by
    obtain ⟨p, hp, hp0⟩ := h.zero h0
    exact ⟨p, List.mem_append_left _ hp, hp0⟩

/-- A token changes neither the numbers nor the ids. -/
theorem map_setFirstToken (token : Option Bytes) : ∀ cids : List PeerCid,
    (Connection.setFirstToken token cids).map (fun p => (p.seq, p.cid)) =
      cids.map fun p => (p.seq, p.cid)
  | [] => rfl
  | p :: rest => by
    simp only [Connection.setFirstToken]
    split
    · rfl
    · rw [List.map_cons, map_setFirstToken token rest, List.map_cons]

theorem mem_setFirstToken {token : Option Bytes} {p : PeerCid}
    (h : p ∈ Connection.setFirstToken token cids) : ∃ q ∈ cids, q.seq = p.seq ∧ q.cid = p.cid := by
  have hmem := List.mem_map_of_mem (f := fun p : PeerCid => (p.seq, p.cid)) h
  rw [map_setFirstToken] at hmem
  simpa using hmem

theorem mem_setFirstToken_of_mem (token : Option Bytes) {q : PeerCid} (h : q ∈ cids) :
    ∃ p ∈ Connection.setFirstToken token cids, p.seq = q.seq ∧ p.cid = q.cid := by
  have hmem := List.mem_map_of_mem (f := fun p : PeerCid => (p.seq, p.cid)) h
  rw [← map_setFirstToken token] at hmem
  simpa using hmem

theorem setToken (h : CidTable scid cids prior) (token : Option Bytes) :
    CidTable scid (Connection.setFirstToken token cids) prior where
  kept := fun p hp => by
    obtain ⟨q, hq, hseq, -⟩ := mem_setFirstToken hp
    exact hseq ▸ h.kept q hq
  distinct := by
    have hseq := congrArg (List.map Prod.fst) (map_setFirstToken token cids)
    simp only [List.map_map] at hseq
    exact hseq.symm ▸ h.distinct
  first := fun p hp h0 => by
    obtain ⟨q, hq, hseq, hcid⟩ := mem_setFirstToken hp
    exact hcid ▸ h.first q hq (hseq.trans h0)
  zero := fun h0 => by
    obtain ⟨q, hq, hq0⟩ := h.zero h0
    obtain ⟨p, hp, hseq, -⟩ := mem_setFirstToken_of_mem token hq
    exact ⟨p, hp, hseq.trans hq0⟩

end CidTable

/-! ## The id in use -/

namespace Link

/-- Nothing from the server yet. -/
structure Silent (l : Link) : Prop where
  cids : l.peerCids = []
  seq : l.peerCidSeq = 0
  prior : l.retirePriorTo = 0
  seen : l.serverInitialSeen = false
  handshaking : l.handshakeDone = false

/-- The id in use is the one under its number, and not retired. -/
structure Live (scid : ConnectionId) (l : Link) : Prop where
  seen : l.serverInitialSeen = true
  table : CidTable scid l.peerCids l.retirePriorTo
  inUse : ∃ p ∈ l.peerCids, p.seq = l.peerCidSeq ∧ p.cid = l.peerCid

def Addressed (scid : ConnectionId) (l : Link) : Prop := l.Silent ∨ l.Live scid

variable {l : Link}

theorem Live.notRetired {scid : ConnectionId} (h : l.Live scid) :
    l.retirePriorTo ≤ l.peerCidSeq := by
  obtain ⟨p, hp, hseq, -⟩ := h.inUse
  exact hseq ▸ h.table.kept p hp

/-- Numbers are distinct, so the first entry under the number is the one. -/
theorem find_of_nodup : ∀ {cids : List PeerCid} {p : PeerCid}, (cids.map (·.seq)).Nodup → p ∈ cids →
    cids.find? (fun q => q.seq = p.seq) = some p
  | q :: rest, p, hd, hp => by
    rw [List.map_cons, List.nodup_cons] at hd
    rw [List.find?_cons]
    rcases List.mem_cons.mp hp with rfl | hp
    · simp
    · have hne : ¬ q.seq = p.seq := fun heq =>
        hd.1 (List.mem_map.mpr ⟨p, hp, heq.symm⟩)
      simp only [hne, decide_false]
      exact find_of_nodup hd.2 hp

theorem Live.find {scid : ConnectionId} (h : l.Live scid) :
    (l.peerCids.find? fun p => p.seq = l.peerCidSeq).map (·.cid) = some l.peerCid := by
  obtain ⟨p, hp, hseq, hcid⟩ := h.inUse
  rw [← hseq, find_of_nodup h.table.distinct hp, Option.map_some, hcid]

theorem Live.started {scid : ConnectionId} (h : l.Live scid) (token : Option Bytes) :
    (l.started token).Live scid where
  seen := h.seen
  table := h.table.setToken token
  inUse := by
    obtain ⟨p, hp, hseq, hcid⟩ := h.inUse
    obtain ⟨q, hq, hqs, hqc⟩ := CidTable.mem_setFirstToken_of_mem token hp
    exact ⟨q, hq, hqs.trans hseq, hqc.trans hcid⟩

end Link

namespace Connection

open Link

theorem minSeq_mem : ∀ {cids : List PeerCid} {p : PeerCid}, minSeq cids = some p → p ∈ cids
  | q :: rest, p, h => by
    simp only [minSeq] at h
    split at h
    · cases h
      exact List.mem_cons_self
    · rename_i r hr
      split at h
      · cases h
        exact List.mem_cons_self
      · cases h
        exact List.mem_cons_of_mem _ (minSeq_mem hr)

theorem minSeq_of_ne_nil : ∀ {cids : List PeerCid}, cids ≠ [] → ∃ p, minSeq cids = some p
  | q :: rest, _ => by
    simp only [minSeq]
    split
    · exact ⟨_, rfl⟩
    · split <;> exact ⟨_, rfl⟩

variable {c : Connection}

/-- The table after `retireBelow`: everything below the new mark is out. -/
theorem retireBelow_table {scid : ConnectionId} (n : Nat)
    (h : CidTable scid c.peerCids c.retirePriorTo) :
    CidTable scid (c.retireBelow n).peerCids (c.retireBelow n).retirePriorTo ∧
    (c.retireBelow n).retirePriorTo = max c.retirePriorTo n ∧
    (∀ p ∈ (c.retireBelow n).peerCids, p ∈ c.peerCids) ∧
    ∀ p ∈ c.peerCids, (c.retireBelow n).retirePriorTo ≤ p.seq → p ∈ (c.retireBelow n).peerCids := by
  unfold retireBelow
  split
  · rename_i hn
    refine ⟨h.retire hn, (Nat.max_eq_right (Nat.le_of_lt hn)).symm,
      fun p hp => (List.mem_filter.mp hp).1, fun p hp hle => List.mem_filter.mpr ⟨hp, ?_⟩⟩
    simpa using hle
  · rename_i hn
    exact ⟨h, (Nat.max_eq_left (Nat.not_lt.mp hn)).symm, fun p hp => hp, fun p hp _ => hp⟩

theorem activeConnectionIdLimit_pos : 0 < activeConnectionIdLimit := by decide

/-- The table after `holdCid`: one more, or full. It is never empty. -/
theorem holdCid_table {scid : ConnectionId} {c' : Connection} {seq : Nat} {cid : Bytes}
    {token : Option Bytes} {r : Except Fault Unit} (h : CidTable scid c.peerCids c.retirePriorTo)
    (hseq : c.retirePriorTo ≤ seq) (hnew : ∀ p ∈ c.peerCids, p.seq ≠ seq)
    (hlen : cid.length ≤ maxCidLen) (heq : c.holdCid seq cid token = (r, c')) :
    r = .ok () ∧ CidTable scid c'.peerCids c.retirePriorTo ∧ c'.peerCids ≠ [] ∧
    (∀ p ∈ c.peerCids, p ∈ c'.peerCids) ∧ c'.link = { c.link with peerCids := c'.peerCids } := by
  unfold holdCid at heq
  have hcid : ConnectionId.new cid = some ⟨cid, hlen⟩ := dif_pos hlen
  rw [hcid] at heq
  split at heq
  · cases heq
    exact ⟨rfl, h.hold hseq hnew, by simp, fun p hp => List.mem_append_left _ hp, rfl⟩
  · rename_i hfull
    cases heq
    refine ⟨rfl, h, fun hnil => hfull ?_, fun p hp => hp, rfl⟩
    rw [hnil]
    exact activeConnectionIdLimit_pos

/-- Moving off a retired id, where the table is not empty. -/
theorem moveCid_live {scid : ConnectionId} (hseen : c.serverInitialSeen = true)
    (h : CidTable scid c.peerCids c.retirePriorTo) (hne : c.peerCids ≠ [])
    (hin : c.retirePriorTo ≤ c.peerCidSeq → ∃ p ∈ c.peerCids, p.seq = c.peerCidSeq ∧
      p.cid = c.peerCid) :
    c.moveCid.link.Live scid := by
  unfold moveCid
  split
  · obtain ⟨next, hnext⟩ := minSeq_of_ne_nil hne
    rw [hnext]
    exact ⟨hseen, h, ⟨next, minSeq_mem hnext, rfl, rfl⟩⟩
  · rename_i hlive
    exact ⟨hseen, h, hin (Nat.not_lt.mp hlive)⟩

/-- A NEW_CONNECTION_ID frame keeps the id in use a live one. -/
theorem onNewConnectionId_live {scid : ConnectionId} (h : c.link.Live scid)
    (seq retirePriorTo : Nat) {cid : Bytes} (token : Bytes) (hlen : cid.length ≤ maxCidLen) :
    (c.onNewConnectionId seq retirePriorTo cid token).2.link.Live scid := by
  unfold onNewConnectionId
  split
  · exact h
  split
  · exact h
  rename_i hprior
  simp only
  generalize (if token.length = 16 then some token else none : Option Bytes) = token
  split
  · exact ⟨h.seen, h.table, h.inUse⟩
  rename_i hseq
  split
  · split <;> exact h
  rename_i hfind
  have hfresh : ∀ p ∈ c.peerCids, p.seq ≠ seq := by
    intro p hp heq
    exact absurd heq (by simpa using List.find?_eq_none.mp hfind p hp)
  obtain ⟨htable, hmax, hsub, hstay⟩ := retireBelow_table retirePriorTo h.table
  have hmark : (c.retireBelow retirePriorTo).retirePriorTo ≤ seq := by
    rw [hmax]
    exact Nat.max_le.mpr ⟨Nat.not_lt.mp hseq, Nat.not_lt.mp hprior⟩
  have hlink : (c.retireBelow retirePriorTo).peerCid = c.peerCid ∧
      (c.retireBelow retirePriorTo).peerCidSeq = c.peerCidSeq ∧
      (c.retireBelow retirePriorTo).serverInitialSeen = c.serverInitialSeen := by
    unfold retireBelow
    split <;> exact ⟨rfl, rfl, rfl⟩
  generalize c.retireBelow retirePriorTo = c₁ at htable hsub hstay hmark hlink
  split
  · rename_i heq
    obtain ⟨hr, -⟩ := holdCid_table htable hmark (fun p hp => hfresh p (hsub p hp)) hlen heq
    cases hr
  · rename_i c₂ heq
    obtain ⟨-, htable₂, hne, hkeep, hlink₂⟩ :=
      holdCid_table htable hmark (fun p hp => hfresh p (hsub p hp)) hlen heq
    have hprior₂ : c₂.retirePriorTo = c₁.retirePriorTo := congrArg Link.retirePriorTo hlink₂
    have hcid₂ : c₂.peerCid = c₁.peerCid := congrArg Link.peerCid hlink₂
    have hseq₂ : c₂.peerCidSeq = c₁.peerCidSeq := congrArg Link.peerCidSeq hlink₂
    have hseen₂ : c₂.serverInitialSeen = c₁.serverInitialSeen :=
      congrArg Link.serverInitialSeen hlink₂
    refine moveCid_live (hseen₂.trans (hlink.2.2.trans h.seen)) (hprior₂ ▸ htable₂)
      hne fun hle => ?_
    rw [hprior₂, hseq₂, hlink.2.1] at hle
    obtain ⟨p, hp, hps, hpc⟩ := h.inUse
    refine ⟨p, hkeep p (hstay p hp (hps.symm ▸ hle)), ?_, ?_⟩
    · rw [hps, hseq₂, hlink.2.1]
      rfl
    · rw [hpc, hcid₂, hlink.1]
      rfl

/-! ## Frames, packets, operations -/

theorem pumpTls_live {scid : ConnectionId} (h : c.link.Live scid) : c.pumpTls.2.link.Live scid :=
  pumpLoop_link (J := Live scid) (fun h => ⟨h.seen, h.table, h.inUse⟩)
    (fun token _ h => ⟨h.seen, h.table.setToken token, (h.started token).inUse⟩) _ c h

theorem pumpTls_addressed {scid : ConnectionId} (h : c.link.Addressed scid) :
    c.pumpTls.2.link.Addressed scid := by
  rcases h with h | h
  · refine Or.inl (pumpLoop_link (J := Silent) (fun h =>
      ⟨h.cids, h.seq, h.prior, h.seen, h.handshaking⟩)
      (fun token _ h => ⟨?_, h.seq, h.prior, h.seen, h.handshaking⟩) _ c h)
    have hnil := h.cids
    simp only at hnil
    simp only [Link.started, hnil]
    rfl
  · exact Or.inr (pumpTls_live h)

theorem handleFrame_live {scid : ConnectionId} (h : c.link.Live scid) (sp : Space) {f : Frame}
    (hf : f.WellFormed) (now : Nat) : (c.handleFrame sp f now).2.link.Live scid := by
  cases f with
  | crypto offset data =>
    rcases link_onCrypto c sp offset data with heq | ⟨d, hd, heq⟩
    · exact heq.symm ▸ h
    · exact heq.symm ▸ pumpTls_live (hd.symm ▸ h)
  | handshakeDone => exact ⟨h.seen, h.table, h.inUse⟩
  | newConnectionId seq retirePriorTo cid token =>
    exact onNewConnectionId_live h seq retirePriorTo token hf.1
  | maxData limit => exact h
  | maxStreams uni limit => cases uni <;> exact h
  | _ => simpa [handleFrame, link_eq] using h

theorem around_addressed (scid : ConnectionId) : Around fun c => c.link.Addressed scid where
  versionNegotiation dcid scid versions hi := by simpa [link_eq] using hi
  retry dcid scid token tag hi := by
    rcases link_onRetry _ dcid scid token tag with heq | ⟨-, hseen, heq⟩
    · rwa [heq]
    · rw [heq]
      rcases hi with hi | hi
      · exact Or.inl ⟨hi.cids, hi.seq, hi.prior, hi.seen, hi.handshaking⟩
      · exact absurd (hseen.symm.trans hi.seen) (by simp)
  closeTransport code why hi := by simpa [link_eq] using hi
  noteReceived now hi := by simpa [link_eq] using hi
  lose why hi := by simpa [link_eq] using hi

theorem rotateKeys_addressed {scid : ConnectionId} (at_ : Nat) (phase : Bool)
    (h : c.link.Addressed scid) : (c.rotateKeys at_ phase).link.Addressed scid := by
  cases hn : c.next1rtt with
  | none => simpa only [rotateKeys, hn] using h
  | some next =>
    rw [link_rotateKeys hn]
    rcases h with h | h
    · exact Or.inl ⟨h.cids, h.seq, h.prior, h.seen, h.handshaking⟩
    · exact Or.inr ⟨h.seen, h.table, h.inUse⟩

/-- A packet of a server that uses one connection id in its long headers, protected with keys
that exist: those of the Handshake and of 1-RTT come out of a server's Initial. -/
structure Delivery.FromServer (scid : ConnectionId) (x : Delivery) : Prop where
  scid : x.packet.space ≠ .data → x.packet.scid = scid
  keys : x.fresh = true → x.packet.space ≠ .initial → x.conn.serverInitialSeen = true

instance (scid : ConnectionId) (x : Delivery) : Decidable (x.FromServer scid) :=
  decidable_of_iff (_ ∧ _) ⟨fun h => ⟨h.1, h.2⟩, fun h => ⟨h.scid, h.keys⟩⟩

/-- A long header is not read for its id any more, or the id in use is still the first. -/
def Delivery.Timely (x : Delivery) : Prop :=
  x.fresh = true → x.packet.space ≠ .data → x.conn.handshakeDone = false → x.conn.peerCidSeq = 0

instance (x : Delivery) : Decidable x.Timely :=
  inferInstanceAs (Decidable (_ = true → _ ≠ Space.data → _ = false → _ = 0))

theorem adoptScid_live {scid : ConnectionId} {p : Packet} (h : c.link.Addressed scid)
    (hscid : p.space ≠ .data → p.scid = scid)
    (hkeys : p.space ≠ .initial → c.serverInitialSeen = true)
    (htimely : p.space ≠ .data → c.handshakeDone = false → c.peerCidSeq = 0) :
    (c.adoptScid p).link.Live scid := by
  unfold adoptScid
  split
  · rename_i hlong
    rcases h with h | h
    · -- the first packet of the server
      have hinitial : p.space = .initial := by
        by_contra hne
        exact absurd ((hkeys hne).symm.trans h.seen) (by simp)
      have hnil : c.peerCids = [] := h.cids
      have hprior : c.retirePriorTo = 0 := h.prior
      have hseq : c.peerCidSeq = 0 := h.seq
      refine ⟨?_, ?_, ?_⟩
      · simp [link, hinitial]
      · simp only [link, hnil, List.isEmpty_nil, if_true, hprior, hscid hlong.1]
        exact CidTable.start scid
      · simp only [link, hnil, List.isEmpty_nil, if_true, hseq]
        exact ⟨_, List.mem_singleton_self _, rfl, rfl⟩
    · obtain ⟨p₀, hp₀, hseq, -⟩ := h.inUse
      have hne : c.peerCids.isEmpty = false := by
        cases hc : c.peerCids with
        | nil => exact absurd (hc ▸ hp₀ : p₀ ∈ []) List.not_mem_nil
        | cons => rfl
      have hzero : p₀.seq = 0 := hseq.trans (htimely hlong.1 hlong.2)
      have hseen : c.serverInitialSeen = true := h.seen
      refine ⟨?_, ?_, ?_⟩
      · simp [link, hseen]
      · simp only [link, hne]
        exact h.table
      · simp only [link, hne]
        exact ⟨p₀, hp₀, hseq, (h.table.first p₀ hp₀ hzero).trans (hscid hlong.1).symm⟩
  · rename_i hshort
    rcases h with h | h
    · -- a 1-RTT packet cannot be the first
      have hdata : p.space = .data := by
        by_contra hne
        exact hshort ⟨hne, h.handshaking⟩
      have hseen := hkeys (by rw [hdata]; decide)
      exact absurd (hseen.symm.trans h.seen) (by simp)
    · exact h

/-- A packet that is handled leaves the id in use a live one. -/
theorem handlePacket_addressed {scid : ConnectionId} {x : Delivery} (h : x.conn.link.Addressed scid)
    (hserver : x.FromServer scid) (htimely : x.Timely) : x.result.2.link.Addressed scid := by
  refine (handlePacket_invariant (I := fun c => c.link.Addressed scid)
    (J := fun c => c.link.Live scid) (Q := fun _ f => f.WellFormed) Or.inr (fun _ => h) ?_
    (fun h hf => handleFrame_live h x.packet.space hf x.now) (fun _ h => Or.inr h) h
    fun _ hf => wellFormed_of_packetFrames hf).1
  intro pn generation received ho hr
  have hfresh : x.fresh = true := by
    unfold Delivery.fresh
    rw [ho]
    simp only [hr]
  have hrotated : ∃ d : Connection, (x.conn.acceptPacket x.packet pn generation received).link =
      (d.adoptScid x.packet).link ∧ d.link.Addressed scid ∧
      d.serverInitialSeen = x.conn.serverInitialSeen ∧ d.handshakeDone = x.conn.handshakeDone ∧
      d.peerCidSeq = x.conn.peerCidSeq := by
    refine ⟨_, rfl, ?_⟩
    split
    · refine ⟨rotateKeys_addressed pn x.packet.phase h, ?_⟩
      unfold rotateKeys
      split <;> exact ⟨rfl, rfl, rfl⟩
    · exact ⟨h, rfl, rfl, rfl⟩
  obtain ⟨d, hd, haddr, hseen, hdone, hseq⟩ := hrotated
  rw [hd]
  refine adoptScid_live haddr hserver.scid (fun hne => ?_) fun hne hnot => ?_
  · rw [hseen]
    exact hserver.keys hfresh hne
  · rw [hseq]
    exact htimely hfresh hne (hdone ▸ hnot)

theorem step_addressed {scid : ConnectionId} {c' : Connection} {op : Op}
    (h : c.link.Addressed scid) (hp : ∀ x ∈ op.packets c, x.FromServer scid ∧ x.Timely)
    (hstep : op.step c = some c') : c'.link.Addressed scid := by
  cases op with
  | datagram now d =>
    cases hstep
    exact (Op.datagram_invariant (around_addressed scid)
      (fun h hx => handlePacket_addressed h hx.1 hx.2) h now d hp).1
  | transmit now pad =>
    rw [← Op.step_transmit hstep]
    rcases link_pollTransmit c now pad with hlink | hlink
    · exact hlink.symm ▸ h
    · exact hlink.symm ▸ pumpTls_addressed h
  | _ =>
    cases hstep
    simpa [link_eq] using h

end Connection

open Connection

/-- In every run in which the server uses one connection id in its long headers, and none of
its long-header packets is processed between the move to another id and HANDSHAKE_DONE: once
the first packet of the server has been processed, the id in use is the one the table has
under its number, and the number is not retired. -/
theorem peer_cid_is_live {scid : ConnectionId} {input : LocalParamsInput}
    {localCid initialDcid : ConnectionId} {tls : Tls} {ops : List Op} {c : Connection}
    (hmeets : Meets Op.step (fun c op => ∀ x ∈ op.packets c, x.FromServer scid ∧ x.Timely)
      (connect input localCid initialDcid tls) ops)
    (hrun : run Op.step (connect input localCid initialDcid tls) ops = some c)
    (hseen : c.serverInitialSeen = true) :
    (c.peerCids.find? fun p => p.seq = c.peerCidSeq).map (·.cid) = some c.peerCid ∧
    c.retirePriorTo ≤ c.peerCidSeq := by
  have hstart : (connect input localCid initialDcid tls).link.Addressed scid :=
    Or.inl ⟨rfl, rfl, rfl, rfl, rfl⟩
  rcases hmeets.invariant (P := fun c : Connection => c.link.Addressed scid)
    (fun h hp hs => step_addressed h hp hs) hstart hrun with h | h
  · exact absurd (hseen.symm.trans h.seen) (by simp)
  · exact ⟨h.find, h.notRetired⟩

/-! ## A Handshake packet that comes late -/

/-- A second connection id of the server, which retires the first. -/
def movedCid : ConnectionId := ⟨[7, 2, 3, 4, 5, 6, 7, 8], by decide⟩

/-- NEW_CONNECTION_ID number 1, `retire_prior_to` 1. -/
def moveFrame : Bytes := [0x18, 1, 1, 8] ++ movedCid.bytes ++ List.replicate 16 0

/-- The server has the 1-RTT keys before the handshake is confirmed and moves the client to
its second id. A Handshake packet sent before that comes behind it. -/
def lateHandshakeOps : List Op :=
  handshakeOps ++
    [ oneRttDatagram 2 0 moveFrame,
      .datagram 3 ⟨[.packet (serverPacket .handshake .handshake 0 putPing)], none⟩ ]

/-- The connection behind the first `n` of them. -/
def lateHandshakeAfter (n : Nat) : Connection :=
  (run Op.step newConnection (lateHandshakeOps.take n)).getD newConnection

/-- The move itself is in order. -/
theorem peer_cid_is_live_moved :
    (lateHandshakeAfter 3).peerCidSeq = 1 ∧
    ((lateHandshakeAfter 3).peerCids.find? fun p => p.seq =
      (lateHandshakeAfter 3).peerCidSeq).map (·.cid) = some (lateHandshakeAfter 3).peerCid := by
  have hmeets : Meets Op.step (fun c op => ∀ x ∈ op.packets c, x.FromServer serverCid ∧ x.Timely)
      newConnection (lateHandshakeOps.take 3) := by decide +kernel
  have hrun : run Op.step newConnection (lateHandshakeOps.take 3) = some
    (lateHandshakeAfter 3) := by
    decide +kernel
  exact ⟨by decide +kernel, (peer_cid_is_live hmeets hrun (by decide +kernel)).1⟩

/-- After the late packet the table has the second id under the number in use, and packets
are addressed to the first, which is retired. -/
theorem retired_cid_in_use :
    Meets Op.step (fun c op => ∀ x ∈ op.packets c, x.FromServer serverCid) newConnection
      lateHandshakeOps ∧
    run Op.step newConnection lateHandshakeOps = some (lateHandshakeAfter 4) ∧
    (lateHandshakeAfter 4).serverInitialSeen = true ∧
    ((lateHandshakeAfter 4).peerCids.find? fun p => p.seq =
      (lateHandshakeAfter 4).peerCidSeq).map (·.cid) = some movedCid ∧
    (lateHandshakeAfter 4).peerCid = serverCid ∧ movedCid ≠ serverCid := by
  decide +kernel

end Shb.Quic
