import Shb.Quic.Conn.Credit

/-!
# Where a limit is, until the peer has it

`Credited` is the invariant: every limit in force that is not the one the peer started with is in
a frame the peer will hear of, or owed. While a packet is being built the frames in it are neither
in flight nor owed; they are `hand`, which is empty between two calls. `Raises` is the other half,
that no limit falls.
-/

namespace Shb.Quic

open Lib Accounts

namespace Connection

/-- A frame was put in a 1-RTT packet that is in flight or was acknowledged. -/
def Announced (c : Connection) (acked : List SentPacket) (f : SentFrame) : Prop :=
  ∃ p, (p ∈ (c.space .data).sent.packets ∨ p ∈ acked) ∧ f ∈ p.frames

/-- The limits a connection started with are those of `start`. -/
structure Credited (acked : List SentPacket) (start : Connection) (hand : List SentFrame)
    (c : Connection) : Prop where
  window : c.streamWindow = start.streamWindow
  conn : c.maxDataLocal = start.maxDataLocal ∨ c.maxDataOwed = true ∨
    .maxData c.maxDataLocal ∈ hand ∨ c.Announced acked (.maxData c.maxDataLocal)
  stream : ∀ {id r}, c.recvMut id = some r → r.finalSize = none →
    r.maxData = start.streamWindow ∨ id ∈ c.creditPending ∨
    .maxStreamData id r.maxData ∈ hand ∨ c.Announced acked (.maxStreamData id r.maxData)
  ample : 0 < start.streamWindow → ∀ {id r}, c.recvMut id = some r → r.finalSize = none →
    r.Ample start.streamWindow ∨ id ∈ c.creditPending
  /-- Without a window no stream ever carries anything. -/
  shut : start.streamWindow = 0 → ∀ {id r}, c.recvMut id = some r → r.Shut
  response : ∀ {data}, c.pathResponse = some data → data.length = 8

/-- No limit falls; a stream that is there was there, unless it is new. -/
structure Raises (c c' : Connection) : Prop where
  limit : c.maxDataLocal ≤ c'.maxDataLocal
  opened : ∀ id, c.Opened id → c'.Opened id
  recvs : ∀ {id r'}, c'.recvMut id = some r' → c.Opened id →
    ∃ r, c.recvMut id = some r ∧ r.maxData ≤ r'.maxData

namespace Raises

variable {acked : List SentPacket} {c c' c'' : Connection}

theorem refl (c : Connection) : Raises c c :=
  ⟨Nat.le_refl _, fun _ h => h, fun h _ => ⟨_, h, Nat.le_refl _⟩⟩

theorem trans (h : Raises c c') (h' : Raises c' c'') : Raises c c'' where
  limit := h.limit.trans h'.limit
  opened id hid := h'.opened id (h.opened id hid)
  recvs {id r''} hr'' hid := by
    obtain ⟨r', hr', hle'⟩ := h'.recvs hr'' (h.opened id hid)
    obtain ⟨r, hr, hle⟩ := h.recvs hr' hid
    exact ⟨r, hr, hle.trans hle'⟩

theorem of_still (h : Still acked c c') : Raises c c' where
  limit := h.limit.ge
  opened := h.opened
  recvs hr' hid := by
    obtain ⟨r, hr | ⟨hnot, -⟩, hfollows⟩ := h.recvs hr'
    · exact ⟨r, hr, hfollows.limit.ge⟩
    · exact absurd hid hnot

theorem of_stock (h : c'.stock = c.stock) : Raises c c' :=
  have hs : Still [] c c' := .of_stock h
  .of_still hs

theorem of_recvs (hlimit : c.maxDataLocal ≤ c'.maxDataLocal) (hopened : c'.Opened = c.Opened)
    (hrecvs : c'.recvMut = c.recvMut) : Raises c c' :=
  ⟨hlimit, fun _ h => hopened ▸ h, fun {_ r'} hr' _ => ⟨r', hrecvs ▸ hr', Nat.le_refl _⟩⟩

end Raises

theorem new_ample {window : Nat} (h : 0 < window) : (RecvStream.new window).Ample window := by
  show 0 + window / 2 < window
  omega

theorem new_shut {window : Nat} (h : window = 0) : (RecvStream.new window).Shut :=
  ⟨h, rfl, rfl, rfl⟩

/-! ## What keeps it -/

namespace Credited

variable {acked : List SentPacket} {start c c' : Connection} {hand hand' : List SentFrame}

theorem connected (input : LocalParamsInput) (localCid initialDcid : ConnectionId) (tls : Tls) :
    Credited acked (connect input localCid initialDcid tls) []
      (connect input localCid initialDcid tls) := by
  have hnone : ∀ id, (connect input localCid initialDcid tls).recvMut id = none := by
    intro id
    have hindex : (connect input localCid initialDcid tls).streamIndex id = none := by
      cases hi : (connect input localCid initialDcid tls).streamIndex id with
      | none => rfl
      | some i => exact absurd (streamIndex_eq_some.mp hi).2 (Nat.not_lt_zero i)
    simp only [recvMut, hindex]
    rfl
  have hheld : ∀ {id r}, (connect input localCid initialDcid tls).recvMut id = some r → False :=
    fun {id r} h => absurd ((hnone id).symm.trans h) (by simp)
  exact ⟨rfl, Or.inl rfl, fun h => (hheld h).elim, fun _ _ _ h => (hheld h).elim,
    fun _ _ _ h => (hheld h).elim, fun h => absurd h (by simp [connect])⟩

theorem mono (h : Credited acked start hand c) (hsub : ∀ f ∈ hand, f ∈ hand') :
    Credited acked start hand' c where
  window := h.window
  conn := h.conn.imp_right (Or.imp_right (Or.imp_left (hsub _)))
  stream hr hnone := (h.stream hr hnone).imp_right (Or.imp_right (Or.imp_left (hsub _)))
  ample := h.ample
  shut := h.shut
  response := h.response

/-- A frame that was announced still is, or it is owed again. -/
theorem announced_still (hs : Still acked c c') {f : SentFrame} (h : c.Announced acked f) :
    c'.Requeued f ∨ c'.Announced acked f := by
  obtain ⟨p, hp, hf⟩ := h
  rcases hp with hp | hp
  · rcases hs.flight p hp with hp | hp | hp
    · exact Or.inr ⟨p, Or.inl hp, hf⟩
    · exact Or.inr ⟨p, Or.inr hp, hf⟩
    · exact Or.inl (hp f hf)
  · exact Or.inr ⟨p, Or.inr hp, hf⟩

theorem still (h : Credited acked start hand c) (hs : Still acked c c') :
    Credited acked start hand c' where
  window := hs.window.trans h.window
  conn := by
    rw [hs.limit]
    rcases h.conn with hinit | howed | hhand | hann
    · exact Or.inl hinit
    · exact Or.inr (Or.inl (hs.owed howed))
    · exact Or.inr (Or.inr (Or.inl hhand))
    · exact Or.inr ((announced_still hs hann).imp_right Or.inr)
  stream {id r'} hr' hnone := by
    obtain ⟨r, hr, hfollows⟩ := hs.recvs hr'
    rw [hfollows.limit]
    rcases hr with hr | ⟨-, rfl⟩
    · rcases h.stream hr (hfollows.size hnone) with hinit | hpending | hhand | hann
      · exact Or.inl hinit
      · exact Or.inr (Or.inl (hs.pending id hpending))
      · exact Or.inr (Or.inr (Or.inl hhand))
      · exact Or.inr ((announced_still hs hann).imp_right Or.inr)
    · exact Or.inl h.window
  ample hpos {id r'} hr' hnone := by
    obtain ⟨r, hr, hfollows⟩ := hs.recvs hr'
    rw [h.window] at hr hfollows
    have hbefore : r.Ample start.streamWindow ∨ id ∈ c'.creditPending := by
      rcases hr with hr | ⟨-, rfl⟩
      · exact (h.ample hpos hr (hfollows.size hnone)).imp_right (hs.pending id)
      · exact Or.inl (new_ample hpos)
    rcases hfollows.read hnone with hread | hample | hqueued
    · refine hbefore.imp_left fun hample => ?_
      unfold RecvStream.Ample at hample ⊢
      rw [hread, hfollows.limit]
      exact hample
    · exact Or.inl hample
    · exact Or.inr hqueued
  shut hzero {id r'} hr' := by
    obtain ⟨r, hr, hfollows⟩ := hs.recvs hr'
    rw [h.window] at hr
    refine hfollows.shut ?_
    rcases hr with hr | ⟨-, rfl⟩
    · exact h.shut hzero hr
    · exact new_shut hzero
  response {data} hdata := (hs.response data hdata).elim h.response id

theorem aside (h : Credited acked start hand c) (ha : Aside c c') :
    Credited acked start hand c' := by
  refine h.still (.of_recvs ha.desk (congrArg SentPackets.packets (ha.spaces .data).2)
    (fun id hid => ha.opened ▸ hid) fun {id r'} hr' => ?_)
  rw [ha.recvs] at hr'
  exact ⟨r', Or.inl hr', .refl r'⟩

/-- A stream leaves the list with its limit a window past what was read. -/
theorem grant (h : Credited acked start hand c) {id : Nat} {pending : List Nat} {r : RecvStream}
    (hlast : c.creditPending = pending ++ [id]) (hheld : c.recvMut id = some r)
    (hmem : .maxStreamData id (r.grant c.streamWindow).1 ∈ hand) :
    Credited acked start hand ({ c with creditPending := pending }.modifyRecv id fun _ =>
      (r.grant c.streamWindow).2) := by
  have hdesk := desk_modifyRecv { c with creditPending := pending } id fun _ =>
    (r.grant c.streamWindow).2
  have hspace := space_modifyRecv { c with creditPending := pending } id fun _ =>
    (r.grant c.streamWindow).2
  have hrecvs := recvMut_modifyRecv (c := { c with creditPending := pending }) hheld fun _ =>
    (r.grant c.streamWindow).2
  generalize ({ c with creditPending := pending }.modifyRecv id fun _ =>
    (r.grant c.streamWindow).2) = c' at hdesk hspace hrecvs ⊢
  have hlimit : c'.maxDataLocal = c.maxDataLocal := congrArg Desk.maxDataLocal hdesk
  have howed : c'.maxDataOwed = c.maxDataOwed := congrArg Desk.maxDataOwed hdesk
  have hpending : c'.creditPending = pending := congrArg Desk.creditPending hdesk
  have hresponse : c'.pathResponse = c.pathResponse := congrArg Desk.pathResponse hdesk
  have hannounced : c'.Announced acked = c.Announced acked := by
    unfold Announced
    rw [hspace]
    rfl
  -- a stream that is still there is this one, or as it was and owed as before
  have hcases : ∀ {id' r'}, c'.recvMut id' = some r' → id' = id ∧ r' = (r.grant c.streamWindow).2 ∨
      c.recvMut id' = some r' ∧ (id' ∈ c.creditPending → id' ∈ pending) := by
    intro id' r' hr'
    rw [hrecvs, Function.update_apply] at hr'
    split at hr'
    · rename_i hid
      exact Or.inl ⟨hid, (Option.some.inj hr').symm⟩
    · rename_i hid
      refine Or.inr ⟨hr', fun hin => ?_⟩
      rw [hlast] at hin
      exact (List.mem_append.mp hin).resolve_right fun hone => hid (List.mem_singleton.mp hone)
  refine ⟨(congrArg Desk.streamWindow hdesk).trans h.window, ?_, fun {id' r'} hr' hnone => ?_,
    fun hpos {id' r'} hr' hnone => ?_, fun hzero {id' r'} hr' => ?_, fun hd => ?_⟩
  · rw [hlimit, howed, hannounced]
    exact h.conn
  · rw [hannounced, hpending]
    rcases hcases hr' with ⟨rfl, rfl⟩ | ⟨hr, hin⟩
    · exact Or.inr (Or.inr (Or.inl hmem))
    · exact (h.stream hr hnone).imp_right (Or.imp_left hin)
  · rw [hpending]
    rcases hcases hr' with ⟨rfl, rfl⟩ | ⟨hr, hin⟩
    · refine Or.inl ?_
      show r.readOffset + start.streamWindow / 2 < max r.maxData (r.readOffset + c.streamWindow)
      rw [h.window]
      omega
    · exact (h.ample hpos hr hnone).imp_right hin
  · rcases hcases hr' with ⟨rfl, rfl⟩ | ⟨hr, -⟩
    · obtain ⟨hmax, hread, hready, hearly⟩ := h.shut hzero hheld
      refine ⟨?_, hread, hready, hearly⟩
      show max r.maxData (r.readOffset + c.streamWindow) = 0
      rw [hmax, hread, h.window, hzero]
      rfl
    · exact h.shut hzero hr
  · rw [hresponse] at hd
    exact h.response hd

end Credited

/-- A limit is raised to a window past what was read, or stays. -/
theorem Raises.grant {c : Connection} {id : Nat} {r : RecvStream} (hheld : c.recvMut id = some r)
    (pending : List Nat) :
    Raises c ({ c with creditPending := pending }.modifyRecv id fun _ =>
      (r.grant c.streamWindow).2) := by
  have hdesk := desk_modifyRecv { c with creditPending := pending } id fun _ =>
    (r.grant c.streamWindow).2
  refine ⟨(congrArg Desk.maxDataLocal hdesk).ge, fun id' h' => ?_, fun {id' r'} hr' _ => ?_⟩
  · rw [opened_modifyRecv]
    exact h'
  · rw [recvMut_modifyRecv (c := { c with creditPending := pending }) hheld,
      Function.update_apply] at hr'
    split at hr'
    · rename_i hid
      cases hr'
      rw [hid]
      exact ⟨r, hheld, Nat.le_max_left _ _⟩
    · exact ⟨r', hr', Nat.le_refl _⟩

theorem Raises.of_aside {c c' : Connection} (h : Aside c c') : Raises c c' :=
  .of_recvs (congrArg Desk.maxDataLocal h.desk).ge h.opened h.recvs

end Connection

/-! ## Building a packet -/

namespace Filling

open Connection

/-- The frames of a packet that count: one of another space carries no credit. -/
def hand (sp : Space) (fs : List SentFrame) : List SentFrame := if sp = .data then fs else []

theorem hand_append {sp : Space} {fs : List SentFrame} (f : SentFrame) :
    ∀ g ∈ hand sp fs, g ∈ hand sp (fs ++ [f]) := by
  intro g hg
  unfold hand at hg ⊢
  split
  · rename_i hsp
    rw [if_pos hsp] at hg
    exact List.mem_append_left _ hg
  · rename_i hsp
    rw [if_neg hsp] at hg
    exact absurd hg List.not_mem_nil

theorem mem_hand_append (fs : List SentFrame) (f : SentFrame) : f ∈ hand .data (fs ++ [f]) :=
  List.mem_append_right _ (List.mem_singleton.mpr rfl)

variable {acked : List SentPacket} {start c₀ : Connection} {sp : Space} {budget : Nat}

/-- What holds of a payload on the way. -/
structure Granting (acked : List SentPacket) (start c₀ : Connection) (sp : Space) (b : Filling) :
    Prop where
  credited : Credited acked start (hand sp b.frames) b.conn
  raises : Raises c₀ b.conn
  /-- A payload with nothing in it has nothing to recover. -/
  empty : b.out = [] → b.frames = []

variable {f : SentFrame} {w : Written} {b : Filling}

theorem out_put_ne_nil (b : Filling) (h : ∀ delay, w ≠ .ack [] delay) :
    (b.put w.put f).out ≠ [] := by
  intro hnil
  have hput := (List.append_eq_nil_iff.mp hnil).2
  have hhead := Written.head?_put h
  rw [hput] at hhead
  cases hhead

/-- A frame is put behind the others once the connection is as it should be. -/
theorem Granting.put {c : Connection} (hw : ∀ delay, w ≠ .ack [] delay)
    (hc : Credited acked start (hand sp (b.frames ++ [f])) c) (hr : Raises c₀ c) :
    Granting acked start c₀ sp ({ b with conn := c }.put w.put f) where
  credited := hc.still (.of_stock (stock_note c _))
  raises := hr.trans (.of_stock (stock_note c _))
  empty hnil := absurd hnil (out_put_ne_nil _ hw)

theorem Carries.ne_ack {c : Connection} {room : Nat} (h : Carries c sp room w f) (delay : Nat) :
    w ≠ .ack [] delay := by
  cases h <;> exact fun h => nomatch h

theorem Move.granting {b' : Filling} {ws : List Written} (h : Granting acked start c₀ sp b)
    (hm : Move sp budget b ws b') : Granting acked start c₀ sp b' := by
  obtain ⟨hc, hr, hempty⟩ := h
  cases hm with
  | between ha => exact ⟨hc.aside ha, hr.trans (.of_aside ha), hempty⟩
  | write ha hw =>
    exact .put hw.ne_ack ((hc.aside ha).mono (hand_append _)) (hr.trans (.of_aside ha))
  | respond _ _ _ =>
    refine ⟨⟨hc.window, hc.conn, hc.stream, hc.ample, hc.shut, fun h => nomatch h⟩,
      hr.trans (.of_recvs (Nat.le_refl _) rfl rfl), fun hnil => ?_⟩
    cases (List.append_eq_nil_iff.mp hnil).2
  | forget _ _ _ =>
    exact ⟨⟨hc.window, hc.conn, hc.stream, hc.ample, hc.shut, fun h => nomatch h⟩,
      hr.trans (.of_recvs (Nat.le_refl _) rfl rfl), hempty⟩
  | owe =>
    exact ⟨⟨hc.window, Or.inr (Or.inl rfl), hc.stream, hc.ample, hc.shut, hc.response⟩,
      hr.trans (.of_recvs (Nat.le_refl _) rfl rfl), hempty⟩
  | @extend limit hsp _ _ hle =>
    subst hsp
    have hc' := hc.mono (hand_append (.maxData limit))
    refine .put (w := .maxData _) (fun _ h => nomatch h) ?_ (hr.trans (.of_recvs hle rfl rfl))
    exact ⟨hc'.window, Or.inr (Or.inr (Or.inl (mem_hand_append _ _))), hc'.stream, hc'.ample,
      hc'.shut, hc'.response⟩
  | @pass id pending hlast hgone =>
    -- only a stream that is owed nothing leaves the list
    have hin : ∀ {id' r}, b.conn.recvMut id' = some r → r.finalSize = none →
        id' ∈ b.conn.creditPending → id' ∈ pending := by
      intro id' r hr hnone hmem
      rw [hlast] at hmem
      rcases List.mem_append.mp hmem with hmem | hmem
      · exact hmem
      · rw [List.mem_singleton.mp hmem] at hr
        have hknown := hgone r hr
        unfold RecvStream.sizeKnown at hknown
        rw [hnone] at hknown
        cases hknown
    exact ⟨⟨hc.window, hc.conn,
        fun hr hnone => (hc.stream hr hnone).imp_right (Or.imp_left (hin hr hnone)),
        fun hpos _ _ hr hnone => (hc.ample hpos hr hnone).imp_right (hin hr hnone), hc.shut,
        hc.response⟩,
      hr.trans (.of_recvs (Nat.le_refl _) rfl rfl), hempty⟩
  | @credit id pending r hsp hlast hheld _ _ =>
    subst hsp
    exact .put (w := .maxStreamData _ _) (fun _ h => nomatch h)
      ((hc.mono (hand_append _)).grant hlast hheld (mem_hand_append _ _))
      (hr.trans (.grant hheld pending))
  | @retire seq _ _ _ =>
    have hc' := hc.mono (hand_append (.retireConnectionId seq))
    exact .put (w := .retireConnectionId _) (fun _ h => nomatch h)
      ⟨hc'.window, hc'.conn, hc'.stream, hc'.ample, hc'.shut, hc'.response⟩
      (hr.trans (.of_recvs (Nat.le_refl _) rfl rfl))
  | @reset id error finalSize _ _ _ =>
    have hc' := hc.mono (hand_append (.resetStream id error finalSize))
    exact .put (w := .resetStream _ _ _) (fun _ h => nomatch h)
      ⟨hc'.window, hc'.conn, hc'.stream, hc'.ample, hc'.shut, hc'.response⟩
      (hr.trans (.of_recvs (Nat.le_refl _) rfl rfl))

theorem Granting.fill {b' : Filling} (h : Granting acked start c₀ sp b) (hf : Fill sp budget b b') :
    Granting acked start c₀ sp b' := by
  obtain ⟨ws, hf⟩ := hf
  exact hf.invariant (P := fun _ b => Granting acked start c₀ sp b) (fun h hm => hm.granting h) h

end Filling

namespace Connection

open Filling

section Sending

variable {acked : List SentPacket} {start c₀ : Connection} {sp : Space}

theorem fillPayload_credited {c c' : Connection} {now budget : Nat} {congested : Bool}
    {filled : Filled} (h : Credited acked start [] c) (hr : Raises c₀ c)
    (hf : c.fillPayload sp now budget congested = (.ok filled, c')) :
    Credited acked start (hand sp filled.frames) c' ∧ Raises c₀ c' ∧
      (filled.out = [] → filled.frames = []) := by
  obtain ⟨b, -, hframes, haside, hrest⟩ := fillPayload_parts hf
  have hstart : Granting acked start c₀ sp b := by
    refine ⟨(h.aside haside).mono nofun,
      hr.trans (.of_aside haside), fun _ => hframes⟩
  have hpath := hstart.fill (pathResponse_fill b sp budget)
  rcases hrest with ⟨close, -, -, hout, hframes', rfl⟩ | ⟨-, hout, hframes', rfl⟩
  · obtain ⟨hc, hr, hempty⟩ := hpath
    rw [hframes', hout]
    exact ⟨⟨hc.window, hc.conn, hc.stream, hc.ample, hc.shut, hc.response⟩,
      hr.trans (.of_recvs (Nat.le_refl _) rfl rfl),
      fun hnil => hempty (List.append_eq_nil_iff.mp hnil).1⟩
  · obtain ⟨hc, hr, hempty⟩ := hpath.fill (fillRest_fill _ sp budget congested)
    rw [hframes', hout]
    exact ⟨hc, hr, hempty⟩

theorem fillPayload_error {c c' : Connection} {now budget : Nat} {congested : Bool} {e : Fault}
    (h : c.fillPayload sp now budget congested = (.error e, c')) : c' = c := by
  unfold fillPayload at h
  split at h
  · rename_i e' b hack
    cases h
    unfold Filling.ack at hack
    dsimp only at hack
    split at hack
    · split at hack
      · cases hack
        rfl
      · cases hack
    · cases hack
  · dsimp only at h
    split at h <;> cases h

/-- A packet takes what was in hand into flight. -/
theorem Credited.emit {c : Connection} {p : SentPacket}
    (h : Credited acked start (hand sp p.frames) c) (now : Nat) :
    Credited acked start [] (c.emit sp p now) := by
  have hnote : ∀ d : Connection, Still acked d (if p.ackEliciting then d.noteSent now else d) := by
    intro d
    split
    · exact .of_stock (noteSent_elsewhere d now).stock
    · exact .refl d
  refine Credited.still ?_ (hnote _)
  have hflight : ∀ f, f ∈ hand sp p.frames ∨ c.Announced acked f →
      (c.modifySpace sp fun s => { s with
        nextPacketNumber := s.nextPacketNumber + 1, sent := s.sent.push p }).Announced acked f := by
    intro f hf
    unfold Announced
    rw [space_modifySpace]
    rcases hf with hf | ⟨q, hq, hqf⟩
    · unfold hand at hf
      split at hf
      · rename_i hsp
        rw [if_pos hsp.symm]
        exact ⟨p, Or.inl (List.mem_append_right _ (List.mem_singleton.mpr rfl)), hf⟩
      · exact absurd hf List.not_mem_nil
    · refine ⟨q, hq.imp_left fun hq => ?_, hqf⟩
      split
      · rename_i hsp
        rw [← hsp]
        exact List.mem_append_left _ hq
      · exact hq
  exact ⟨h.window, h.conn.imp_right (Or.imp_right fun hf => Or.inr (hflight _ hf)),
    fun hr hnone => (h.stream hr hnone).imp_right (Or.imp_right fun hf => Or.inr (hflight _ hf)),
    h.ample, h.shut, h.response⟩

theorem Raises.emit (c : Connection) (sp : Space) (p : SentPacket) (now : Nat) :
    Raises c (c.emit sp p now) := by
  have hspace : Raises c (c.modifySpace sp fun s => { s with
      nextPacketNumber := s.nextPacketNumber + 1, sent := s.sent.push p }) :=
    .of_recvs (Nat.le_refl _) rfl rfl
  unfold Connection.emit
  split
  · exact hspace.trans (.of_stock (noteSent_elsewhere _ now).stock)
  · exact hspace

theorem writePacket_credited {c : Connection} (h : Credited acked start [] c) (hr : Raises c₀ c)
    (sp : Space) (key : Key) (now written : Nat) (congested : Bool) (pad : Option Nat) :
    Credited acked start [] (c.writePacket sp key now written congested pad).2 ∧
      Raises c₀ (c.writePacket sp key now written congested pad).2 := by
  unfold writePacket
  split
  · exact ⟨h, hr⟩
  · dsimp only
    split
    · rename_i heq
      cases fillPayload_error heq
      exact ⟨h, hr⟩
    · rename_i filled c' heq
      obtain ⟨hc, hr', hempty⟩ := fillPayload_credited h hr heq
      split
      · rename_i hout
        rw [hempty (List.isEmpty_iff.mp hout)] at hc
        refine ⟨hc.mono fun f hf => ?_, hr'⟩
        unfold hand at hf
        split at hf <;> exact hf
      · refine ⟨Credited.emit ?_ now, hr'.trans (.emit _ _ _ _)⟩
        exact hc

theorem pollTransmit_credited {c : Connection} (h : Credited acked start [] c) (now : Nat)
    (pad : Option Nat) :
    Credited acked start [] (c.pollTransmit now pad).2 ∧ Raises c (c.pollTransmit now pad).2 := by
  have hkeep : ∀ {d d' : Connection}, d'.stock = d.stock →
      Credited acked start [] d ∧ Raises c d → Credited acked start [] d' ∧ Raises c d' :=
    fun hstock hi => ⟨hi.1.still (.of_stock hstock),
      hi.2.trans (.of_stock hstock)⟩
  refine pollTransmit_invariant (I := fun d => Credited acked start [] d ∧ Raises c d)
    ⟨h, .refl c⟩ (hkeep (handshaking_stock.pumpLoop _ _) ⟨h, .refl c⟩)
      (fun sp key written congested pad hi => ?_)
    (hkeep (stock_discardSpace _ fun h => nomatch h)) (hkeep (armIdle_elsewhere _ now).stock) pad
  exact writePacket_credited hi.1 hi.2 sp key now written congested pad

end Sending

/-! ## Runs -/

/-- The 1-RTT packets of ours that the ACK frames of a packet take out of flight. -/
def Delivery.acked (x : Delivery) : List SentPacket :=
  (x.conn.packetFrames x.now x.packet).flatMap fun y => y.1.ackedBy x.packet.space y.2

end Connection

namespace Op

open Connection

/-- Those an operation takes out of flight as acknowledged. -/
def acked (c : Connection) (op : Op) : List SentPacket := (op.packets c).flatMap Delivery.acked

/-- Those a run does. -/
def ackedIn : Connection → List Op → List SentPacket
  | _, [] => []
  | c, op :: ops =>
    op.acked c ++ match op.step c with
      | some c' => ackedIn c' ops
      | none => []

theorem meets_acked {all : List SentPacket} : ∀ {ops : List Op} {c : Connection},
    (∀ p ∈ ackedIn c ops, p ∈ all) →
    Meets Op.step (fun c op => ∀ p ∈ op.acked c, p ∈ all) c ops
  | [], _, _ => trivial
  | op :: ops, c, h => by
    refine ⟨fun p hp => h p (List.mem_append_left _ hp), fun c' hstep => meets_acked fun p hp => ?_⟩
    refine h p (List.mem_append_right _ ?_)
    rw [hstep]
    exact hp

/-- What a connection keeps between two operations. -/
structure Keeps (all : List SentPacket) (start c : Connection) : Prop where
  wf : c.accounts.Wf
  credited : Credited all start [] c

variable {all : List SentPacket} {start c₀ : Connection}

theorem Keeps.calm {c c' : Connection} (h : Keeps all start c ∧ Raises c₀ c) (hc : Calm all c c') :
    Keeps all start c' ∧ Raises c₀ c' := by
  obtain ⟨hw, hs⟩ := hc h.1.wf
  exact ⟨⟨hw, h.1.credited.still hs⟩, h.2.trans (.of_still hs)⟩

theorem Keeps.around : Around fun c => Keeps all start c ∧ Raises c₀ c :=
  Elsewhere.around (fun he h => Keeps.calm h (.elsewhere he)) fun dcid scid token tag h =>
    Keeps.calm h (.of_does (onRetry_does _ dcid scid token tag) fun _ =>
      .of_stock (stock_onRetry _ dcid scid token tag))

theorem Keeps.packet {x : Delivery} (h : Keeps all start x.conn ∧ Raises c₀ x.conn)
    (hacked : ∀ p ∈ x.acked, p ∈ all) : Keeps all start x.result.2 ∧ Raises c₀ x.result.2 := by
  refine (handlePacket_invariant (I := fun c => Keeps all start c ∧ Raises c₀ c)
    (J := fun c => Keeps all start c ∧ Raises c₀ c)
    (Q := fun c f => ∀ p ∈ c.ackedBy x.packet.space f, p ∈ all) (fun h => h) (fun received => ?_)
    (fun pn generation received _ _ => ?_) (fun hj hq => ?_) (fun _ hj => ?_) h
    fun y hy p hp => hacked p (List.mem_flatMap.mpr ⟨y, hy, hp⟩)).1
  · exact Keeps.calm h (.of_eq (accounts_modifySpace_of rfl rfl) (stock_modifySpace _ fun _ => rfl))
  · exact Keeps.calm h (.elsewhere (acceptPacket_elsewhere ..))
  · exact Keeps.calm hj (handleFrame_calm _ _ _ _ hq)
  · exact Keeps.calm hj (.of_does (recordPacket_does _ _ _ _ _) fun _ =>
      .of_stock (stock_recordPacket ..))

theorem Keeps.step {c c' : Connection} {op : Op} (h : Keeps all start c)
    (hacked : ∀ p ∈ op.acked c, p ∈ all) (hstep : op.step c = some c') :
    Keeps all start c' ∧ Raises c c' := by
  have hlocal : ∀ d : Connection, Calm all c d → some d = some c' →
      Keeps all start c' ∧ Raises c c' := by
    intro d hd heq
    cases heq
    exact Keeps.calm ⟨h, .refl c⟩ hd
  cases op with
  | datagram now d =>
    cases hstep
    refine (datagram_invariant (P := fun x => ∀ p ∈ x.acked, p ∈ all) Keeps.around
      (fun hi hp => Keeps.packet hi hp) ⟨h, .refl c⟩ now d fun x hx p hp => ?_).1
    exact hacked p (List.mem_flatMap.mpr ⟨x, hx, hp⟩)
  | transmit now pad =>
    have hpoll := pollTransmit_credited h.credited now pad
    have hwf := h.wf.path (pollTransmit_does c now pad h.wf)
    rw [← Op.step_transmit hstep]
    exact ⟨⟨hwf, hpoll.1⟩, hpoll.2⟩
  | timeout now => exact hlocal _ (handleTimeout_calm c now) hstep
  | openBi => exact hlocal _ (.of_does (openBi_does c) still_openBi) hstep
  | openUni =>
    refine hlocal _ (.of_does (openUni_does c) fun _ => .of_stock ?_) hstep
    unfold Connection.openUni
    split <;> rfl
  | sendOneshot data =>
    exact hlocal _ (.of_does (sendOneshot_does c data) fun hw => sendOneshot_still hw data) hstep
  | write id data =>
    exact hlocal _ (.of_does (write_does c id data) fun _ => write_still c id data) hstep
  | finish id =>
    refine hlocal _ (Calm.trans ?_ ((Calm.modifySend id _).trans (Calm.queueSend id))) hstep
    exact .of_eq rfl (Elsewhere.wake c).stock
  | consume id f =>
    exact hlocal _ (.of_does (consume_does c id f) fun _ => consume_still c id f) hstep
  | retire id cancel => exact hlocal _ (retire_calm c id cancel) hstep
  | pollEvent => exact hlocal _ (.of_eq (accounts_pollEvent c) (stock_pollEvent c)) hstep
  | close code reason =>
    exact hlocal _ (.elsewhere (close_elsewhere c code reason)) hstep

theorem Keeps.run {c c' : Connection} {ops : List Op} (h : Keeps all start c)
    (hacked : ∀ p ∈ ackedIn c ops, p ∈ all) (hrun : Lib.run Op.step c ops = some c') :
    Keeps all start c' ∧ Raises c c' := by
  refine (meets_acked hacked).invariant (P := fun d => Keeps all start d ∧ Raises c d)
    (fun {d op d'} hd hp hstep => ?_) ⟨h, .refl c⟩ hrun
  obtain ⟨hkeeps, hraises⟩ := Keeps.step hd.1 hp hstep
  exact ⟨hkeeps, hd.2.trans hraises⟩

end Op

open Connection

theorem RecvStream.sizeKnown_eq_false {r : RecvStream} :
    r.sizeKnown = false ↔ r.finalSize = none := by
  unfold sizeKnown
  cases r.finalSize <;> simp

/-- What a read leaves when the reader takes it. -/
theorem Connection.consume_taken {ε : Type} {c : Connection} {id n : Nat} {recv recv' : RecvStream}
    {f : Bytes → Except ε Unit} (hheld : c.recvMut id = some recv)
    (hc : recv.consume f = (.ok n, recv')) :
    (c.consume id f).2.recvMut id = some recv' ∧
      (recv'.wantsCredit c.streamWindow = true → id ∈ (c.consume id f).2.creditPending) := by
  have hwindow : (c.modifyRecv id fun _ => recv').streamWindow = c.streamWindow :=
    congrArg Desk.streamWindow (desk_modifyRecv c id _)
  have hrecv : (c.modifyRecv id fun _ => recv').recvMut id = some recv' := by
    rw [recvMut_modifyRecv hheld, Function.update_self]
  simp only [consume, hheld, hc, hwindow]
  generalize (c.modifyRecv id fun _ => recv') = c₁ at hrecv
  split
  · refine ⟨?_, fun _ => mem_queueCredit c₁ id⟩
    exact (congrFun (congrArg Accounts.recvs (accounts_queueCredit c₁ id)) id).trans hrecv
  · rename_i hwants
    exact ⟨hrecv, fun h => absurd h hwants⟩

/-- After a read the peer has ample room, or is owed a MAX_STREAM_DATA; also when the reader
refuses what it is shown. -/
theorem Connection.Credited.consume {ε : Type} {acked : List SentPacket} {start c : Connection}
    {hand : List SentFrame} (h : Credited acked start hand c) (id : Nat) (f : Bytes → Except ε Unit)
    {r : RecvStream} (hr : (c.consume id f).2.recvMut id = some r) (hnone : r.finalSize = none) :
    r.Ample start.streamWindow ∨ id ∈ (c.consume id f).2.creditPending := by
  rcases Nat.eq_zero_or_pos start.streamWindow with hzero | hpos
  · -- with no window nothing was ever ready, so the reader is not asked
    cases hheld : c.recvMut id with
    | none =>
      simp only [Connection.consume, hheld] at hr
      cases hr
    | some recv =>
      have hshut := h.shut hzero hheld
      have hc : recv.consume f = (.ok 0, recv) := by
        unfold RecvStream.consume
        rw [hshut.2.2.1]
        rfl
      obtain ⟨hafter, hqueued⟩ := consume_taken hheld hc
      cases hafter.symm.trans hr
      refine Or.inr (hqueued ?_)
      unfold RecvStream.wantsCredit
      rw [RecvStream.sizeKnown_eq_false.mpr hnone, hshut.1]
      simp
  · exact (h.still (consume_still c id f)).ample hpos hr hnone

/-- **Receive credit is never lost.** In every state a connection reaches, the limit of the
connection is the one it started with, or is in a MAX_DATA frame that is in flight or was
acknowledged, or a MAX_DATA is owed; the same of the limit of every stream held whose size is not
known, with MAX_STREAM_DATA and `credit_pending`. From there on no limit ever falls, and a read
leaves the peer more than half a window or the stream in `credit_pending`. -/
theorem receive_credit_is_never_lost {input : LocalParamsInput}
    {localCid initialDcid : ConnectionId} {tls : Tls} {ops : List Op} {c : Connection}
    (hrun : run Op.step (connect input localCid initialDcid tls) ops = some c) :
    (c.maxDataLocal = input.initialMaxData ∨
      c.Announced (Op.ackedIn (connect input localCid initialDcid tls) ops)
        (.maxData c.maxDataLocal) ∨
      c.maxDataOwed = true) ∧
    (∀ id r, c.recvMut id = some r → r.sizeKnown = false →
      r.maxData = input.initialMaxStreamData ∨
      c.Announced (Op.ackedIn (connect input localCid initialDcid tls) ops)
        (.maxStreamData id r.maxData) ∨
      id ∈ c.creditPending) ∧
    (∀ ops' c', run Op.step c ops' = some c' → c.maxDataLocal ≤ c'.maxDataLocal ∧
      ∀ id r r', c.recvMut id = some r → c'.recvMut id = some r' → r.maxData ≤ r'.maxData) ∧
    ∀ (ε : Type) (id : Nat) (f : Bytes → Except ε Unit) (r : RecvStream),
      (c.consume id f).2.recvMut id = some r → r.sizeKnown = false →
      r.readOffset + input.initialMaxStreamData / 2 < r.maxData ∨
      id ∈ (c.consume id f).2.creditPending := by
  have hstart : ∀ all, Op.Keeps all (connect input localCid initialDcid tls)
      (connect input localCid initialDcid tls) := by
    intro all
    refine ⟨?_, .connected input localCid initialDcid tls⟩
    rw [accounts_connect]
    exact Wf.start _
  have hkeeps := (Op.Keeps.run (hstart _) (fun _ hp => hp) hrun).1
  refine ⟨?_, fun id r hr hnone => ?_, fun ops' c' hrun' => ?_,
    fun ε id f r hr hnone => ?_⟩
  · rcases hkeeps.credited.conn with hinit | howed | hhand | hann
    · exact Or.inl hinit
    · exact Or.inr (Or.inr howed)
    · exact absurd hhand List.not_mem_nil
    · exact Or.inr (Or.inl hann)
  · rcases hkeeps.credited.stream hr (RecvStream.sizeKnown_eq_false.mp hnone) with
      hinit | hpending | hhand | hann
    · exact Or.inl hinit
    · exact Or.inr (Or.inr hpending)
    · exact absurd hhand List.not_mem_nil
    · exact Or.inr (Or.inl hann)
  · -- the packets of both parts of the run, so that one invariant serves both
    have hfirst := (Op.Keeps.run (hstart (_ ++ Op.ackedIn c ops'))
      (fun _ hp => List.mem_append_left _ hp) hrun).1
    have hraises := (Op.Keeps.run hfirst (fun _ hp => List.mem_append_right _ hp) hrun').2
    refine ⟨hraises.limit, fun id r r' hr hr' => ?_⟩
    obtain ⟨r₀, hr₀, hle⟩ := hraises.recvs hr' (opened_of_recvMut hr)
    cases hr.symm.trans hr₀
    exact hle
  · exact hkeeps.credited.consume id f hr (RecvStream.sizeKnown_eq_false.mp hnone)

/-- A request whose response body takes more than half of both windows is read. -/
def readOps : List Op :=
  handshakeOps ++
    [ .openBi,
      oneRttDatagram 2 0 (putStream 0 0 false (List.replicate 60 7)),
      .consume 0 (fun _ => .ok ()),
      .transmit 3 none,
      .transmit 4 none ]

def afterRead : Connection := (run Op.step newConnection readOps).getD newConnection

/-- Both new limits are on their way. -/
theorem receive_credit_is_never_lost_read :
    run Op.step newConnection readOps = some afterRead ∧
    afterRead.Announced (Op.ackedIn newConnection readOps) (.maxData 160) ∧
    afterRead.Announced (Op.ackedIn newConnection readOps) (.maxStreamData 0 160) := by
  have hrun : run Op.step newConnection readOps = some afterRead := by decide +kernel
  obtain ⟨hconn, hstream, -, -⟩ := receive_credit_is_never_lost hrun
  have hlimit : afterRead.maxDataLocal = 160 := by decide +kernel
  have howed : afterRead.maxDataOwed = false := by decide +kernel
  have hpending : afterRead.creditPending = [] := by decide +kernel
  refine ⟨hrun, ?_, ?_⟩
  · rw [hlimit, howed] at hconn
    rcases hconn with hinit | hann | howed
    · cases hinit
    · exact hann
    · cases howed
  · have hheld : (afterRead.recvMut 0).map (fun r => (r.sizeKnown, r.maxData)) =
        some (false, 160) := by decide +kernel
    obtain ⟨r, hr, hpair⟩ := Option.map_eq_some_iff.mp hheld
    obtain ⟨hopen, hmax⟩ := Prod.mk.inj hpair
    have h := hstream 0 r hr hopen
    rw [hmax, hpending] at h
    rcases h with hinit | hann | hpending
    · cases hinit
    · exact hann
    · exact absurd hpending List.not_mem_nil

end Shb.Quic
