import Shb.Quic.Conn.Accounts
import Shb.Quic.Conn.Arrivals

/-!
# The ring and the lists are maps

What a change at one place — a slot of the ring, an entry of a list, one packet number
space — does to the accounts. Past this file the ring's indices do not appear in a proof
about the accounts.
-/

namespace Shb.Quic

/-! ## The lists of unidirectional streams -/

section Lists

variable {α : Type}

theorem findStream_modifyFirst (id id' : Nat) (f : α → α) (l : List (Nat × α)) :
    findStream id' (modifyFirst id f l) =
      if id' = id then (findStream id l).map f else findStream id' l := by
  induction l with
  | nil => split <;> rfl
  | cons p l ih =>
    obtain ⟨uid, a⟩ := p
    simp only [modifyFirst, findStream]
    by_cases hu : uid = id
    · subst hu
      by_cases hid : id' = uid
      · subst hid
        simp [findStream]
      · simp [findStream, hid, Ne.symm hid]
    · simp only [if_neg hu, findStream, ih]
      by_cases hid : id' = id
      · subst hid
        simp [hu]
      · simp [hid]

theorem map_fst_modifyFirst (id : Nat) (f : α → α) (l : List (Nat × α)) :
    (modifyFirst id f l).map (·.1) = l.map (·.1) := by
  induction l with
  | nil => rfl
  | cons p l ih =>
    simp only [modifyFirst]
    split
    · rfl
    · simp [ih]

theorem findStream_append (id : Nat) (l m : List (Nat × α)) :
    findStream id (l ++ m) = (findStream id l).or (findStream id m) := by
  induction l with
  | nil => rfl
  | cons p l ih =>
    simp only [List.cons_append, findStream]
    split
    · rfl
    · exact ih

variable {id : Nat}

theorem findStream_eq_none {l : List (Nat × α)} (h : id ∉ l.map (·.1)) :
    findStream id l = none := by
  induction l with
  | nil => rfl
  | cons p l ih =>
    simp only [List.map_cons, List.mem_cons, not_or] at h
    simp only [findStream, if_neg (Ne.symm h.1)]
    exact ih h.2

/-- With distinct ids, the entry at an index is the first under its id. -/
theorem findStream_getElem {l : List (Nat × α)} (hnd : (l.map (·.1)).Nodup) {i : Nat} {a : α}
    (h : l[i]? = some (id, a)) : findStream id l = some a := by
  induction l generalizing i with
  | nil => simp at h
  | cons p l ih =>
    obtain ⟨uid, b⟩ := p
    simp only [List.map_cons, List.nodup_cons] at hnd
    cases i with
    | zero =>
      simp only [List.getElem?_cons_zero, Option.some.injEq, Prod.mk.injEq] at h
      simp [findStream, h.1, h.2]
    | succ i =>
      have hne : uid ≠ id := by
        rintro rfl
        exact hnd.1 (List.mem_map.mpr ⟨_, List.mem_of_getElem? h, rfl⟩)
      simp only [findStream, if_neg hne]
      exact ih hnd.2 h

theorem set_eq_modifyFirst {l : List (Nat × α)} (hnd : (l.map (·.1)).Nodup) {i : Nat} {a : α}
    (h : l[i]? = some (id, a)) (b : α) : l.set i (id, b) = modifyFirst id (fun _ => b) l := by
  induction l generalizing i with
  | nil => simp at h
  | cons p l ih =>
    obtain ⟨uid, c⟩ := p
    simp only [List.map_cons, List.nodup_cons] at hnd
    cases i with
    | zero =>
      simp only [List.getElem?_cons_zero, Option.some.injEq, Prod.mk.injEq] at h
      simp [modifyFirst, h.1]
    | succ i =>
      have hne : uid ≠ id := by
        rintro rfl
        exact hnd.1 (List.mem_map.mpr ⟨_, List.mem_of_getElem? h, rfl⟩)
      simp only [List.set_cons_succ, modifyFirst, if_neg hne]
      rw [ih hnd.2 h]

end Lists

namespace Connection

/-! ## The ring -/

/-- The streams we open both ways are the multiples of four. -/
theorem isRequest_iff (id : Nat) :
    (!isClientInitiated id || decide (streamDir id ≠ .bi)) = decide (id % 4 ≠ 0) := by
  unfold isClientInitiated streamDir
  by_cases h2 : id % 2 = 0
  · by_cases hd : id / 2 % 2 = 0
    · have : id % 4 = 0 := by omega
      simp [h2, hd, this]
    · have : id % 4 ≠ 0 := by omega
      simp [h2, hd, this]
  · have : id % 4 ≠ 0 := by omega
    simp [h2, this]

variable {c : Connection} {i id : Nat} {pair : StreamPair} {sp : Space}

theorem streamIndex_eq_some :
    c.streamIndex id = some i ↔ id = 4 * (c.baseStream + i) ∧ i < c.streams.length := by
  unfold streamIndex
  rw [isRequest_iff]
  simp only [decide_eq_true_eq]
  split
  · simp only [reduceCtorEq, false_iff, not_and]
    omega
  · split
    · simp only [reduceCtorEq, false_iff, not_and]
      omega
    · split
      · simp only [Option.some.injEq]
        omega
      · simp only [reduceCtorEq, false_iff, not_and]
        omega

variable (c)

/-- `sendMut` and `recvMut` are one lookup: a half of the slot, or an entry of a list. -/
def half {α : Type} (proj : StreamPair → α) (l : List (Nat × α)) (id : Nat) : Option α :=
  match c.streamIndex id with
  | some i => (c.pairAt i).map proj
  | none => findStream id l

theorem isRetired_eq (id : Nat) : c.isRetired id = (c.half (·.retired) [] id).getD false := by
  unfold isRetired half
  cases c.streamIndex id with
  | none => rfl
  | some i => cases h : c.pairAt i <;> simp [h]

theorem pairAt_modifyPair (i j : Nat) (f : StreamPair → StreamPair) :
    (c.modifyPair i f).pairAt j = if j = i then (c.pairAt i).map f else c.pairAt j := by
  unfold pairAt modifyPair
  simp only [List.getElem?_modify]
  by_cases h : j = i
  · subst h
    cases hj : c.streams[j]? with
    | none => simp
    | some o => cases o <;> simp
  · simp [h, Ne.symm h]

theorem streamIndex_modifyPair (i id : Nat) (f : StreamPair → StreamPair) :
    (c.modifyPair i f).streamIndex id = c.streamIndex id := by
  simp [streamIndex, modifyPair]

variable {c}

/-- Two streams in one slot are the same stream. -/
theorem streamIndex_inj {id' : Nat} (h : c.streamIndex id = some i)
    (h' : c.streamIndex id' = some i) : id' = id := by
  rw [(streamIndex_eq_some.mp h).1, (streamIndex_eq_some.mp h').1]

theorem half_modifyPair {α : Type} (hi : c.streamIndex id = some i) (hp : c.pairAt i = some pair)
    (f : StreamPair → StreamPair) (proj : StreamPair → α) (l : List (Nat × α)) :
    (c.modifyPair i f).half proj l = Function.update (c.half proj l) id (some (proj (f pair))) := by
  funext id'
  rw [Function.update_apply]
  unfold half
  rw [streamIndex_modifyPair]
  by_cases hid : id' = id
  · subst hid
    simp [hi, pairAt_modifyPair, hp]
  · rw [if_neg hid]
    cases hi' : c.streamIndex id' with
    | none => rfl
    | some j =>
      have hne : j ≠ i := by
        rintro rfl
        exact hid (streamIndex_inj hi hi')
      simp only [pairAt_modifyPair, if_neg hne]

theorem half_modifyFirst {α : Type} (hi : c.streamIndex id = none) (f : α → α)
    (proj : StreamPair → α) (l : List (Nat × α)) :
    c.half proj (modifyFirst id f l) =
      Function.update (c.half proj l) id ((findStream id l).map f) := by
  funext id'
  rw [Function.update_apply]
  unfold half
  by_cases hid : id' = id
  · subst hid
    simp [hi, findStream_modifyFirst]
  · rw [if_neg hid]
    cases c.streamIndex id' with
    | none => simp [findStream_modifyFirst, hid]
    | some j => rfl

section

variable (hi : c.streamIndex id = some i)
include hi

theorem accounts_modifyPair (hp : c.pairAt i = some pair) (f : StreamPair → StreamPair) :
    (c.modifyPair i f).accounts = { c.accounts with
      sends := Function.update c.accounts.sends id (some (f pair).send)
      recvs := Function.update c.accounts.recvs id (some (f pair).recv)
      retired := Function.update c.accounts.retired id (f pair).retired } := by
  have hlen : (c.modifyPair i f).streams.length = c.streams.length := by simp [modifyPair]
  ext1
  case sends => exact half_modifyPair hi hp f (·.send) c.localUni
  case recvs => exact half_modifyPair hi hp f (·.recv) c.peerUni
  case retired =>
    funext id'
    show (c.modifyPair i f).isRetired id' = Function.update c.isRetired id (f pair).retired id'
    rw [isRetired_eq, half_modifyPair hi hp, Function.update_apply,
      Function.update_apply, isRetired_eq]
    split <;> rfl
  case ringEnd => exact congrArg (c.baseStream + ·) hlen
  all_goals rfl

theorem sendMut_of_pairAt (hp : c.pairAt i = some pair) : c.accounts.sends id = some pair.send := by
  show c.sendMut id = _
  simp [sendMut, hi, hp]

theorem recvMut_of_pairAt (hp : c.pairAt i = some pair) : c.accounts.recvs id = some pair.recv := by
  show c.recvMut id = _
  simp [recvMut, hi, hp]

theorem isRetired_of_pairAt (hp : c.pairAt i = some pair) :
    c.accounts.retired id = pair.retired := by
  show c.isRetired id = _
  simp [isRetired, hi, hp]

theorem accounts_modifySlot (hp : c.pairAt i = some pair) {f : StreamPair → StreamPair}
    (hrecv : (f pair).recv = pair.recv) (hret : (f pair).retired = pair.retired) :
    (c.modifyPair i f).accounts =
      { c.accounts with sends := Function.update c.accounts.sends id (some (f pair).send) } := by
  rw [accounts_modifyPair hi hp, hrecv, hret, ← recvMut_of_pairAt hi hp,
    ← isRetired_of_pairAt hi hp]
  simp

end

theorem modifyPair_none (hp : c.pairAt i = none) (f : StreamPair → StreamPair) :
    c.modifyPair i f = c :=
  modifyPair_eq_self fun _ h => nomatch hp.symm.trans h

/-- Whether a stream is queued, or reported, is no part of the accounts. -/
theorem accounts_modifyFlags (hi : c.streamIndex id = some i) (f : StreamPair → StreamPair)
    (hf : ∀ p, (f p).send = p.send ∧ (f p).recv = p.recv ∧ (f p).retired = p.retired) :
    (c.modifyPair i f).accounts = c.accounts := by
  cases hp : c.pairAt i with
  | none => rw [modifyPair_none hp]
  | some pair =>
    obtain ⟨h1, h2, h3⟩ := hf pair
    rw [accounts_modifyPair hi hp, h1, h2, h3, ← sendMut_of_pairAt hi hp, ← recvMut_of_pairAt hi hp,
      ← isRetired_of_pairAt hi hp]
    simp

@[simp] theorem accounts_queueSend (c : Connection) (id : Nat) :
    (c.queueSend id).accounts = c.accounts := by
  unfold queueSend
  split
  · rfl
  · rename_i i hi
    split
    · rfl
    · split
      · rfl
      · exact accounts_modifyFlags hi _ fun p => ⟨rfl, rfl, rfl⟩

theorem accounts_modifySend {s : SendStream} (hs : c.sendMut id = some s)
    (f : SendStream → SendStream) :
    (c.modifySend id f).accounts =
      { c.accounts with sends := Function.update c.accounts.sends id (some (f s)) } := by
  unfold sendMut at hs
  unfold modifySend
  cases hi : c.streamIndex id with
  | some i =>
    rw [hi] at hs
    simp only [Option.map_eq_some_iff] at hs
    obtain ⟨pair, hp, rfl⟩ := hs
    exact accounts_modifySlot hi hp rfl rfl
  | none =>
    rw [hi] at hs
    simp only at hs ⊢
    have hhalf := half_modifyFirst hi f (·.send) c.localUni
    rw [hs] at hhalf
    ext1
    case sends => exact hhalf
    case uniIds => exact map_fst_modifyFirst id f c.localUni
    all_goals rfl

theorem accounts_modifySend_none (hs : c.sendMut id = none) (f : SendStream → SendStream) :
    (c.modifySend id f).accounts = c.accounts := by
  unfold sendMut at hs
  unfold modifySend
  cases hi : c.streamIndex id with
  | some i =>
    rw [hi] at hs
    simp only [Option.map_eq_none_iff] at hs
    simp only
    rw [modifyPair_none hs]
  | none =>
    rw [hi] at hs
    simp only at hs ⊢
    have hhalf := half_modifyFirst hi f (·.send) c.localUni
    have hnone : c.half (·.send) c.localUni id = none := by simp [half, hi, hs]
    rw [hs, Option.map_none, ← hnone, Function.update_eq_self] at hhalf
    ext1
    case sends => exact hhalf
    case uniIds => exact map_fst_modifyFirst id f c.localUni
    all_goals rfl

theorem accounts_modifyRecv {r : RecvStream} (hr : c.recvMut id = some r)
    (f : RecvStream → RecvStream) :
    (c.modifyRecv id f).accounts =
      { c.accounts with recvs := Function.update c.accounts.recvs id (some (f r)) } := by
  unfold recvMut at hr
  unfold modifyRecv
  cases hi : c.streamIndex id with
  | some i =>
    rw [hi] at hr
    simp only [Option.map_eq_some_iff] at hr
    obtain ⟨pair, hp, rfl⟩ := hr
    rw [accounts_modifyPair hi hp, ← sendMut_of_pairAt hi hp, ← isRetired_of_pairAt hi hp]
    simp
  | none =>
    rw [hi] at hr
    simp only at hr ⊢
    have hhalf := half_modifyFirst hi f (·.recv) c.peerUni
    rw [hr] at hhalf
    ext1
    case recvs => exact hhalf
    case peerIds => exact map_fst_modifyFirst id f c.peerUni
    all_goals rfl

/-! ## Packet number spaces -/

theorem space_modifySpace (c : Connection) (sp sp' : Space) (f : SpaceState → SpaceState) :
    (c.modifySpace sp f).space sp' = if sp' = sp then f (c.space sp) else c.space sp' :=
  Spaces.get_modify c.spaces sp sp' f

theorem accounts_modifySpace (c : Connection) (sp : Space) (f : SpaceState → SpaceState) :
    (c.modifySpace sp f).accounts = { c.accounts with
      acks := Function.update c.accounts.acks sp (f (c.space sp)).ack
      flight := Function.update c.accounts.flight sp (f (c.space sp)).sent.packets } := by
  ext1
  case acks =>
    funext sp'
    show ((c.modifySpace sp f).space sp').ack =
      Function.update (fun sp => (c.space sp).ack) sp (f (c.space sp)).ack sp'
    rw [space_modifySpace, Function.update_apply]
    split <;> rfl
  case flight =>
    funext sp'
    show ((c.modifySpace sp f).space sp').sent.packets =
      Function.update (fun sp => (c.space sp).sent.packets) sp (f (c.space sp)).sent.packets sp'
    rw [space_modifySpace, Function.update_apply]
    split <;> rfl
  all_goals rfl

theorem accounts_modifySpace_ack {f : SpaceState → SpaceState}
    (hf : (f (c.space sp)).sent.packets = (c.space sp).sent.packets) :
    (c.modifySpace sp f).accounts =
      { c.accounts with acks := Function.update c.accounts.acks sp (f (c.space sp)).ack } := by
  rw [accounts_modifySpace, hf]
  simp [accounts]

theorem accounts_modifySpace_flight {f : SpaceState → SpaceState}
    (hf : (f (c.space sp)).ack = (c.space sp).ack) :
    (c.modifySpace sp f).accounts = { c.accounts with
      flight := Function.update c.accounts.flight sp (f (c.space sp)).sent.packets } := by
  rw [accounts_modifySpace, hf]
  simp [accounts]

theorem accounts_modifySpace_of {f : SpaceState → SpaceState}
    (hack : (f (c.space sp)).ack = (c.space sp).ack)
    (hsent : (f (c.space sp)).sent.packets = (c.space sp).sent.packets) :
    (c.modifySpace sp f).accounts = c.accounts := by
  rw [accounts_modifySpace_ack hsent, hack]
  simp [accounts]

/-! ## Streams that come and go -/

/-- The slot of a stream number. -/
def ringAt (c : Connection) (n : Nat) : Option StreamPair :=
  if n < c.baseStream then none else c.pairAt (n - c.baseStream)

/-- A half, by what kind of stream the id names. -/
theorem half_eq {α : Type} (c : Connection) (proj : StreamPair → α) {l : List (Nat × α)} (id : Nat)
    (hl : id % 4 = 0 → id ∉ l.map (·.1)) :
    c.half proj l id =
      if id % 4 = 0 then (c.ringAt (id / 4)).map proj else findStream id l := by
  unfold half
  cases hi : c.streamIndex id with
  | some i =>
    obtain ⟨rfl, hlt⟩ := streamIndex_eq_some.mp hi
    rw [if_pos (by omega)]
    unfold ringAt
    rw [if_neg (by omega), show 4 * (c.baseStream + i) / 4 - c.baseStream = i by omega]
  | none =>
    show findStream id l = _
    by_cases hmod : id % 4 = 0
    · rw [if_pos hmod, findStream_eq_none (hl hmod)]
      unfold ringAt
      split
      · rfl
      · rename_i hge
        have : c.streams.length ≤ id / 4 - c.baseStream := by
          by_contra hlt
          have := (streamIndex_eq_some (c := c)).mpr
            ⟨(by omega : id = 4 * (c.baseStream + (id / 4 - c.baseStream))), by omega⟩
          rw [hi] at this
          exact absurd this (by simp)
        simp [pairAt, List.getElem?_eq_none this]
    · rw [if_neg hmod]

theorem trimFront_spec (l : List (Option StreamPair)) (base : Nat) :
    (trimFront l base).2 + (trimFront l base).1.length = base + l.length ∧
    ∀ n, (if n < (trimFront l base).2 then none
        else ((trimFront l base).1[n - (trimFront l base).2]?).join) =
      if n < base then none else (l[n - base]?).join := by
  induction l generalizing base with
  | nil => exact ⟨rfl, fun _ => rfl⟩
  | cons o l ih =>
    cases o with
    | some p => exact ⟨rfl, fun _ => rfl⟩
    | none =>
      obtain ⟨hlen, hat⟩ := ih (base + 1)
      simp only [trimFront, List.length_cons]
      refine ⟨by omega, fun n => (hat n).trans ?_⟩
      by_cases h : n < base
      · rw [if_pos (by omega), if_pos h]
      · rcases Nat.eq_or_lt_of_le (Nat.not_lt.mp h) with rfl | hlt
        · simp
        · rw [if_neg (by omega), if_neg h, show n - base = (n - (base + 1)) + 1 by omega,
            List.getElem?_cons_succ]

theorem Wf.local_ids (hw : c.accounts.Wf) (h : id % 4 = 0) : id ∉ c.localUni.map (·.1) := by
  have hunis : c.localUni.map (·.1) = (List.range c.nextUni).map (clientStreamId .uni) := hw.unis
  rw [hunis]
  intro hmem
  obtain ⟨n, -, hn⟩ := List.mem_map.mp hmem
  simp only [clientStreamId] at hn
  omega

theorem Wf.peer_ids (hw : c.accounts.Wf) (h : id % 4 = 0) : id ∉ c.peerUni.map (·.1) := by
  intro hmem
  have := hw.peers id hmem
  simp only [isClientInitiated, decide_eq_false_iff_not] at this
  omega

/-- The ring as a map: what one stream number's slot becomes, its halves become. -/
theorem half_update {α : Type} {c' : Connection} {n : Nat} {v : Option StreamPair}
    (hring : ∀ m, c'.ringAt m = if m = n then v else c.ringAt m) (proj : StreamPair → α)
    {l : List (Nat × α)} (hl : ∀ id, id % 4 = 0 → id ∉ l.map (·.1)) :
    c'.half proj l = Function.update (c.half proj l) (4 * n) (v.map proj) := by
  funext id
  rw [Function.update_apply, half_eq c' proj id (hl id), half_eq c proj id (hl id), hring]
  by_cases hmod : id % 4 = 0
  · by_cases hid : id = 4 * n
    · rw [if_pos hmod, if_pos (by omega), if_pos hid]
    · rw [if_pos hmod, if_neg (by omega), if_neg hid, if_pos hmod]
  · rw [if_neg hmod, if_neg (by omega), if_neg hmod]

theorem isRetired_update {c' : Connection} {n : Nat} {v : Option StreamPair}
    (hring : ∀ m, c'.ringAt m = if m = n then v else c.ringAt m) :
    c'.isRetired = Function.update c.isRetired (4 * n) (v.any (·.retired)) := by
  funext id
  rw [isRetired_eq, half_update hring (·.retired) (fun _ _ => List.not_mem_nil),
    Function.update_apply, Function.update_apply, isRetired_eq]
  split
  · cases v <;> rfl
  · rfl

/-- Settling empties one slot of the ring, whatever is trimmed behind it. -/
theorem settle_eq (hi : c.streamIndex id = some i)
    (h : (c.pairAt i).any (fun pair => pair.retired && pair.send.isSettled) = true) :
    ∃ streams base, trimFront (c.streams.set i none) c.baseStream = (streams, base) ∧
      c.settle id = { c with streams := streams, baseStream := base } ∧
      base + streams.length = c.baseStream + c.streams.length ∧
      ∀ m, ({ c with streams := streams, baseStream := base } : Connection).ringAt m =
        if m = c.baseStream + i then none else c.ringAt m := by
  obtain ⟨rfl, hlt⟩ := streamIndex_eq_some.mp hi
  obtain ⟨hlen, hat⟩ := trimFront_spec (c.streams.set i none) c.baseStream
  rw [List.length_set] at hlen
  rcases ht : trimFront (c.streams.set i none) c.baseStream with ⟨streams, base⟩
  rw [ht] at hlen hat
  refine ⟨streams, base, rfl, ?_, hlen, fun m => (hat m).trans ?_⟩
  · simp [settle, hi, h, ht]
  · unfold ringAt pairAt
    rw [List.getElem?_set]
    by_cases hm : m = c.baseStream + i
    · subst hm
      simp [hlt]
    · rw [if_neg hm]
      by_cases hb : m < c.baseStream
      · rw [if_pos hb, if_pos hb]
      · rw [if_neg hb, if_neg hb, if_neg (by omega)]

/-- A settled stream is gone from the accounts, and nothing else is. -/
theorem accounts_settle {c : Connection} (hw : c.accounts.Wf) {id i : Nat}
    (hi : c.streamIndex id = some i)
    (h : (c.pairAt i).any (fun pair => pair.retired && pair.send.isSettled) = true) :
    (c.settle id).accounts = { c.accounts with
      sends := Function.update c.accounts.sends id none
      recvs := Function.update c.accounts.recvs id none
      retired := Function.update c.accounts.retired id false } := by
  obtain ⟨streams, base, -, hsettle, hlen, hring⟩ := settle_eq hi h
  obtain ⟨rfl, -⟩ := streamIndex_eq_some.mp hi
  rw [hsettle]
  ext1
  case sends => exact half_update hring (·.send) fun id => Wf.local_ids (c := c) hw
  case recvs => exact half_update hring (·.recv) fun id => Wf.peer_ids (c := c) hw
  case retired => exact isRetired_update hring
  case ringEnd => exact hlen
  all_goals rfl

theorem ringAt_push {d : Connection} (hend : c.baseStream + c.streams.length = c.nextBidi)
    (pair : StreamPair) (hstreams : d.streams = c.streams ++ [some pair])
    (hbase : d.baseStream = c.baseStream) (m : Nat) :
    d.ringAt m = if m = c.nextBidi then some pair else c.ringAt m := by
  unfold ringAt pairAt
  rw [hstreams, hbase]
  by_cases hm : m = c.nextBidi
  · rw [if_pos hm, if_neg (by omega), show m - c.baseStream = c.streams.length by omega]
    simp
  · rw [if_neg hm]
    by_cases hb : m < c.baseStream
    · rw [if_pos hb, if_pos hb]
    · rw [if_neg hb, if_neg hb]
      by_cases hlt : m - c.baseStream < c.streams.length
      · rw [List.getElem?_append_left hlt]
      · rw [List.getElem?_eq_none (by simp; omega), List.getElem?_eq_none (by omega)]

/-- A pair at the end of the ring is the next stream. -/
theorem accounts_pushPair {d : Connection} (hw : c.accounts.Wf) (pair : StreamPair)
    (hstreams : d.streams = c.streams ++ [some pair]) (hbase : d.baseStream = c.baseStream)
    (huni : d.localUni = c.localUni) (hpeer : d.peerUni = c.peerUni) :
    d.sendMut = Function.update c.accounts.sends (clientStreamId .bi c.nextBidi) (some pair.send) ∧
    d.recvMut = Function.update c.accounts.recvs (clientStreamId .bi c.nextBidi) (some pair.recv) ∧
    d.isRetired = Function.update c.accounts.retired (clientStreamId .bi c.nextBidi) pair.retired ∧
    d.baseStream + d.streams.length = c.baseStream + c.streams.length + 1 := by
  have hend : c.baseStream + c.streams.length = c.nextBidi := hw.ring
  have hring := ringAt_push hend pair hstreams hbase
  have hid : clientStreamId .bi c.nextBidi = 4 * c.nextBidi := Nat.mul_comm _ _
  rw [hid]
  refine ⟨?_, ?_, isRetired_update hring, ?_⟩
  · show d.half (·.send) d.localUni = _
    rw [huni]
    exact half_update hring (·.send) fun id => Wf.local_ids (c := c) hw
  · show d.half (·.recv) d.peerUni = _
    rw [hpeer]
    exact half_update hring (·.recv) fun id => Wf.peer_ids (c := c) hw
  · rw [hstreams, hbase, List.length_append, List.length_singleton]
    omega

theorem half_append {α : Type} {c : Connection} {id : Nat} (hi : c.streamIndex id = none)
    (proj : StreamPair → α) {l : List (Nat × α)} (hid : findStream id l = none) (a : α) :
    c.half proj (l ++ [(id, a)]) = Function.update (c.half proj l) id (some a) := by
  funext id'
  rw [Function.update_apply]
  unfold half
  by_cases h : id' = id
  · subst h
    simp [hi, findStream_append, hid, findStream]
  · rw [if_neg h]
    cases c.streamIndex id' with
    | some j => rfl
    | none => simp [findStream_append, findStream, Ne.symm h]

theorem streamIndex_none (h : id % 4 ≠ 0) : c.streamIndex id = none := by
  cases hi : c.streamIndex id with
  | none => rfl
  | some i =>
    have := (streamIndex_eq_some.mp hi).1
    omega

/-- The entry at an index of our unidirectional streams is the one its id leads to. -/
theorem modifySend_uniAt (hw : c.accounts.Wf) {s : SendStream} (h : c.localUni[i]? = some (id, s)) :
    c.sendMut id = some s ∧
    ∀ s', { c with localUni := c.localUni.set i (id, s') } = c.modifySend id fun _ => s' := by
  have hunis : c.localUni.map (·.1) = (List.range c.nextUni).map (clientStreamId .uni) := hw.unis
  have hnd : (c.localUni.map (·.1)).Nodup := by
    rw [hunis]
    refine List.Nodup.map (fun m n h => ?_) List.nodup_range
    simp only [clientStreamId] at h
    omega
  have hi : c.streamIndex id = none := by
    have hmem : id ∈ c.localUni.map (·.1) :=
      List.mem_map.mpr ⟨(id, s), List.mem_of_getElem? h, rfl⟩
    exact streamIndex_none fun hmod => Wf.local_ids hw hmod hmem
  refine ⟨?_, fun s' => ?_⟩
  · simp only [sendMut, hi]
    exact findStream_getElem hnd h
  · simp only [modifySend, hi]
    rw [set_eq_modifyFirst hnd h]

end Connection

end Shb.Quic
