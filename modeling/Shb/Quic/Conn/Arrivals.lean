import Shb.Quic.Conn.Streams
import Shb.Quic.Reassembly

/-!
# What a STREAM or RESET_STREAM frame can do

The two frames name a stream and how far the peer's half of it goes. Both are refused, dropped,
or taken by the receive half of the stream, which lives in the ring or among those the peer
opened. `Arrives` says so once.
-/

namespace Shb.Quic

variable {i id stop : Nat}

/-- A receive half takes data up to `stop`, or a reset there. -/
inductive RecvStream.Takes (r : RecvStream) (stop credit : Nat) : RecvStream → Prop
  | data {offset : Nat} {data : Bytes} {fin : Bool} (hstop : offset + data.length = stop)
      (hcheck : r.checkEnd stop fin credit = .ok (stop - r.received)) :
      Takes r stop credit ({ r with
        finalSize := if fin then some stop else r.finalSize
        received := max r.received stop }.place offset data)
  | reset (hcheck : r.checkEnd stop true credit = .ok (stop - r.received)) :
      Takes r stop credit { r with finalSize := some stop, received := stop }

namespace RecvStream

variable (r : RecvStream)

/-- Refused, or taken. -/
def Outcome (stop credit : Nat) (out : Except RecvError Nat × RecvStream) : Prop :=
  (∃ e, out = (.error e, r)) ∨ ∃ r', out = (.ok (stop - r.received), r') ∧ r.Takes stop credit r'

theorem push_outcome (offset : Nat) (data : Bytes) (fin : Bool) (credit : Nat) :
    r.Outcome (offset + data.length) credit (r.pushWithCredit offset data fin credit) := by
  rcases r.pushWithCredit_cases offset data fin credit with ⟨e, he⟩ | ⟨new, hcheck, hok⟩
  · exact Or.inl ⟨e, he⟩
  · obtain ⟨rfl, -⟩ := checkEnd_ok hcheck
    exact Or.inr ⟨_, hok, .data rfl hcheck⟩

theorem reset_outcome (finalSize credit : Nat) :
    r.Outcome finalSize credit (r.reset finalSize credit) := by
  unfold reset
  cases hcheck : r.checkEnd finalSize true credit with
  | error e => exact Or.inl ⟨e, rfl⟩
  | ok new =>
    obtain ⟨rfl, -⟩ := checkEnd_ok hcheck
    exact Or.inr ⟨_, rfl, .reset hcheck⟩

theorem Takes.limits {r r' : RecvStream} {credit : Nat} (h : r.Takes stop credit r') :
    r'.received = max r.received stop ∧ stop - r.received ≤ credit := by
  cases h with
  | data hstop hcheck => exact ⟨(place_limits _ _ _).2.1, (checkEnd_ok hcheck).2.2.2.2⟩
  | reset hcheck =>
    obtain ⟨-, -, hge, -, hle⟩ := checkEnd_ok hcheck
    exact ⟨(Nat.max_eq_right (hge rfl)).symm, hle⟩

end RecvStream

namespace Connection

variable {c : Connection} {pair : StreamPair}

/-! ## One stream replaced -/

theorem modify_eq_modify {α : Type} {l : List (Option α)} {f g : α → α} :
    l.modify i (Option.map f) = l.modify i (Option.map g) ↔
      ∀ a, l[i]?.join = some a → f a = g a := by
  rw [List.ext_getElem?_iff]
  simp only [List.getElem?_modify]
  constructor
  · intro h a ha
    have hi := h i
    rw [Option.join_eq_some_iff] at ha
    simpa [ha] using hi
  · intro h j
    split
    · rename_i hij
      subst hij
      rcases hl : l[i]? with _ | _ | a
      · rfl
      · rfl
      · simp [h a (by rw [hl]; rfl)]
    · rfl

theorem modify_eq_self {α : Type} {l : List (Option α)} {f : α → α} :
    l.modify i (Option.map f) = l ↔ ∀ a, l[i]?.join = some a → f a = a := by
  have h := modify_eq_modify (l := l) (i := i) (f := f) (g := id)
  simpa using h

theorem modifyPair_congr {f g : StreamPair → StreamPair} (hp : c.pairAt i = some pair)
    (h : f pair = g pair) : c.modifyPair i f = c.modifyPair i g := by
  have hstreams : c.streams.modify i (Option.map f) = c.streams.modify i (Option.map g) :=
    modify_eq_modify.mpr fun a ha => by cases hp.symm.trans ha; exact h
  simp only [modifyPair, hstreams]

theorem modifyPair_eq_self {f : StreamPair → StreamPair}
    (h : ∀ pair, c.pairAt i = some pair → f pair = pair) : c.modifyPair i f = c := by
  have hstreams : c.streams.modify i (Option.map f) = c.streams := modify_eq_self.mpr h
  simp only [modifyPair, hstreams]

theorem modifyFirst_eq_self {α : Type} {f : α → α} :
    ∀ {l : List (Nat × α)}, modifyFirst id f l = l ↔ ∀ a, findStream id l = some a → f a = a
  | [] => by simp [modifyFirst, findStream]
  | (uid, a) :: rest => by
    simp only [modifyFirst, findStream]
    split
    · simp
    · simp [modifyFirst_eq_self]

/-! ## Arriving -/

/-- What a stream of the ring has is reported: data, or a reset, and the end if `done`. -/
inductive Reported (id : Nat) (done : Bool) (c : Connection) : Connection → Prop
  | data (readable : Bool) : Reported id done c (c.report id readable done)
  | reset (error : Nat) : Reported id done c
      (if done then c.countAnswered.pushEvent (.finished id (some error)) else c)

/-- What becomes of a frame that names `stop` as an end of the stream `id`. It is dropped only
because of `why`. -/
inductive Arrives (why : Prop) (c : Connection) (id stop : Nat) :
    Except Fault Unit × Connection → Prop
  | refused (e : Fault) : Arrives why c id stop (.error e, c)
  | dropped (h : why) : Arrives why c id stop (.ok (), c)
  | request {i : Nat} {pair : StreamPair} {r : RecvStream} {d : Connection} {done : Bool}
      (hi : c.streamIndex id = some i) (hp : c.pairAt i = some pair)
      (hr : pair.recv.Takes stop (c.maxDataLocal - c.dataReceived) r)
      (hdone : done = true → pair.finished = false)
      (hd : Reported id done (c.modifyPair i fun pair =>
        { pair with recv := r, finished := pair.finished || done }) d) :
      Arrives why c id stop (.ok (), d.countReceived (stop - pair.recv.received))
  | peer {r r' : RecvStream} (readable : Bool) (hid : isClientInitiated id = false)
      (hf : findStream id c.peerUni = some r)
      (hr : r.Takes stop (c.maxDataLocal - c.dataReceived) r') :
      Arrives why c id stop (.ok (),
        ({ c with peerUni := modifyFirst id (fun _ => r') c.peerUni }.report id readable
          false).countReceived (stop - r.received))
  | opened {r' : RecvStream} (readable : Bool) (hid : isClientInitiated id = false)
      (hf : findStream id c.peerUni = none)
      (hr : (RecvStream.new c.streamWindow).Takes stop (c.maxDataLocal - c.dataReceived) r') :
      Arrives why c id stop (.ok (),
        (({ c with peerUni := c.peerUni ++ [(id, r')] }.pushEvent (.opened id)).report id readable
          false).countReceived (stop - (RecvStream.new c.streamWindow).received))

/-- A request stream that is gone, with its slot or from it. -/
def Missing (c : Connection) (id : Nat) : Prop :=
  (∃ i, c.streamIndex id = some i ∧ c.pairAt i = none) ∨
    c.streamIndex id = none ∧ isClientInitiated id = true ∧ streamDir id = .bi ∧ id / 4 < c.nextBidi

/-- A request stream the worker is done with. -/
def Retired (c : Connection) (id : Nat) : Prop :=
  ∃ i pair, c.streamIndex id = some i ∧ c.pairAt i = some pair ∧ pair.retired = true

variable {why : Prop}

theorem onRequestStream_arrives (hi : c.streamIndex id = some i) (hp : c.pairAt i = some pair)
    (offset : Nat) (data : Bytes) (fin : Bool) :
    Arrives why c id (offset + data.length) (c.onRequestStream id i pair offset data fin) := by
  unfold onRequestStream
  rcases pair.recv.push_outcome offset data fin (c.maxDataLocal - c.dataReceived) with
    ⟨e, he⟩ | ⟨r, hok, hr⟩
  · simp only [he]
    rw [modifyPair_eq_self fun pair' hp' => by cases hp.symm.trans hp'; rfl]
    exact .refused _
  · simp only [hok]
    refine .request hi hp hr (fun h => ?_) (.data _)
    simpa using (Bool.and_eq_true_iff.mp h).2

theorem onRequestReset_arrives (hi : c.streamIndex id = some i) (hp : c.pairAt i = some pair)
    (error finalSize : Nat) :
    Arrives why c id finalSize (c.onRequestReset id i pair error finalSize) := by
  unfold onRequestReset
  rcases pair.recv.reset_outcome finalSize (c.maxDataLocal - c.dataReceived) with
    ⟨e, he⟩ | ⟨r, hok, hr⟩
  · simp only [he]
    rw [modifyPair_eq_self fun pair' hp' => by cases hp.symm.trans hp'; rfl]
    exact .refused _
  · have harrives : Arrives why c id finalSize _ :=
      .request (d := _) hi hp hr
        (fun h => by simpa using h : (!pair.finished) = true → _) (.reset error)
    simp only [hok]
    rw [modifyPair_congr
      (g := fun p => { p with recv := r, finished := p.finished || !pair.finished }) hp (by simp)]
    cases hfin : pair.finished <;> rw [hfin] at harrives <;> exact harrives

/-- What a stream the peer opens does with either frame: its receive half takes it, and reports
what there is to read. -/
def peerTake (c : Connection) (id : Nat) (readable : RecvStream → Bool)
    (take : RecvStream → Except RecvError Nat × RecvStream) : Except Fault Unit × Connection :=
  match c.checkPeerUni id with
  | .error e => (.error (.recv e), c)
  | .ok () =>
    match findStream id c.peerUni with
    | some recv =>
      match take recv with
      | (.error e, recv) =>
        (.error (.recv e), { c with peerUni := modifyFirst id (fun _ => recv) c.peerUni })
      | (.ok new, recv) =>
        (.ok (), ({ c with peerUni := modifyFirst id (fun _ => recv) c.peerUni }.report id
          (readable recv) false).countReceived new)
    | none =>
      match take (RecvStream.new c.streamWindow) with
      | (.error e, _) => (.error (.recv e), c)
      | (.ok new, recv) =>
        (.ok (), (({ c with peerUni := c.peerUni ++ [(id, recv)] }.pushEvent (.opened id)).report id
          (readable recv) false).countReceived new)

theorem onPeerStream_eq (c : Connection) (id offset : Nat) (data : Bytes) (fin : Bool) :
    c.onPeerStream id offset data fin = c.peerTake id RecvStream.hasData fun r =>
      r.pushWithCredit offset data fin (c.maxDataLocal - c.dataReceived) := rfl

theorem onPeerReset_eq (c : Connection) (id finalSize : Nat) :
    c.onPeerReset id finalSize = c.peerTake id (fun _ => false) fun r =>
      r.reset finalSize (c.maxDataLocal - c.dataReceived) := rfl

theorem peer_arrives (hid : isClientInitiated id = false) (readable : RecvStream → Bool)
    {take : RecvStream → Except RecvError Nat × RecvStream}
    (htake : ∀ r : RecvStream, r.Outcome stop (c.maxDataLocal - c.dataReceived) (take r)) :
    Arrives why c id stop (c.peerTake id readable take) := by
  unfold peerTake
  split
  · exact .refused _
  cases hf : findStream id c.peerUni with
  | some r =>
    rcases htake r with ⟨e, he⟩ | ⟨r', hok, hr⟩
    · simp only [he]
      rw [modifyFirst_eq_self.mpr fun a ha => by cases hf.symm.trans ha; rfl]
      exact .refused _
    · simp only [hok]
      exact .peer _ hid hf hr
  | none =>
    rcases htake (RecvStream.new c.streamWindow) with ⟨e, he⟩ | ⟨r', hok, hr⟩
    · simp only [he]
      exact .refused _
    · simp only [hok]
      exact .opened _ hid hf hr

theorem onStream_arrives (c : Connection) (id offset : Nat) (data : Bytes) (fin : Bool) :
    Arrives (c.Retired id ∨ c.Missing id) c id (offset + data.length)
      (c.onStream id offset data fin) := by
  unfold onStream
  split
  · rename_i i hi
    split
    · exact .dropped (Or.inr (Or.inl ⟨i, hi, ‹_›⟩))
    · rename_i pair hp
      split
      · exact .dropped (Or.inl ⟨i, pair, hi, hp, ‹_›⟩)
      · exact onRequestStream_arrives hi hp offset data fin
  · rename_i hi
    split
    · rename_i hclient
      split
      · split
        · exact .refused _
        · exact .dropped (Or.inr (Or.inr ⟨hi, hclient, ‹_›, Nat.not_le.mp ‹_›⟩))
      · exact .refused _
    · rename_i hserver
      rw [onPeerStream_eq]
      exact peer_arrives (Bool.not_eq_true _ ▸ hserver) _ fun r => r.push_outcome offset data fin _

theorem onReset_arrives (c : Connection) (id error finalSize : Nat) :
    Arrives (c.Missing id) c id finalSize (c.onReset id error finalSize) := by
  unfold onReset
  split
  · rename_i i hi
    split
    · exact .dropped (Or.inl ⟨i, hi, ‹_›⟩)
    · exact onRequestReset_arrives hi ‹_› error finalSize
  · rename_i hi
    split
    · rename_i hclient
      split
      · exact .refused _
      · rename_i hours
        simp only [Bool.or_eq_true, decide_eq_true_eq, not_or, Nat.not_le] at hours
        refine .dropped (Or.inr ⟨hi, hclient, ?_, hours.2⟩)
        cases hdir : streamDir id with
        | bi => rfl
        | uni => exact absurd hdir hours.1
    · rename_i hserver
      rw [onPeerReset_eq]
      exact peer_arrives (Bool.not_eq_true _ ▸ hserver) _ fun r => r.reset_outcome finalSize _

end Connection

end Shb.Quic
