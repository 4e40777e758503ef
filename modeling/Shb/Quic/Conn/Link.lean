import Shb.Quic.Conn.Arrivals
import Shb.Quic.Conn.Elsewhere
import Shb.Quic.Conn.Turns

/-!
# The keys and the addresses of a connection

`Link` is what a connection knows about protecting 1-RTT packets and about the peer's
connection ids, `Opening` how many request streams it has opened and how often it has yet to
say `Connected`. Streams, flow control, recovery, timers and the whole of sending never touch
either: that is said once for each function here, of the two together (`Core`). What does touch
them is rustls (`pumpLoop_core`), a packet before its frames are read, three kinds of frame,
opening a request stream, and polling an event.
-/

namespace Shb.Quic

/-- The part of a connection that keys and connection ids are. -/
structure Link where
  /-- What rustls will still write. -/
  writes : List TlsWrite
  oneRttLocal : Option Nat
  oneRttRemote : Option Nat
  secrets : Option Nat
  next1rtt : Option Nat
  prev1rttRemote : Option Nat
  keyPhase : Bool
  rotateAt : Nat
  peerCid : ConnectionId
  peerCidSeq : Nat
  peerCids : List PeerCid
  retirePriorTo : Nat
  handshakeDone : Bool
  serverInitialSeen : Bool

namespace Connection

def link (c : Connection) : Link where
  writes := c.tls.writes
  oneRttLocal := c.oneRttLocal
  oneRttRemote := c.oneRttRemote
  secrets := c.secrets
  next1rtt := c.next1rtt
  prev1rttRemote := c.prev1rttRemote
  keyPhase := c.keyPhase
  rotateAt := c.rotateAt
  peerCid := c.peerCid
  peerCidSeq := c.peerCidSeq
  peerCids := c.peerCids
  retirePriorTo := c.retirePriorTo
  handshakeDone := c.handshakeDone
  serverInitialSeen := c.serverInitialSeen

end Connection

/-- How far the application has come. -/
structure Opening where
  /-- Request streams opened so far. -/
  nextBidi : Nat
  /-- `Connected` events that wait to be polled. -/
  connects : Nat

/-- What most of a connection's functions leave alone. -/
structure Core where
  link : Link
  opening : Opening

namespace Connection

variable (c : Connection)

def opening : Opening where
  nextBidi := c.nextBidi
  connects := c.events.count .connected

def core : Core := ⟨c.link, c.opening⟩

/-- The core and the packet number spaces: what streams and timers leave alone. -/
def base : Core × Spaces SpaceState := (c.core, c.spaces)

theorem core_of_base {c d : Connection} (h : d.base = c.base) : d.core = c.core :=
  congrArg Prod.fst h

theorem link_eq : c.link = c.base.1.link := rfl

/-! ## Streams -/

variable (sp : Space)

@[simp] theorem core_modifySpace (f : SpaceState → SpaceState) :
    (c.modifySpace sp f).base.1 = c.base.1 := rfl

@[simp] theorem base_note (e : Entry) : (c.note e).base = c.base := rfl

@[simp] theorem base_wake : c.wake.base = c.base := rfl

@[simp] theorem base_pushEvent {e : Event} (h : e ≠ .connected) :
    (c.pushEvent e).base = c.base := by
  have hcount : (c.events ++ [e]).count .connected = c.events.count .connected := by
    rw [List.count_append, List.count_singleton, if_neg (by simpa using h), Nat.add_zero]
  simp only [base, core, opening, pushEvent, hcount]
  rfl

@[simp] theorem core_discardSpace : (c.discardSpace sp).base.1 = c.base.1 := rfl

@[simp] theorem base_lose (why : Loss) : (c.lose why).base = c.base := by
  unfold lose
  split
  · rw [base_pushEvent _ (by simp)]
    rfl
  · rfl

@[simp] theorem base_close (code : Nat) (reason : Bytes) : (c.close code reason).base = c.base := by
  unfold close
  split <;> rfl

@[simp] theorem base_closeTransport (code : Nat) (why : Loss) :
    (c.closeTransport code why).base = c.base := by
  unfold closeTransport
  split
  · rw [base_lose]
    rfl
  · rfl

@[simp] theorem base_modifyPair (i : Nat) (f : StreamPair → StreamPair) :
    (c.modifyPair i f).base = c.base := rfl

@[simp] theorem base_modifySend (id : Nat) (f : SendStream → SendStream) :
    (c.modifySend id f).base = c.base := by
  unfold modifySend
  split <;> rfl

@[simp] theorem base_modifyRecv (id : Nat) (f : RecvStream → RecvStream) :
    (c.modifyRecv id f).base = c.base := by
  unfold modifyRecv
  split <;> rfl

@[simp] theorem base_queueSend (id : Nat) : (c.queueSend id).base = c.base := by
  unfold queueSend
  repeat' split
  all_goals rfl

@[simp] theorem base_queueCredit (id : Nat) : (c.queueCredit id).base = c.base := by
  unfold queueCredit
  split <;> rfl

@[simp] theorem base_queueReset (id error finalSize : Nat) :
    (c.queueReset id error finalSize).base = c.base := rfl

@[simp] theorem base_countAnswered : c.countAnswered.base = c.base := rfl

@[simp] theorem base_countReceived (new : Nat) : (c.countReceived new).base = c.base := rfl

@[simp] theorem base_pushReadable (id : Nat) : (c.pushReadable id).base = c.base := by
  unfold pushReadable
  split
  · rfl
  · exact base_pushEvent _ (by simp)

@[simp] theorem base_report (id : Nat) (readable done : Bool) :
    (c.report id readable done).base = c.base := by
  cases readable <;> cases done <;> simp [report]

@[simp] theorem base_settle (id : Nat) : (c.settle id).base = c.base := by
  unfold settle
  repeat' split
  all_goals rfl

@[simp] theorem base_openUni : c.openUni.2.base = c.base := by
  unfold openUni
  split <;> rfl

@[simp] theorem base_write (id : Nat) (data : Bytes) : (c.write id data).2.base = c.base := by
  unfold write
  simp only
  split <;> simp

@[simp] theorem base_finish (id : Nat) : (c.finish id).base = c.base := by
  simp [finish]

@[simp] theorem base_consume {ε : Type} (id : Nat) (f : Bytes → Except ε Unit) :
    (c.consume id f).2.base = c.base := by
  unfold consume
  split
  · rfl
  · split
    · rfl
    · simp only
      split <;> simp

@[simp] theorem base_retire (id cancel : Nat) : (c.retire id cancel).base = c.base := by
  unfold retire
  split
  · rfl
  · split
    · rfl
    · simp only [base_settle]
      repeat' split
      all_goals simp

theorem Arrives.base {c : Connection} {why : Prop} {id stop : Nat}
    {r : Except Fault Unit × Connection} (h : Arrives why c id stop r) : r.2.base = c.base := by
  cases h with
  | refused | dropped => rfl
  | request _ _ _ _ hd =>
    cases hd with
    | data => simp
    | reset => split <;> simp
  | peer | opened =>
    simp
    rfl

@[simp] theorem base_onStream (id offset : Nat) (data : Bytes) (fin : Bool) :
    (c.onStream id offset data fin).2.base = c.base := (onStream_arrives c id offset data fin).base

@[simp] theorem base_onReset (id error finalSize : Nat) :
    (c.onReset id error finalSize).2.base = c.base := (onReset_arrives c id error finalSize).base

/-! ## Recovery and timers -/

@[simp] theorem base_armIdle (now : Nat) : (c.armIdle now).base = c.base := by
  unfold armIdle
  split <;> rfl

@[simp] theorem base_noteReceived (now : Nat) : (c.noteReceived now).base = c.base := by
  unfold noteReceived
  rw [base_armIdle]
  rfl

@[simp] theorem base_noteSent (now : Nat) : (c.noteSent now).base = c.base := by
  unfold noteSent
  split
  · rfl
  · simp only
    split
    · rw [base_armIdle]
      rfl
    · rfl

@[simp] theorem base_onFrameAcked (f : SentFrame) : (c.onFrameAcked f).base = c.base := by
  cases f <;> simp [onFrameAcked]

@[simp] theorem core_onFrameLost (f : SentFrame) : (c.onFrameLost sp f).base.1 = c.base.1 := by
  cases f <;> simp only [onFrameLost, base_queueCredit, base_queueSend, base_modifySend,
    core_modifySpace]
  all_goals rfl

theorem Measured.base {c d : Connection} (h : Measured c d) : d.base = c.base := by
  rw [h]
  rfl

@[simp] theorem core_detectLost (now lossDelay : Nat) :
    (c.detectLost sp now lossDelay).2.base.1 = c.base.1 :=
  detectLost_composes (.view core) (fun _ _ => rfl) rfl (fun d _ _ f _ => core_onFrameLost d sp f)
    fun _ _ => rfl

theorem core_onPacketAcked (p : SentPacket) : (c.onPacketAcked sp p).base.1 = c.base.1 := by
  refine ((Lib.Composes.view core).foldl (fun d f _ => core_of_base
    (base_onFrameAcked d f)) _).trans ?_
  split <;> rfl

@[simp] theorem core_onAck (largest delay firstRange : Nat) (ranges : Bytes) (now : Nat) :
    (c.onAck sp largest delay firstRange ranges now).base.1 = c.base.1 :=
  onAck_composes (.view core) (fun h => core_of_base h.base) rfl (fun d p _ =>
    core_onPacketAcked d sp p) fun d lossDelay => core_detectLost d sp now lossDelay

@[simp] theorem core_handleTimeout (now : Nat) : (c.handleTimeout now).base.1 = c.base.1 := by
  unfold handleTimeout
  split
  · rw [base_lose]
    rfl
  · split
    · rfl
    · split
      · split
        · rfl
        · simp [detectLostAll]
      · split
        · split
          · rfl
          · rfl
        · rfl

/-! ## Frames that leave the link alone -/

@[simp] theorem base_onStopSending (id error : Nat) : (c.onStopSending id error).base = c.base := by
  unfold onStopSending
  split
  · rfl
  · split <;> simp

@[simp] theorem base_onMaxStreamData (id limit : Nat) :
    (c.onMaxStreamData id limit).base = c.base := by
  simp [onMaxStreamData]

@[simp] theorem base_onPathChallenge (data : Bytes) : (c.onPathChallenge data).2.base = c.base := by
  unfold onPathChallenge
  split <;> rfl

@[simp] theorem base_onClose (error : Nat) (reason : Bytes) (app : Bool) :
    (c.onClose error reason app).base = c.base := base_lose _ _

@[simp] theorem base_readHs : c.readHs.2.base = c.base := by
  unfold readHs
  split <;> rfl

@[simp] theorem base_arrived (id stop : Nat) (r : Except Fault Unit × Connection) :
    (arrived id stop r).2.base = r.2.base := by
  obtain ⟨_ | _, c⟩ := r <;> rfl

@[simp] theorem core_recordPacket (pn : Nat) (eliciting : Bool)
    (now : Nat) : (c.recordPacket sp pn eliciting now).base.1 = c.base.1 := rfl

@[simp] theorem base_onVersionNegotiation (dcid scid : ConnectionId)
    (versions : List Nat) : (c.onVersionNegotiation dcid scid versions).base = c.base := by
  unfold onVersionNegotiation
  repeat' split
  all_goals simp

end Connection

/-! ## Sending -/

namespace Filling

open Connection

theorem base_put (b : Filling) (bytes : Bytes) (f : SentFrame) :
    (b.put bytes f).conn.base = b.conn.base := rfl

theorem base_streamTurn (b : Filling) (budget id i : Nat) (pair : StreamPair) :
    (b.streamTurn budget id i pair).conn.base = b.conn.base := by
  have hturn : ∀ d : Filling,
      (if d.conn.wantsTurn id then { d with conn := d.conn.queueSend id } else d).conn.base =
        d.conn.base := by
    intro d
    split
    · exact base_queueSend _ _
    · rfl
  refine (hturn _).trans ?_
  split
  · rfl
  · rw [base_put]
    rfl

theorem core_turn {sp : Space} {budget : Nat} {b b' : Filling} (h : b.Turn sp budget b') :
    b'.conn.base.1 = b.conn.base.1 := by
  cases h with
  | answered _ _ _ =>
    unfold ping
    split <;> rfl
  | credit _ _ _ _ _ => exact core_of_base (base_modifyRecv _ _ _)
  | stream _ _ _ _ _ => exact core_of_base (base_streamTurn _ _ _ _ _)
  | _ => rfl

end Filling

namespace Connection

variable (c : Connection)

@[simp] theorem core_emit (sp : Space) (p : SentPacket) (now : Nat) :
    (c.emit sp p now).base.1 = c.base.1 := by
  unfold emit
  split <;> simp

theorem core_writePacket (sp : Space) (key : Key) (now written : Nat) (congested : Bool)
    (pad : Option Nat) : (c.writePacket sp key now written congested pad).2.base.1 = c.base.1 :=
  writePacket_turns (.view core)
    (fun c _ congested => fillPayload_turns (.view core) (fun _ => rfl) (fun _ => rfl)
      Filling.core_turn c congested)
    (fun c p => core_emit c sp p now) c key written congested pad

/-- Building a datagram changes the core as asking rustls does. -/
theorem core_pollTransmit (now : Nat) (pad : Option Nat) :
    (c.pollTransmit now pad).2.core = c.core ∨
      (c.pollTransmit now pad).2.core = c.pumpTls.2.core := by
  have hkeep : ∀ {d d' : Connection}, d'.core = d.core →
      d.core = c.core ∨ d.core = c.pumpTls.2.core → d'.core = c.core ∨ d'.core = c.pumpTls.2.core :=
    fun heq h => heq ▸ h
  refine pollTransmit_invariant (I := fun d => d.core = c.core ∨ d.core = c.pumpTls.2.core)
    (Or.inl rfl) (Or.inr rfl) (fun sp key written congested pad => hkeep ?_) (hkeep rfl)
    (hkeep (core_of_base (base_armIdle _ now))) pad
  exact core_writePacket _ sp key now written congested pad

end Connection

/-! ## What does change the core -/

/-- The 1-RTT keys as rustls hands them over, and the token of the transport parameters. -/
def Link.started (l : Link) (token : Option Bytes) : Link :=
  { l with
    oneRttLocal := some 0
    oneRttRemote := some 0
    next1rtt := some 1
    secrets := some 2
    peerCids := Connection.setFirstToken token l.peerCids }

/-- What rustls will still write, replaced. -/
def Core.writing (k : Core) (ws : List TlsWrite) :
    Core := { k with link := { k.link with writes := ws } }

/-- The 1-RTT keys are announced. -/
def Core.started (k : Core) (token : Option Bytes) : Core where
  link := k.link.started token
  opening := { k.opening with connects := k.opening.connects + 1 }

namespace Connection

variable (c : Connection)

theorem core_openBi :
    c.openBi.2.core = c.core ∨
      c.openBi.2.core =
        { c.core with opening := { c.opening with nextBidi := c.nextBidi + 1 } } := by
  unfold openBi
  split
  · exact Or.inl rfl
  · exact Or.inr rfl

/-- A request that is sent at once changes the core as opening its stream does. -/
theorem core_sendOneshot (data : Bytes) : (c.sendOneshot data).2.core = c.openBi.2.core := by
  unfold sendOneshot
  split
  · rename_i h
    rw [h]
  · rename_i h
    rw [h]
    simp only
    split <;> rfl

/-- Polling an event takes a `Connected` if that is what it is. -/
theorem core_pollEvent :
    c.pollEvent.2.core = c.core ∨
      (c.pollEvent.1 = some .connected ∧ 0 < c.opening.connects ∧ c.pollEvent.2.core =
        { c.core with opening := { c.opening with connects := c.opening.connects - 1 } }) := by
  unfold pollEvent
  cases h : c.events with
  | nil => exact Or.inl rfl
  | cons e events =>
    by_cases he : e = .connected
    · have hcount : c.opening.connects = events.count .connected + 1 := by
        simp [opening, h, he]
      refine Or.inr ⟨congrArg some he, by omega, ?_⟩
      simp only [core, hcount, Nat.add_sub_cancel]
      rfl
    · have hcount : c.opening.connects = events.count .connected := by
        simp only [opening, h]
        exact List.count_cons_of_ne he
      refine Or.inl ?_
      simp only [core, opening] at hcount ⊢
      rw [hcount]
      rfl

@[simp] theorem link_openBi : c.openBi.2.base.1.link = c.base.1.link := by
  rcases core_openBi c with h | h <;> simp only [base, h]

@[simp] theorem link_sendOneshot (data : Bytes) :
    (c.sendOneshot data).2.base.1.link = c.base.1.link :=
  (congrArg Core.link (core_sendOneshot c data)).trans (link_openBi c)

@[simp] theorem link_pollEvent : c.pollEvent.2.base.1.link = c.base.1.link := by
  rcases core_pollEvent c with h | ⟨_, _, h⟩ <;> simp only [base, h]

/-- Taking the peer's parameters sets at most a token. -/
theorem core_takePeerParams (raw : Option Bytes) :
    (∀ c' e, c.takePeerParams raw = (.error e, c') → c'.core = c.core) ∧
    (∀ c', c.takePeerParams raw = (.ok (), c') → ∃ token,
      c'.core =
        { c.core with link := { c.link with peerCids := setFirstToken token c.peerCids } }) := by
  unfold takePeerParams
  split
  · exact ⟨fun c' e h => by cases h; rfl, fun c' h => by cases h⟩
  · split
    · exact ⟨fun c' e h => by cases h; rfl, fun c' h => by cases h⟩
    · simp only
      split
      · exact ⟨fun c' e h => by cases h; rfl, fun c' h => by cases h⟩
      · exact ⟨fun c' e h => (by cases h), fun c' h => by cases h; exact ⟨_, rfl⟩⟩

theorem core_takeOneRtt {c c' : Connection} {token : Option Bytes}
    (h : c'.core =
      { c.core with link := { c.link with peerCids := setFirstToken token c.peerCids } }) :
    c'.takeOneRtt.wake.core = c.core.started token := by
  have hlink : c'.takeOneRtt.wake.link = { c'.link with
      oneRttLocal := some 0, oneRttRemote := some 0, next1rtt := some 1, secrets := some 2 } := rfl
  have hopening : c'.takeOneRtt.wake.opening =
      { c'.opening with connects := c'.opening.connects + 1 } := by
    show Opening.mk _ _ = _
    rw [show c'.takeOneRtt.wake.events = c'.events ++ [.connected] from rfl, List.count_append]
    rfl
  have hl : c'.link = _ := congrArg Core.link h
  have ho : c'.opening = _ := congrArg Core.opening h
  simp only [core, Core.started, hlink, hopening, hl, ho]
  rfl

/-- What dropping an answer of rustls keeps, and what its 1-RTT keys keep, the loop over its
answers keeps. -/
theorem pumpLoop_core {J : Core → Prop}
    (hdrop : ∀ {k : Core} {w ws}, J (k.writing (w :: ws)) → J (k.writing ws))
    (hkeys : ∀ {k : Core} {w : TlsWrite} {ws raw} token, w.change = some (.oneRtt raw) →
      J (k.writing (w :: ws)) → J ((k.writing ws).started token)) :
    ∀ (ws : List TlsWrite) (c : Connection), J (c.core.writing ws) → J (pumpLoop ws c).2.core
  | [], _, h => h
  | w :: ws, c, h => by
    have hrest : J (c.core.writing ws) := hdrop h
    simp only [pumpLoop]
    generalize hc : (c.modifySpace c.tlsSpace fun s =>
      { s with cryptoOut := s.cryptoOut ++ w.data }) = c₁
    have hcore : c₁.core = c.core := by rw [← hc]; rfl
    rw [← hcore] at h hrest
    -- Handshake keys, 1-RTT keys with the parameters, or data alone
    split
    · exact pumpLoop_core hdrop hkeys ws _ hrest
    · rename_i raw hchange
      obtain ⟨hfail, hok⟩ := core_takePeerParams c₁ raw
      split
      · rename_i c' heq
        have hparams := hfail _ _ heq
        have hend : ({ c' with tls := { c'.tls with writes := ws } } : Connection).core =
            c'.core.writing ws := rfl
        rw [hend, hparams]
        exact hrest
      · rename_i c' heq
        obtain ⟨token, htoken⟩ := hok _ heq
        refine pumpLoop_core hdrop hkeys ws _ ?_
        rw [core_takeOneRtt htoken]
        exact hkeys token hchange h
    · split
      · exact hrest
      · exact pumpLoop_core hdrop hkeys ws _ hrest

theorem pumpLoop_link {J : Link → Prop}
    (hdrop : ∀ {l : Link} {w ws}, J { l with writes := w :: ws } → J { l with writes := ws })
    (hkeys : ∀ {l : Link} {w : TlsWrite} {ws raw} token, w.change = some (.oneRtt raw) →
      J { l with writes := w :: ws } → J (({ l with writes := ws } : Link).started token))
    (ws : List TlsWrite) (c : Connection) (h : J { c.link with writes := ws }) :
    J (pumpLoop ws c).2.link :=
  pumpLoop_core (J := fun k => J k.link) (fun {k} _ _ h => hdrop (l := k.link) h)
    (fun {k} _ _ _ token hw h => hkeys (l := k.link) token hw h) ws c h

variable (c : Connection)

/-- CRYPTO data changes the core, if at all, as asking rustls does. -/
theorem core_onCrypto (sp : Space) (offset : Nat) (data : Bytes) :
    (c.onCrypto sp offset data).2.core = c.core ∨
      ∃ d : Connection, d.core = c.core ∧
        (c.onCrypto sp offset data).2.core = d.pumpTls.2.core := by
  unfold onCrypto
  split
  · exact Or.inl rfl
  · rename_i recv _
    simp only
    split
    · exact Or.inl rfl
    · -- rustls reads the data: it refuses it, or is asked for its answers
      generalize hc : (c.modifySpace sp fun s => { s with cryptoIn := recv }) = c₁
      have hcore : c₁.core = c.core := by rw [← hc]; rfl
      have hread := core_of_base (base_readHs c₁)
      split
      · rename_i c₂ heq
        rw [heq] at hread
        exact Or.inl ((core_of_base (base_closeTransport _ _ _)).trans (hread.trans hcore))
      · rename_i c₂ heq
        rw [heq] at hread
        exact Or.inr ⟨c₂.modifySpace sp _, hread.trans hcore, rfl⟩

theorem link_onCrypto (sp : Space) (offset : Nat) (data : Bytes) :
    (c.onCrypto sp offset data).2.link = c.link ∨
      ∃ d : Connection, d.link = c.link ∧ (c.onCrypto sp offset data).2.link = d.pumpTls.2.link :=
  (core_onCrypto c sp offset data).imp (congrArg Core.link)
    fun ⟨d, hd, h⟩ => ⟨d, congrArg Core.link hd, congrArg Core.link h⟩

theorem link_pollTransmit (now : Nat) (pad : Option Nat) :
    (c.pollTransmit now pad).2.link = c.link ∨ (c.pollTransmit now pad).2.link = c.pumpTls.2.link :=
  (core_pollTransmit c now pad).imp (congrArg Core.link) (congrArg Core.link)

theorem link_onRetry (dcid scid : ConnectionId) (token : Bytes) (tag : Option ConnectionId) :
    (c.onRetry dcid scid token tag).link = c.link ∨
      c.handshakeDone = false ∧ c.serverInitialSeen = false ∧
        (c.onRetry dcid scid token tag).link = { c.link with peerCid := scid } := by
  unfold onRetry
  split
  · exact Or.inl rfl
  · rename_i hcond
    split
    · exact Or.inl rfl
    · simp only [Bool.or_eq_true, not_or, Bool.not_eq_true] at hcond
      exact Or.inr ⟨hcond.1.1.1.2, hcond.1.1.2, rfl⟩

theorem link_rotateKeys {c : Connection} {next : Nat} (h : c.next1rtt = some next) (at_ : Nat)
    (phase : Bool) :
    (c.rotateKeys at_ phase).link =
      { c.link with
        prev1rttRemote := c.oneRttRemote
        oneRttRemote := c.oneRttRemote.map fun _ => next
        oneRttLocal := c.oneRttLocal.map fun _ => next
        keyPhase := phase
        rotateAt := at_
        next1rtt := c.secrets
        secrets := c.secrets.map (· + 1) } := by
  simp only [rotateKeys, h]
  rfl

theorem link_rotateKeys_modifySpace (sp : Space) (f : SpaceState → SpaceState)
    (at_ : Nat) (phase : Bool) :
    ((c.modifySpace sp f).rotateKeys at_ phase).link = (c.rotateKeys at_ phase).link := by
  cases h : c.next1rtt with
  | none =>
    have h' : (c.modifySpace sp f).next1rtt = none := h
    simp only [rotateKeys, h, h']
    rfl
  | some next =>
    have h' : (c.modifySpace sp f).next1rtt = some next := h
    rw [link_rotateKeys h, link_rotateKeys h']
    rfl

theorem link_onNewConnectionId (seq retirePriorTo : Nat) (cid token : Bytes) :
    ∃ peerCid peerCidSeq peerCids prior,
      (c.onNewConnectionId seq retirePriorTo cid token).2.link =
        { c.link with
          peerCid := peerCid
          peerCidSeq := peerCidSeq
          peerCids := peerCids
          retirePriorTo := prior } := by
  have h := congrArg link (onNewConnectionId_readdressed c seq retirePriorTo cid token)
  exact ⟨_, _, _, _, h⟩

end Connection

end Shb.Quic
