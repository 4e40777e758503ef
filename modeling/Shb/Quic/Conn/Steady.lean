import Shb.Quic.Conn.KeyUpdate

/-!
# Requests and `Connected`

A worker numbers its requests by the streams it opens, and sets a connection up when it says
`Connected`. Two things make that sound, for whatever the peer sends: only the worker opens
request streams, and rustls brings the 1-RTT keys once, so `Connected` is not said again.
`Steady` is both, of one step: no stream is opened, and no more `Connected` are due.
-/

namespace Shb.Quic

/-- How often `Connected` can still be polled: those that wait, and those rustls may bring. -/
def Core.due (k : Core) : Nat := k.opening.connects + k.link.writes.countP TlsWrite.givesOneRtt

/-- No request stream is opened, and no more `Connected` are due. -/
structure Steady (c c' : Connection) : Prop where
  nextBidi : c'.nextBidi = c.nextBidi
  due : c'.core.due ≤ c.core.due

namespace Steady

variable {c d e : Connection}

theorem of_core (h : d.base.1 = c.base.1) : Steady c d where
  nextBidi := congrArg (·.opening.nextBidi) h
  due := Nat.le_of_eq (congrArg Core.due h)

theorem refl (c : Connection) : Steady c c := of_core rfl

theorem trans (h₁ : Steady c d) (h₂ : Steady d e) : Steady c e where
  nextBidi := h₂.nextBidi.trans h₁.nextBidi
  due := Nat.le_trans h₂.due h₁.due

/-- A change that leaves the count of streams, the events and rustls alone. -/
theorem of_eq (hn : d.nextBidi = c.nextBidi) (he : d.events = c.events)
    (ht : d.tls.writes = c.tls.writes) : Steady c d where
  nextBidi := hn
  due := by
    simp only [Core.due, Connection.core, Connection.opening, Connection.link, he, ht]
    exact Nat.le_refl _

end Steady

namespace Connection

/-! ## rustls -/

variable (c)

theorem pumpTls_steady : Steady c c.pumpTls.2 := by
  have h : c.pumpTls.2.core.opening.nextBidi = c.nextBidi ∧ c.pumpTls.2.core.due ≤ c.core.due := by
    refine pumpLoop_core (J := fun k => k.opening.nextBidi = c.nextBidi ∧ k.due ≤ c.core.due) ?_ ?_
      c.tls.writes c ⟨rfl, Nat.le_refl _⟩
    · rintro k w ws ⟨hn, hd⟩
      refine ⟨hn, Nat.le_trans ?_ hd⟩
      simp only [Core.due, Core.writing, List.countP_cons]
      omega
    · rintro k w ws raw token hw ⟨hn, hd⟩
      -- the keys that were to come have come
      have hgives : w.givesOneRtt = true := by simp [TlsWrite.givesOneRtt, hw]
      refine ⟨hn, Nat.le_trans ?_ hd⟩
      simp only [Core.due, Core.writing, Core.started, Link.started, List.countP_cons,
        hgives, if_true]
      omega
  exact ⟨h.1, h.2⟩

theorem onCrypto_steady (sp : Space) (offset : Nat) (data : Bytes) :
    Steady c (c.onCrypto sp offset data).2 := by
  rcases core_onCrypto c sp offset data with h | ⟨d, hd, h⟩
  · exact Steady.of_core h
  · exact (Steady.of_core hd).trans ((pumpTls_steady d).trans (Steady.of_core h))

theorem pollTransmit_steady (now : Nat) (pad : Option Nat) :
    Steady c (c.pollTransmit now pad).2 := by
  rcases core_pollTransmit c now pad with h | h
  · exact Steady.of_core h
  · exact (pumpTls_steady c).trans (Steady.of_core h)

/-! ## What arrives -/

theorem handleFrame_steady (sp : Space) (f : Frame) (now : Nat) :
    Steady c (c.handleFrame sp f now).2 := by
  cases f with
  | crypto offset data => exact onCrypto_steady c sp offset data
  | newConnectionId seq retirePriorTo cid token =>
    simp only [handleFrame]
    rw [onNewConnectionId_readdressed c seq retirePriorTo cid token]
    exact Steady.of_eq rfl rfl rfl
  | handshakeDone | maxData limit => exact Steady.of_eq rfl rfl rfl
  | maxStreams uni limit => cases uni <;> exact Steady.of_eq rfl rfl rfl
  | _ => exact Steady.of_core (by simp [handleFrame])

theorem acceptPacket_steady (p : Packet) (pn : Nat) (generation : Generation)
    (received : ReceivedPackets) : Steady c (c.acceptPacket p pn generation received) := by
  unfold acceptPacket rotateKeys adoptScid
  simp only
  repeat' split
  all_goals exact Steady.of_eq rfl rfl rfl

theorem handlePacket_steady (now : Nat) (p : Packet) : Steady c (c.handlePacket now p).2 :=
  (handlePacket_invariant (I := Steady c) (J := Steady c) (Q := fun _ _ => True) id
    (fun _ => Steady.of_core (by simp))
    (fun pn generation received _ _ => acceptPacket_steady c p pn generation received)
    (fun h _ => h.trans (handleFrame_steady _ p.space _ now))
    (fun _ h => h.trans (Steady.of_core (by simp))) (Steady.refl c) fun _ _ => trivial).1

theorem steady_around : Around (Steady c) where
  versionNegotiation dcid scid versions h := h.trans (Steady.of_core (by simp))
  retry dcid scid token tag h := by
    refine h.trans ?_
    unfold onRetry
    repeat' split
    all_goals exact Steady.of_eq rfl rfl rfl
  closeTransport code why h := h.trans (Steady.of_core (by simp))
  noteReceived now h := h.trans (Steady.of_core (by simp))
  lose why h := h.trans (Steady.of_core (by simp))

theorem handleDatagram_steady (now : Nat) (d : Datagram) : Steady c (c.handleDatagram now d).2 :=
  (Op.datagram_invariant (P := fun _ => True) (steady_around c)
    (fun {x} h _ => h.trans (handlePacket_steady x.conn x.now x.packet)) (Steady.refl c) now d
    fun _ _ => trivial).1

/-! ## What the worker does -/

theorem pollEvent_steady : Steady c c.pollEvent.2 := by
  rcases core_pollEvent c with h | ⟨_, _, h⟩
  · exact Steady.of_core h
  · exact ⟨congrArg (·.opening.nextBidi) h, by rw [h]; simp only [Core.due, core]; omega⟩

variable {c}

/-- One `Connected` that was due has been polled. -/
theorem due_of_connected {c c' : Connection} (h : c.pollEvent = (some .connected, c')) :
    c'.core.due + 1 ≤ c.core.due := by
  unfold pollEvent at h
  cases he : c.events with
  | nil => simp [he] at h
  | cons e events =>
    simp only [he, Prod.mk.injEq, Option.some.injEq] at h
    obtain ⟨rfl, rfl⟩ := h
    simp only [Core.due, core, opening, link, he, List.count_cons_self]
    omega

/-- A request sent at once is on the next stream, if the peer allows another. -/
theorem sendOneshot_cases (c : Connection) (data : Bytes) :
    c.maxStreamsBidi ≤ c.nextBidi ∧ c.sendOneshot data = (none, c) ∨
      c.nextBidi < c.maxStreamsBidi ∧
        ∃ sent, (c.sendOneshot data).1 = some (clientStreamId .bi c.nextBidi, sent) ∧
          (c.sendOneshot data).2.nextBidi = c.nextBidi + 1 ∧
          (c.sendOneshot data).2.core.due = c.core.due := by
  unfold sendOneshot openBi
  by_cases hlimit : c.maxStreamsBidi ≤ c.nextBidi
  · exact Or.inl ⟨hlimit, by rw [if_pos hlimit]⟩
  · refine Or.inr ⟨Nat.lt_of_not_le hlimit, ?_⟩
    rw [if_neg hlimit]
    -- the stream just opened is the last one
    simp only [wake, note, pairAt, List.length_append, List.length_singleton,
      Nat.add_sub_cancel, List.getElem?_concat_length, Option.join_some]
    exact ⟨_, rfl, rfl, rfl⟩

end Connection

end Shb.Quic
