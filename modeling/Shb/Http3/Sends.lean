import Shb.Http3.Books

/-!
# What a send of the kernel carries

`pump_transmits` asks the connection for datagrams and queues them as sends. Where the kernel
segments, one send is many datagrams of one length; where it does not, every send has to be one
datagram. The loop is written here over any source of datagrams, with the results of its calls on
record, and the one of the worker is that loop over `poll_transmit` (`pumpTransmits_eq`).

The limit on a probe is two datagrams whether or not the kernel segments, and the loop knows of no
other way to send two than as one batch.
-/

namespace Shb.Http3

open Lib
open Quic (Connection OutPacket)

variable {σ : Type} (poll : σ → Option Nat → Except Quic.Fault (List OutPacket) × σ)

/-- The loop of `pump_transmits` over a source, and what the source has given. -/
def fillFrom : Nat → Nat → Batch → List (List OutPacket) → σ →
    Except Quic.Fault Batch × List (List OutPacket) × σ
  | 0, _, b, calls, s => (.ok b, calls, s)
  | fuel + 1, max, b, calls, s =>
    if max ≤ b.count then (.ok b, calls, s)
    else
      match poll s (if 0 < b.count then some b.segmentSize else none) with
      | (.error e, s) => (.error e, calls, s)
      | (.ok out, s) =>
        let calls := calls ++ [out]
        let n := bytesOf out
        if n = 0 then (.ok b, calls, s)
        else if b.count = 0 then
          let b := { b with buf := b.buf ++ out, segmentSize := n, count := 1 }
          if n < nearlyFull then (.ok b, calls, s)
          else fillFrom fuel (min max (gsoMaxPayload / n)) b calls s
        else if n < b.segmentSize then
          (.ok { b with buf := b.buf ++ out, count := b.count + 1 }, calls, s)
        else if b.segmentSize < n then (.ok { b with oversize := some out }, calls, s)
        else fillFrom fuel max { b with buf := b.buf ++ out, count := b.count + 1 } calls s

/-- The sends a batch is queued as. -/
def Batch.sends (b : Batch) : List OutDatagram :=
  (if b.buf.isEmpty then []
    else [{ packets := b.buf, segmentSize := if 1 < b.count then b.segmentSize else 0 }]) ++
    b.oversize.elim [] fun out => [{ packets := out, segmentSize := 0 }]

/-- How many datagrams are asked for. -/
def sendLimit (gso probing : Bool) : Nat := if probing then 2 else if gso then gsoSegments else 1

/-- `pump_transmits` over a source. -/
def pumpFrom (gso probing : Bool) (s : σ) : Except Quic.Fault Batch × List (List OutPacket) × σ :=
  fillFrom poll (sendLimit gso probing) (sendLimit gso probing) {} [] s

theorem fillBatch_eq (now : Nat) : ∀ (fuel max : Nat) (b : Batch) (calls : List (List OutPacket))
    (quic : Connection), fillBatch now fuel max b quic =
      ((fillFrom (fun quic pad => quic.pollTransmit now pad) fuel max b calls quic).1,
        (fillFrom (fun quic pad => quic.pollTransmit now pad) fuel max b calls quic).2.2)
  | 0, _, _, _, _ => rfl
  | fuel + 1, max, b, calls, quic => by
    simp only [fillBatch, fillFrom]
    split
    · rfl
    · generalize quic.pollTransmit now (if 0 < b.count then some b.segmentSize else none) = polled
      obtain ⟨verdict, quic⟩ := polled
      cases verdict with
      | error e => rfl
      | ok out =>
        dsimp only
        split
        · rfl
        · split
          · split
            · rfl
            · exact fillBatch_eq now fuel _ _ _ quic
          · split
            · rfl
            · split
              · rfl
              · exact fillBatch_eq now fuel _ _ _ quic

/-- The worker's `pump_transmits` is the loop over `poll_transmit`, and queues what it gives. -/
theorem pumpTransmits_eq (cfg : Config) (now : Nat) {c : Conn} {quic : Connection}
    (hq : c.quic = some quic) :
    c.pumpTransmits cfg now =
      match pumpFrom (fun quic pad => quic.pollTransmit now pad) cfg.gso quic.probing quic with
      | (.error e, _, quic) => (.error e, { c with quic := some quic })
      | (.ok b, _, quic) =>
        let c := { c with quic := some quic, outQueue := c.outQueue ++ b.sends }
        (.ok (), if c.sending then c else c.pushFrontSend) := by
  unfold Conn.pumpTransmits pumpFrom sendLimit
  simp only [hq]
  rw [fillBatch_eq now _ _ _ []]
  generalize fillFrom (fun quic pad => quic.pollTransmit now pad)
    (if quic.probing then 2 else if cfg.gso then gsoSegments else 1)
    (if quic.probing then 2 else if cfg.gso then gsoSegments else 1) {} [] quic = filled
  obtain ⟨verdict, calls, quic'⟩ := filled
  cases verdict with
  | error e => rfl
  | ok b =>
    simp only [Conn.enqueue, Batch.sends, List.append_assoc]

/-! ## One datagram a send -/

/-- A send that is one of the datagrams the source gave. -/
def Single (calls : List (List OutPacket)) (d : OutDatagram) : Prop :=
  d.segmentSize = 0 ∧ d.packets ∈ calls

/-- The source gives a full datagram, and then one that can be a segment behind it. -/
def Pairs (s : σ) : Prop :=
  ∃ first s₁ second s₂, poll s none = (.ok first, s₁) ∧ nearlyFull ≤ bytesOf first ∧
    2 * bytesOf first ≤ gsoMaxPayload ∧
    poll s₁ (some (bytesOf first)) = (.ok second, s₂) ∧ 0 < bytesOf second ∧
    bytesOf second ≤ bytesOf first

theorem isEmpty_of_bytesOf {out : List OutPacket} (h : bytesOf out ≠ 0) : out.isEmpty = false := by
  cases out with
  | nil => exact absurd rfl h
  | cons => rfl

variable {poll} {s s' s₁ : σ} {b : Batch} {calls : List (List OutPacket)}
  {first second : List OutPacket}

/-- The batch after the first datagram. -/
def Batch.one (first : List OutPacket) : Batch :=
  { buf := first, segmentSize := bytesOf first, count := 1 }

theorem single_one (h : bytesOf first ≠ 0) (hmem : first ∈ calls) :
    ∀ d ∈ (Batch.one first).sends, Single calls d := by
  intro d hd
  simp only [Batch.sends, Batch.one, isEmpty_of_bytesOf h, Bool.false_eq_true, if_false,
    Nat.lt_irrefl, Option.elim_none, List.append_nil, List.mem_singleton] at hd
  rw [hd]
  exact ⟨rfl, hmem⟩

theorem sends_two (h : bytesOf first ≠ 0) :
    { Batch.one first with buf := first ++ second, count := 2 }.sends =
      [{ packets := first ++ second, segmentSize := bytesOf first }] := by
  have hne : (first ++ second).isEmpty = false := by
    cases first with
    | nil => exact absurd rfl h
    | cons => rfl
  simp [Batch.sends, Batch.one, hne]

theorem fillFrom_first {fuel max : Nat} (h : fillFrom poll (fuel + 1) (max + 1) {} [] s =
    (.ok b, calls, s')) :
    ∃ first s₁, poll s none = (.ok first, s₁) ∧
      ((bytesOf first = 0 ∧ b = {}) ∨
        (bytesOf first ≠ 0 ∧ bytesOf first < nearlyFull ∧ b = .one first ∧ calls = [first]) ∨
        (bytesOf first ≠ 0 ∧ nearlyFull ≤ bytesOf first ∧
          fillFrom poll fuel (min (max + 1) (gsoMaxPayload / bytesOf first))
            (.one first) [first] s₁ = (.ok b, calls, s'))) := by
  simp only [fillFrom, Nat.lt_irrefl, if_false, if_true] at h
  rw [if_neg (Nat.not_succ_le_zero max)] at h
  cases hp : poll s none with
  | mk verdict s₁ =>
    rw [hp] at h
    cases verdict with
    | error e => cases h
    | ok first =>
      refine ⟨first, s₁, rfl, ?_⟩
      dsimp only at h
      split at h
      · cases h
        exact Or.inl ⟨‹_›, rfl⟩
      · rename_i hn
        split at h
        · cases h
          exact Or.inr (Or.inl ⟨hn, ‹_›, rfl, rfl⟩)
        · exact Or.inr (Or.inr ⟨hn, Nat.not_lt.mp ‹_›, h⟩)

theorem fillFrom_second (h : fillFrom poll 1 2 (.one first) [first] s₁ = (.ok b, calls, s')) :
    ∃ second s₂, poll s₁ (some (bytesOf first)) = (.ok second, s₂) ∧ calls = [first, second] ∧
      ((bytesOf second = 0 ∧ b = .one first) ∨
        (0 < bytesOf second ∧ bytesOf second ≤ bytesOf first ∧
          b = { Batch.one first with buf := first ++ second, count := 2 }) ∨
        (bytesOf first < bytesOf second ∧
          b = { Batch.one first with oversize := some second })) := by
  have hcount : (Batch.one first).count = 1 := rfl
  have hsize : (Batch.one first).segmentSize = bytesOf first := rfl
  simp only [fillFrom, hcount, hsize, Nat.reduceLeDiff, if_false, Nat.one_pos, if_true] at h
  cases hp : poll s₁ (some (bytesOf first)) with
  | mk verdict s₂ =>
    rw [hp] at h
    cases verdict with
    | error e => cases h
    | ok second =>
      refine ⟨second, s₂, rfl, ?_⟩
      dsimp only at h
      split at h
      · cases h
        exact ⟨rfl, Or.inl ⟨‹_›, rfl⟩⟩
      · rename_i hn
        rw [if_neg Nat.one_ne_zero] at h
        split at h
        · cases h
          exact ⟨rfl, Or.inr (Or.inl ⟨Nat.pos_of_ne_zero hn, Nat.le_of_lt ‹_›, rfl⟩)⟩
        · split at h
          · cases h
            exact ⟨rfl, Or.inr (Or.inr ⟨‹_›, rfl⟩)⟩
          · cases h
            exact ⟨rfl, Or.inr (Or.inl ⟨Nat.pos_of_ne_zero hn, Nat.not_lt.mp ‹_›, rfl⟩)⟩

/-- **Without segmentation every send is one datagram**, exactly if no probe goes out as a pair of
datagrams. -/
theorem plain_sends_are_single_iff {probing : Bool}
    (h : pumpFrom poll false probing s = (.ok b, calls, s')) :
    (∀ d ∈ b.sends, Single calls d) ↔ ¬(probing = true ∧ Pairs poll s) := by
  cases probing with
  | false =>
    refine ⟨fun _ hc => (nomatch hc.1), fun _ => ?_⟩
    obtain ⟨first, s₁, -, ⟨-, rfl⟩ | ⟨hn, -, rfl, rfl⟩ | ⟨hn, -, hrest⟩⟩ := fillFrom_first h
    · exact nofun
    · exact single_one hn List.mem_cons_self
    · cases hrest
      exact single_one hn List.mem_cons_self
  | true =>
    obtain ⟨first, s₁, hfirst, hcases⟩ := fillFrom_first h
    have hfull : 0 < nearlyFull := by decide
    have hpairs : Pairs poll s → nearlyFull ≤ bytesOf first ∧ 2 * bytesOf first ≤ gsoMaxPayload ∧
        ∃ second s₂, poll s₁ (some (bytesOf first)) = (.ok second, s₂) ∧ 0 < bytesOf second ∧
          bytesOf second ≤ bytesOf first := by
      rintro ⟨first', s₁', second, s₂, hfirst', hn, htwo, hsecond, hpos, hle⟩
      cases hfirst.symm.trans hfirst'
      exact ⟨hn, htwo, second, s₂, hsecond, hpos, hle⟩
    suffices hdecides : (∀ d ∈ b.sends, Single calls d) ∧ ¬ Pairs poll s ∨
        ¬ (∀ d ∈ b.sends, Single calls d) ∧ Pairs poll s by
      rcases hdecides with ⟨hs, hp⟩ | ⟨hs, hp⟩
      · exact ⟨fun _ hc => hp hc.2, fun _ => hs⟩
      · exact ⟨fun hs' => absurd hs' hs, fun hc => absurd ⟨rfl, hp⟩ hc⟩
    rcases hcases with ⟨hn, rfl⟩ | ⟨hn, hshort, rfl, rfl⟩ | ⟨hn, hlong, hrest⟩
    · refine Or.inl ⟨nofun, fun hp => ?_⟩
      exact absurd (hpairs hp).1 (Nat.not_le.mpr (hn ▸ hfull))
    · exact Or.inl ⟨single_one hn List.mem_cons_self,
        fun hp => absurd (hpairs hp).1 (Nat.not_le.mpr hshort)⟩
    · by_cases htwo : 2 * bytesOf first ≤ gsoMaxPayload
      · -- the second call decides
        have hmax : min 2 (gsoMaxPayload / bytesOf first) = 2 := by
          rw [Nat.min_eq_left]
          exact (Nat.le_div_iff_mul_le (Nat.pos_of_ne_zero hn)).mpr htwo
        rw [hmax] at hrest
        obtain ⟨second, s₂, hsecond, rfl, hout⟩ := fillFrom_second hrest
        have hpaired : Pairs poll s → 0 < bytesOf second ∧ bytesOf second ≤ bytesOf first := by
          intro hp
          obtain ⟨second', s₂', hsecond', hpos, hle⟩ := (hpairs hp).2.2
          cases hsecond.symm.trans hsecond'
          exact ⟨hpos, hle⟩
        rcases hout with ⟨hzero, rfl⟩ | ⟨hpos, hle, rfl⟩ | ⟨hover, rfl⟩
        · exact Or.inl ⟨single_one hn List.mem_cons_self,
            fun hp => absurd (hpaired hp).1 (Nat.not_lt.mpr (Nat.le_of_eq hzero))⟩
        · refine Or.inr ⟨fun hs => ?_, first, s₁, second, s₂, hfirst, hlong, htwo,
            hsecond, hpos, hle⟩
          rw [sends_two hn] at hs
          exact hn (hs _ List.mem_cons_self).1
        · refine Or.inl ⟨fun d hd => ?_, fun hp => absurd (hpaired hp).2 (Nat.not_le.mpr hover)⟩
          simp only [Batch.sends, Batch.one, isEmpty_of_bytesOf hn, Bool.false_eq_true, if_false,
            Nat.lt_irrefl, Option.elim_some, List.cons_append, List.nil_append, List.mem_cons,
            List.not_mem_nil, or_false] at hd
          rcases hd with rfl | rfl
          · exact ⟨rfl, List.mem_cons_self⟩
          · exact ⟨rfl, List.mem_cons_of_mem _ List.mem_cons_self⟩
      · -- the message would be too long for two
        have hmax : min 2 (gsoMaxPayload / bytesOf first) ≤ 1 := by
          refine Nat.le_trans (Nat.min_le_right _ _) (Nat.le_of_lt_succ ?_)
          rw [Nat.div_lt_iff_lt_mul (Nat.pos_of_ne_zero hn)]
          exact Nat.not_le.mp htwo
        have hcount : (Batch.one first).count = 1 := rfl
        simp only [fillFrom, hcount, if_pos hmax] at hrest
        cases hrest
        exact Or.inl ⟨single_one hn List.mem_cons_self, fun hp => htwo (hpairs hp).2.1⟩

/-- The first datagram of a connection, which owes no probe. -/
theorem plain_sends_are_single_iff_hello :
    ∃ b calls quic,
      pumpFrom (fun quic pad => quic.pollTransmit 0 pad) false false Quic.newConnection =
        (.ok b, calls, quic) ∧ b.sends.length = 1 ∧ ∀ d ∈ b.sends, Single calls d := by
  have hlen : (pumpFrom (fun quic pad => quic.pollTransmit 0 pad) false false
      Quic.newConnection).1.toOption.map (·.sends.length) = some 1 := by decide +kernel
  generalize hpump : pumpFrom (fun quic pad => quic.pollTransmit 0 pad) false false
    Quic.newConnection = pumped at hlen
  obtain ⟨verdict, calls, quic⟩ := pumped
  cases verdict with
  | error e => exact nomatch hlen
  | ok b =>
    exact ⟨b, calls, quic, rfl, Option.some.inj hlen,
      (plain_sends_are_single_iff hpump).mpr fun hc => nomatch hc.1⟩

/-! ## A probe of two datagrams -/

/-- A server that takes 6000 bytes, on the connection and on a stream. -/
def probedParams : Bytes :=
  [0, 8] ++ Quic.serverCid.bytes ++ [15, 8] ++ Quic.serverCid.bytes ++
    [4, 2, 0x57, 0x70, 6, 2, 0x57, 0x70, 8, 1, 2]

def probedStart : Connection :=
  Connection.connect ⟨100, 100, 3, 30000, 5000⟩ Quic.ourCid Quic.serverCid
    { writes := [{ data := [1, 2, 3] }, { data := [] }, { data := [], change := some .handshake },
        { data := [], change := some (.oneRtt (some probedParams)) }, { data := [4] },
        { data := [] }] }

/-- A request of 3500 bytes, of which one datagram was sent before the probe timeout. -/
def probedOps : List Quic.Op :=
  Quic.handshakeOps ++
    [ .transmit 2 none,
      Quic.oneRttDatagram 3 0 [0x1e],
      .sendOneshot (List.replicate 3500 7),
      .transmit 4 none,
      .timeout 334000000 ]

/-- What `pump_transmits` queues for such a connection. -/
def probeSends (quic : Connection) : List OutDatagram :=
  ({ Conn.new with quic := some quic }.pumpTransmits (smallConfig 1) 334000000).2.outQueue

/-- The kernel does not segment, and is asked to: two datagrams in one send. -/
theorem probe_sent_as_batch :
    (smallConfig 1).gso = false ∧
      ((run Quic.Op.step probedStart probedOps).map fun quic => (probeSends quic).map fun d =>
        (bytesOf d.packets, d.segmentSize)) = some [(2380, 1190)] := by
  decide +kernel

/-! ## What a batch is cut into -/

/-- The kernel cuts a batch at every multiple of its segment size. What comes out are these
datagrams: all of that length but the last, and as many as one send may hold. -/
structure Batch.CutsInto (b : Batch) (cut : List (List OutPacket)) : Prop where
  whole : b.buf = cut.flatten
  count : b.count = cut.length
  pos : ∀ out ∈ cut, 0 < bytesOf out
  full : ∀ out ∈ cut.dropLast, bytesOf out = b.segmentSize
  last : ∀ out ∈ cut, bytesOf out ≤ b.segmentSize
  few : cut.length ≤ gsoSegments
  fits : 1 < cut.length → cut.length * b.segmentSize ≤ gsoMaxPayload

section

variable {max : Nat} {out : List OutPacket} {cut : List (List OutPacket)}

/-- One more datagram behind full ones, while there is room. -/
theorem Batch.CutsInto.push (h : b.CutsInto cut) (hfull : ∀ out ∈ cut, bytesOf out = b.segmentSize)
    (hroom : max * b.segmentSize ≤ gsoMaxPayload) (hfew : max ≤ gsoSegments) (hlt : b.count < max)
    (hpos : 0 < bytesOf out) (hle : bytesOf out ≤ b.segmentSize) :
    CutsInto { b with buf := b.buf ++ out, count := b.count + 1 } (cut ++ [out]) := by
  have hlast : ∀ o ∈ cut ++ [out], 0 < bytesOf o ∧ bytesOf o ≤ b.segmentSize := by
    intro o ho
    rcases List.mem_append.mp ho with ho | ho
    · exact ⟨h.pos o ho, h.last o ho⟩
    · exact List.mem_singleton.mp ho ▸ ⟨hpos, hle⟩
  have hlen : (cut ++ [out]).length ≤ max := by
    rw [List.length_append, ← h.count]
    exact hlt
  exact ⟨by simp [h.whole], by simp [h.count], fun o ho => (hlast o ho).1, by simpa using hfull,
    fun o ho => (hlast o ho).2, Nat.le_trans hlen hfew,
    fun _ => Nat.le_trans (Nat.mul_le_mul_right _ hlen) hroom⟩

/-- The loop keeps every datagram it is given, in the batch or alone behind it. While it goes on,
the batch is what it was given and all of one length. -/
theorem fillFrom_cuts {fuel : Nat} {b' : Batch} {calls' : List (List OutPacket)}
    (hb : b.CutsInto calls) (hfull : ∀ out ∈ calls, bytesOf out = b.segmentSize)
    (hover : b.oversize = none) (hroom : max * b.segmentSize ≤ gsoMaxPayload)
    (hfew : max ≤ gsoSegments) (h : fillFrom poll fuel max b calls s = (.ok b', calls', s')) :
    ∃ cut, b'.CutsInto cut ∧
      calls'.filter (fun out => 0 < bytesOf out) = cut ++ b'.oversize.toList := by
  have hcalls : calls.filter (fun out => 0 < bytesOf out) = calls :=
    List.filter_eq_self.mpr fun out ho => decide_eq_true (hb.pos out ho)
  induction fuel generalizing max b calls s with
  | zero =>
    cases h
    exact ⟨_, hb, by simp [hcalls, hover]⟩
  | succ fuel ih =>
    simp only [fillFrom] at h
    split at h
    · cases h
      exact ⟨_, hb, by simp [hcalls, hover]⟩
    rename_i hlt
    split at h
    · cases h
    rename_i out s₁ _
    split at h
    · cases h
      exact ⟨calls, hb, by simp [hcalls, hover, ‹bytesOf out = 0›]⟩
    rename_i hn
    have hpos := Nat.pos_of_ne_zero hn
    split at h
    · rename_i hcount
      -- the first datagram sets the size
      cases List.length_eq_zero_iff.mp (hb.count.symm.trans hcount)
      have hone : Batch.CutsInto
          { b with buf := b.buf ++ out, segmentSize := bytesOf out, count := 1 } [out] := by
        constructor <;> simp [hb.whole, hpos, gsoSegments]
      split at h
      · cases h
        exact ⟨[out], hone, by simp [hpos, hover]⟩
      · refine ih hone (by simp) hover ?_ (Nat.le_trans (Nat.min_le_left _ _) hfew) h
          (by simp [hpos])
        exact Nat.le_trans (Nat.mul_le_mul_right _ (Nat.min_le_right _ _)) (Nat.div_mul_le_self _ _)
    · have hpush := hb.push hfull hroom hfew (Nat.not_le.mp hlt) hpos
      split at h
      · rename_i hshort
        cases h
        exact ⟨_, hpush (Nat.le_of_lt hshort), by simp [hcalls, hover, hpos]⟩
      · rename_i hlong
        split at h
        · cases h
          exact ⟨calls, { hb with }, by simp [hcalls, hpos]⟩
        · rename_i hsame
          have heq := Nat.le_antisymm (Nat.not_lt.mp hsame) (Nat.not_lt.mp hlong)
          refine ih (hpush (Nat.le_of_eq heq)) ?_ hover hroom hfew h (by simp [hcalls, hpos])
          intro o ho
          rcases List.mem_append.mp ho with ho | ho
          · exact hfull o ho
          · exact List.mem_singleton.mp ho ▸ heq

end

theorem pumpFrom_cuts {gso probing : Bool} (h : pumpFrom poll gso probing s = (.ok b, calls, s')) :
    ∃ cut, b.CutsInto cut ∧
      calls.filter (fun out => 0 < bytesOf out) = cut ++ b.oversize.toList := by
  have hlimit : sendLimit gso probing ≤ gsoSegments := by
    cases probing <;> cases gso <;> decide
  exact fillFrom_cuts (b := {}) (by constructor <;> simp) (by simp) rfl (by simp) hlimit h

/-- **The kernel sends what the connection built.** Whatever `poll_transmit` gives while
`pump_transmits` fills the queue, the kernel's cuts give back those datagrams, every one of them,
in order and whole; one that cannot join the batch goes on its own, behind it. -/
theorem batch_cuts_into_datagrams (cfg : Config) (now : Nat) {c c' : Conn} {quic : Connection}
    (hq : c.quic = some quic) (h : c.pumpTransmits cfg now = (.ok (), c')) :
    ∃ b calls quic' cut,
      pumpFrom (fun quic pad => quic.pollTransmit now pad) cfg.gso quic.probing quic =
        (.ok b, calls, quic') ∧
      c'.quic = some quic' ∧ c'.outQueue = c.outQueue ++ b.sends ∧ b.CutsInto cut ∧
      calls.filter (fun out => 0 < bytesOf out) = cut ++ b.oversize.toList := by
  rw [pumpTransmits_eq cfg now hq] at h
  generalize hfill : pumpFrom (fun quic pad => quic.pollTransmit now pad) cfg.gso
    quic.probing quic = filled at h
  obtain ⟨verdict, calls, quic'⟩ := filled
  cases verdict with
  | error e => cases h
  | ok b =>
    obtain ⟨cut, hcut, hcalls⟩ := pumpFrom_cuts hfill
    refine ⟨b, calls, quic', cut, rfl, ?_, ?_, hcut, hcalls⟩
    all_goals
      cases h
      unfold Conn.pushFrontSend
      repeat' split
      all_goals rfl

/-- A connection that owes a probe of two datagrams. -/
def probed : Connection :=
  (run Quic.Op.step probedStart probedOps).getD probedStart

/-- The two go out as one send, and come out of it as they were. -/
theorem batch_cuts_into_datagrams_probe :
    ∃ b calls quic cut,
      pumpFrom (fun quic pad => quic.pollTransmit 334000000 pad) false probed.probing probed =
        (.ok b, calls, quic) ∧
      b.segmentSize = 1190 ∧ b.CutsInto cut ∧ cut.map bytesOf = [1190, 1190] := by
  generalize hpump : ({ Conn.new with quic := some probed } : Conn).pumpTransmits (smallConfig 1)
    334000000 = pumped
  have hok : pumped.1 = .ok () := by
    rw [← hpump]
    decide +kernel
  obtain ⟨verdict, c⟩ := pumped
  cases hok
  obtain ⟨b, calls, quic, cut, hfrom, _, _, hcut, hcalls⟩ :=
    batch_cuts_into_datagrams (smallConfig 1) 334000000 rfl hpump
  refine ⟨b, calls, quic, cut, hfrom, ?_⟩
  have hbatch : (pumpFrom (fun quic pad => quic.pollTransmit 334000000 pad) (smallConfig 1).gso
      probed.probing probed).1.toOption.map (fun b => (b.segmentSize, b.oversize.isNone)) =
      some (1190, true) := by decide +kernel
  have hbytes : ((pumpFrom (fun quic pad => quic.pollTransmit 334000000 pad) (smallConfig 1).gso
      probed.probing probed).2.1.filter fun out => 0 < bytesOf out).map bytesOf = [1190, 1190] := by
    decide +kernel
  rw [hfrom] at hbatch hbytes
  obtain ⟨hsize, hover⟩ := Prod.mk.inj (Option.some.inj hbatch)
  rw [hcalls, Option.isNone_iff_eq_none.mp hover, Option.toList_none, List.append_nil] at hbytes
  exact ⟨hsize, hcut, hbytes⟩

/-! ## Batch after batch -/

/-- What the kernel sends for one send: these datagrams, and no more of them than allowed. A send
without a segment size is one; in any other all have that size but the last, which may be
shorter. -/
structure OutDatagram.SplitsInto (limit : Nat) (d : OutDatagram) (cut : List (List OutPacket)) :
    Prop where
  whole : d.packets = cut.flatten
  pos : ∀ out ∈ cut, 0 < bytesOf out
  alone : d.segmentSize = 0 → cut.length = 1
  full : d.segmentSize ≠ 0 → ∀ out ∈ cut.dropLast, bytesOf out = d.segmentSize
  last : d.segmentSize ≠ 0 → ∀ out ∈ cut, bytesOf out ≤ d.segmentSize
  few : cut.length ≤ limit
  fits : bytesOf d.packets ≤ gsoMaxPayload

variable (poll) in
/-- `pump_transmits` again and again, with whatever happens to the source in between: the sends,
each with whether it is part of a probe, and what the source gave. -/
def pumpAll (gso : Bool) : List (Bool × (σ → σ)) → σ →
    Option (List (Bool × OutDatagram) × List (List OutPacket))
  | [], _ => some ([], [])
  | (probing, between) :: rest, s =>
    match pumpFrom poll gso probing s with
    | (.error _, _, _) => none
    | (.ok b, calls, s) =>
      (pumpAll gso rest (between s)).map fun r => (b.sends.map (probing, ·) ++ r.1, calls ++ r.2)

section

variable {limit max fuel : Nat} {b' : Batch} {calls' : List (List OutPacket)}

/-- The limit only ever gets smaller, and nothing is too large for a batch that is empty. -/
theorem fillFrom_bounds (hcount : b.count ≤ limit) (hmax : max ≤ limit) (hover : b.oversize = none)
    (h : fillFrom poll fuel max b calls s = (.ok b', calls', s')) :
    b'.count ≤ limit ∧ (b'.oversize ≠ none → 0 < b'.count) := by
  induction fuel generalizing max b calls s with
  | zero =>
    cases h
    exact ⟨hcount, fun hne => absurd hover hne⟩
  | succ fuel ih =>
    have hstop : ∀ {b₁ : Batch}, b₁ = b' → b₁.count ≤ limit → b₁.oversize = none →
        b'.count ≤ limit ∧ (b'.oversize ≠ none → 0 < b'.count) := by
      rintro b₁ rfl hle hnone
      exact ⟨hle, fun hne => absurd hnone hne⟩
    simp only [fillFrom] at h
    split at h
    · cases h
      exact hstop rfl hcount hover
    rename_i hlt
    have hnext : b.count + 1 ≤ limit := Nat.le_trans (Nat.not_le.mp hlt) hmax
    split at h
    · cases h
    split at h
    · cases h
      exact hstop rfl hcount hover
    split at h
    · rename_i hzero
      have hone : 1 ≤ limit := by omega
      split at h
      · cases h
        exact hstop rfl hone hover
      · refine ih ?_ (Nat.le_trans (Nat.min_le_left _ _) hmax) ?_ h
        · exact hone
        · exact hover
    · rename_i hpos
      split at h
      · cases h
        exact hstop rfl hnext hover
      split at h
      · cases h
        exact ⟨hcount, fun _ => Nat.pos_of_ne_zero hpos⟩
      · refine ih ?_ hmax ?_ h
        · exact hnext
        · exact hover

theorem bytesOf_append (xs ys : List OutPacket) : bytesOf (xs ++ ys) = bytesOf xs + bytesOf ys := by
  simp [bytesOf]

theorem bytesOf_flatten_le {size : Nat} (cut : List (List OutPacket))
    (h : ∀ out ∈ cut, bytesOf out ≤ size) : bytesOf cut.flatten ≤ cut.length * size := by
  induction cut with
  | nil => exact Nat.zero_le _
  | cons out cut ih =>
    have hout := h out List.mem_cons_self
    have hrest := ih fun o ho => h o (List.mem_cons_of_mem _ ho)
    rw [List.flatten_cons, bytesOf_append, List.length_cons, Nat.succ_mul]
    omega

/-- Whatever is not empty has bytes: every packet ends with a tag. -/
theorem eq_nil_of_bytesOf {out : List OutPacket} (h : bytesOf out = 0) : out = [] := by
  cases out with
  | nil => rfl
  | cons p out =>
    have htag : 0 < Quic.tagLen := by decide
    simp only [bytesOf, List.map_cons, List.sum_cons, OutPacket.size] at h
    omega

theorem flatten_filter (calls : List (List OutPacket)) :
    (calls.filter fun out => 0 < bytesOf out).flatten = calls.flatten := by
  induction calls with
  | nil => rfl
  | cons out calls ih =>
    rw [List.filter_cons]
    split
    · rw [List.flatten_cons, List.flatten_cons, ih]
    · rename_i hzero
      have hnil : out = [] := eq_nil_of_bytesOf (by simpa using hzero)
      rw [ih, hnil, List.flatten_cons, List.nil_append]

theorem OutDatagram.SplitsInto.single {out : List OutPacket} (hpos : 0 < bytesOf out)
    (hfits : bytesOf out ≤ gsoMaxPayload) (hlimit : 1 ≤ limit) :
    SplitsInto limit { packets := out, segmentSize := 0 } [out] where
  whole := (List.flatten_singleton).symm
  pos _ ho := List.mem_singleton.mp ho ▸ hpos
  alone _ := rfl
  full h := absurd rfl h
  last h := absurd rfl h
  few := hlimit
  fits := hfits

/-- A batch that is not empty splits as it was put together. -/
theorem Batch.CutsInto.splits {cut : List (List OutPacket)} (h : b.CutsInto cut) (hne : cut ≠ [])
    (hfew : cut.length ≤ limit) (hsizes : ∀ out ∈ cut, bytesOf out ≤ gsoMaxPayload) :
    OutDatagram.SplitsInto limit
      { packets := b.buf, segmentSize := if 1 < b.count then b.segmentSize else 0 } cut := by
  obtain ⟨first, rest, rfl⟩ := List.exists_cons_of_ne_nil hne
  have hseg : 0 < b.segmentSize :=
    Nat.lt_of_lt_of_le (h.pos first List.mem_cons_self) (h.last first List.mem_cons_self)
  rw [h.count]
  by_cases hmany : 1 < (first :: rest).length
  · rw [if_pos hmany]
    refine ⟨h.whole, h.pos, fun hz => absurd hz (Nat.ne_of_gt hseg), fun _ => h.full,
      fun _ => h.last, hfew, ?_⟩
    have hle := bytesOf_flatten_le _ h.last
    rw [← h.whole] at hle
    exact Nat.le_trans hle (h.fits hmany)
  · have hrest : rest = [] := by
      rw [List.length_cons] at hmany
      exact List.length_eq_zero_iff.mp (by omega)
    subst hrest
    have hone : b.buf = first := h.whole.trans List.flatten_singleton
    rw [hone]
    exact .single (h.pos first List.mem_cons_self) (hsizes first List.mem_cons_self) hfew

end

/-- One call of `pump_transmits`: its sends split into what the source gave. -/
theorem pumpFrom_splits {gso probing : Bool} (h : pumpFrom poll gso probing s = (.ok b, calls, s'))
    :
    ((∀ out ∈ calls, bytesOf out ≤ gsoMaxPayload) →
      ∃ cuts, List.Forall₂ (OutDatagram.SplitsInto (sendLimit gso probing)) b.sends cuts ∧
        cuts.flatten = calls.filter fun out => 0 < bytesOf out) ∧
    ∀ out ∈ calls, b.segmentSize < bytesOf out →
      ∃ batch, b.sends = [batch, { packets := out, segmentSize := 0 }] := by
  obtain ⟨cut, hcut, hcalls⟩ := pumpFrom_cuts h
  obtain ⟨hfew, hover⟩ := fillFrom_bounds (b := {}) (Nat.zero_le _) (Nat.le_refl _) rfl h
  have hkept : ∀ out ∈ cut ++ b.oversize.toList, out ∈ calls ∧ 0 < bytesOf out := by
    intro out ho
    rw [← hcalls] at ho
    exact ⟨(List.mem_filter.mp ho).1, of_decide_eq_true (List.mem_filter.mp ho).2⟩
  rw [hcut.count] at hfew hover
  by_cases hne : cut = []
  · -- the source had nothing
    subst hne
    have hnone : b.oversize = none := by
      by_contra hsome
      exact absurd (hover hsome) (Nat.lt_irrefl 0)
    have hbuf : b.buf = [] := hcut.whole
    have hsends : b.sends = [] := by simp [Batch.sends, hbuf, hnone]
    rw [hnone] at hcalls
    rw [hsends, hcalls]
    refine ⟨fun _ => ⟨[], .nil, rfl⟩, fun out ho hlt => ?_⟩
    have hmem : out ∈ calls.filter fun out => 0 < bytesOf out :=
      List.mem_filter.mpr ⟨ho, decide_eq_true (Nat.zero_lt_of_lt hlt)⟩
    rw [hcalls] at hmem
    exact absurd hmem List.not_mem_nil
  · have hbatch := fun hsizes : ∀ out ∈ calls, bytesOf out ≤ gsoMaxPayload =>
      hcut.splits hne hfew fun out ho => hsizes out (hkept out (List.mem_append_left _ ho)).1
    have hbuf : b.buf.isEmpty = false := by
      obtain ⟨first, rest, rfl⟩ := List.exists_cons_of_ne_nil hne
      have hfirst := isEmpty_of_bytesOf (Nat.ne_of_gt (hcut.pos first List.mem_cons_self))
      rw [hcut.whole, List.flatten_cons]
      simp [List.isEmpty_eq_false_iff.mp hfirst]
    cases ho : b.oversize with
    | none =>
      rw [ho, Option.toList_none, List.append_nil] at hcalls
      refine ⟨fun hsizes => ⟨[cut], ?_, by rw [hcalls, List.flatten_singleton]⟩,
        fun out hmem hlt => ?_⟩
      · simp only [Batch.sends, hbuf, Bool.false_eq_true, if_false, ho, Option.elim_none,
          List.append_nil]
        exact .cons (hbatch hsizes) .nil
      · have hmem' : out ∈ cut := by
          rw [← hcalls]
          exact List.mem_filter.mpr ⟨hmem, decide_eq_true (Nat.zero_lt_of_lt hlt)⟩
        exact absurd hlt (Nat.not_lt.mpr (hcut.last out hmem'))
    | some big =>
      rw [ho, Option.toList_some] at hcalls hkept
      have hbig := hkept big (List.mem_append_right _ List.mem_cons_self)
      have hsends : b.sends =
          [{ packets := b.buf, segmentSize := if 1 < b.count then b.segmentSize else 0 },
            { packets := big, segmentSize := 0 }] := by
        simp only [Batch.sends, hbuf, Bool.false_eq_true, if_false, ho, Option.elim_some,
          List.singleton_append]
      rw [hsends]
      refine ⟨fun hsizes => ⟨[cut, [big]], ?_, by simp [hcalls]⟩, fun out hmem hlt => ?_⟩
      · have hone : 1 ≤ sendLimit gso probing := Nat.le_trans (List.length_pos_of_ne_nil hne) hfew
        exact .cons (hbatch hsizes) (.cons (.single hbig.2 (hsizes big hbig.1) hone) .nil)
      · have hmem' : out ∈ cut ++ [big] := by
          rw [← hcalls]
          exact List.mem_filter.mpr ⟨hmem, decide_eq_true (Nat.zero_lt_of_lt hlt)⟩
        rcases List.mem_append.mp hmem' with hin | hin
        · exact absurd hlt (Nat.not_lt.mpr (hcut.last out hin))
        · exact ⟨_, by rw [List.mem_singleton.mp hin]⟩

/-- Any number of calls, and what they were given. -/
theorem pumpAll_splits {gso : Bool} : ∀ {pumps : List (Bool × (σ → σ))} {s : σ}
    {sends : List (Bool × OutDatagram)} {calls : List (List OutPacket)},
    pumpAll poll gso pumps s = some (sends, calls) → (∀ out ∈ calls, bytesOf out ≤ gsoMaxPayload) →
    ∃ cuts, List.Forall₂ (fun d cut => d.2.SplitsInto (sendLimit gso d.1) cut) sends cuts ∧
      cuts.flatten = calls.filter fun out => 0 < bytesOf out
  | [], s, sends, calls, h, _ => by
    cases h
    exact ⟨[], .nil, rfl⟩
  | (probing, between) :: pumps, s, sends, calls, h, hsizes => by
    simp only [pumpAll] at h
    split at h
    · cases h
    · rename_i b calls₁ s₁ hone
      obtain ⟨⟨sends₂, calls₂⟩, hrest, hout⟩ := Option.map_eq_some_iff.mp h
      cases hout
      obtain ⟨hsizes₁, hsizes₂⟩ := List.forall_mem_append.mp hsizes
      obtain ⟨cuts₁, hsplit₁, hcalls₁⟩ := (pumpFrom_splits hone).1 hsizes₁
      obtain ⟨cuts₂, hsplit₂, hcalls₂⟩ := pumpAll_splits hrest hsizes₂
      refine ⟨cuts₁ ++ cuts₂, List.rel_append ?_ hsplit₂, ?_⟩
      · exact List.forall₂_map_left_iff.mpr hsplit₁
      · rw [List.flatten_append, List.filter_append, hcalls₁, hcalls₂]

theorem packets_of_splits {gso : Bool} {sends : List (Bool × OutDatagram)}
    {cuts : List (List (List OutPacket))}
    (h : List.Forall₂ (fun d cut => d.2.SplitsInto (sendLimit gso d.1) cut) sends cuts) :
    sends.flatMap (·.2.packets) = cuts.flatten.flatten := by
  induction h with
  | nil => rfl
  | cons hone _ ih => rw [List.flatMap_cons, List.flatten_cons, List.flatten_append, ih, hone.whole]

/-- **Batches are well formed.** However often `pump_transmits` is called, and whatever happens
to the connection in between: the sends carry exactly the bytes it built, in order. Each splits into
what single calls of `poll_transmit` gave, all of the segment size but the last, and neither in
bytes nor in datagrams more than the kernel takes, or than a probe may have. A datagram that is
larger than the segments of a batch leaves behind it, on its own. -/
theorem gso_batches_well_formed {pumps : List (Bool × (σ → σ))} {sends : List (Bool × OutDatagram)}
    (h : pumpAll poll true pumps s = some (sends, calls))
    (hsizes : ∀ out ∈ calls, bytesOf out ≤ gsoMaxPayload) :
    (sends.flatMap (·.2.packets) = calls.flatten ∧
      ∃ cuts, List.Forall₂ (fun d cut => d.2.SplitsInto (sendLimit true d.1) cut) sends cuts ∧
        cuts.flatten = calls.filter fun out => 0 < bytesOf out) ∧
    ∀ probing s b calls s', pumpFrom poll true probing s = (.ok b, calls, s') →
      ∀ out ∈ calls, b.segmentSize < bytesOf out →
        ∃ batch, b.sends = [batch, { packets := out, segmentSize := 0 }] := by
  obtain ⟨cuts, hsplit, hcalls⟩ := pumpAll_splits h hsizes
  refine ⟨⟨?_, cuts, hsplit, hcalls⟩, fun probing s b calls s' hpump => (pumpFrom_splits hpump).2⟩
  rw [packets_of_splits hsplit, hcalls, flatten_filter]

/-- A source that gives one datagram after another, however they are to be padded. -/
def oneByOne : List (List OutPacket) → Option Nat →
    Except Quic.Fault (List OutPacket) × List (List OutPacket)
  | [], _ => (.ok [], [])
  | out :: rest, _ => (.ok out, rest)

/-- A datagram of one packet, of so many bytes. -/
def sized (n : Nat) : List OutPacket :=
  [{ space := .data, number := 0, key := .oneRtt 0, header := [],
     payload := List.replicate (n - Quic.tagLen) 0 }]

/-- Two full datagrams and a short one, a full one and one that is too large to follow it, and two
of three in a probe. -/
def variedSource : List (List OutPacket) :=
  [1200, 1200, 600, 1200, 1210, 1200, 1200, 1200].map sized

def variedPumps : List (Bool × (List (List OutPacket) → List (List OutPacket))) :=
  [(false, id), (false, id), (true, id)]

def variedSends : List (Bool × OutDatagram) :=
  ((pumpAll oneByOne true variedPumps variedSource).getD ([], [])).1

theorem gso_batches_well_formed_varied :
    variedSends.map (fun d => (bytesOf d.2.packets, d.2.segmentSize)) =
      [(3000, 1200), (1200, 0), (1210, 0), (2400, 1200)] ∧
    variedSends.flatMap (·.2.packets) = (variedSource.take 7).flatten := by
  have hrun : pumpAll oneByOne true variedPumps variedSource =
      some (variedSends, variedSource.take 7) := by decide +kernel
  have hwell := gso_batches_well_formed hrun (by decide +kernel)
  exact ⟨by decide +kernel, hwell.1.1⟩

end Shb.Http3
