import Mathlib.Data.List.Basic
import Mathlib.Data.Nat.Bitwise

/-!
# The connections that have something to send

A worker marks the connections that got something to send and flushes them together. The marks
are bits of 64-bit words; a word that is full is walked slot by slot, any other by taking its
lowest bit until none is left. Both are the same walk: over the bits that are set, in order.
-/

namespace Shb.Http2

/-- Pending connection slots. -/
structure PendingFlush where
  words : List Nat
  deriving DecidableEq, Repr

/-- The number of zero bits below the lowest one of a `u64`. -/
def trailingZeros (word : Nat) : Nat := ((List.range 64).find? word.testBit).getD 64

namespace PendingFlush

def new (connections : Nat) : PendingFlush := ⟨List.replicate ((connections + 63) / 64) 0⟩

/-- Indexing beyond the words panics. -/
def mark (p : PendingFlush) (connIdx : Nat) : Option PendingFlush :=
  match p.words[connIdx / 64]? with
  | none => none
  | some word => some ⟨p.words.set (connIdx / 64) (word ||| 1 <<< (connIdx % 64))⟩

variable {σ ε : Type} (flush : σ → Nat → Except ε σ)

/-- The bits of a word, the lowest first, for as long as `flush` succeeds. -/
def drainBits (base : Nat) : Nat → Nat → σ → Except ε σ
  | 0, _, s => .ok s
  | fuel + 1, ready, s =>
    if ready = 0 then .ok s
    else do
      let s ← flush s (base + trailingZeros ready)
      drainBits base fuel (ready &&& (ready - 1)) s

/-- A word is taken before any of it is flushed. -/
def drainWords : Nat → List Nat → σ → Except ε σ × List Nat
  | _, [], s => (.ok s, [])
  | wordIdx, ready :: words, s =>
    let done :=
      if ready = 2 ^ 64 - 1 then (List.range' (wordIdx * 64) 64).foldlM flush s
      else drainBits flush (wordIdx * 64) 64 ready s
    match done with
    | .error e => (.error e, 0 :: words)
    | .ok s =>
      let (r, words) := drainWords (wordIdx + 1) words s
      (r, 0 :: words)

def drain (p : PendingFlush) (s : σ) : Except ε σ × PendingFlush :=
  let (r, words) := drainWords flush 0 p.words s
  (r, ⟨words⟩)

end PendingFlush

/-! ## One word -/

/-- Clearing the lowest bit clears nothing else. -/
theorem testBit_and_pred : ∀ {k word : Nat}, word.testBit k = true →
    (∀ j < k, word.testBit j = false) → ∀ i,
      (word &&& (word - 1)).testBit i = (word.testBit i && i != k)
  | 0, word, hk, _, i => by
    rw [Nat.testBit_zero, decide_eq_true_eq] at hk
    rw [Nat.testBit_and]
    cases i with
    | zero =>
      have heven : (word - 1) % 2 = 0 := by omega
      simp [Nat.testBit_zero, heven]
    | succ i =>
      have hhalf : (word - 1) / 2 = word / 2 := by omega
      simp [Nat.testBit_succ, hhalf]
  | k + 1, word, hk, hlow, i => by
    have heven : word % 2 = 0 := by simpa [Nat.testBit_zero] using hlow 0 (Nat.succ_pos k)
    rw [Nat.testBit_succ] at hk
    rw [Nat.testBit_and]
    cases i with
    | zero => simp [Nat.testBit_zero, heven]
    | succ i =>
      have hhalf : (word - 1) / 2 = word / 2 - 1 := by omega
      have ih := testBit_and_pred hk
        (fun j hj => by simpa [Nat.testBit_succ] using hlow (j + 1) (Nat.succ_lt_succ hj)) i
      simpa [Nat.testBit_succ, hhalf] using ih

/-- The first element a filter keeps, and the rest. -/
theorem filter_eq_cons {α : Type} [DecidableEq α] {p : α → Bool} {a : α} :
    ∀ {l : List α}, l.Nodup → l.find? p = some a →
      l.filter p = a :: l.filter fun x => p x && x != a
  | x :: l, hd, hf => by
    obtain ⟨hx, hl⟩ := List.nodup_cons.mp hd
    cases hp : p x with
    | true =>
      simp only [List.find?_cons, hp, Option.some.injEq] at hf
      subst hf
      have hrest : (l.filter fun y => p y && y != x) = l.filter p := by
        refine List.filter_congr fun y hy => ?_
        simp [show y ≠ x from fun h => hx (h ▸ hy)]
      simp [hp, hrest]
    | false =>
      simp only [List.find?_cons, hp] at hf
      simp [hp, filter_eq_cons hl hf]

namespace PendingFlush

/-- The bits of a word that are set. -/
def bits (word : Nat) : List Nat := (List.range 64).filter word.testBit

theorem bits_eq_cons {word : Nat} (hne : word ≠ 0) (hlt : word < 2 ^ 64) :
    bits word = trailingZeros word :: bits (word &&& (word - 1)) := by
  obtain ⟨i, hi⟩ := Nat.exists_testBit_of_ne_zero hne
  have hrange : i < 64 := by
    by_contra hge
    have hbound := Nat.lt_of_lt_of_le hlt (Nat.pow_le_pow_right (n := 2) (by decide)
      (Nat.not_lt.mp hge))
    simp [Nat.testBit_lt_two_pow hbound] at hi
  cases hfind : (List.range 64).find? word.testBit with
  | none => exact absurd hi (List.find?_eq_none.mp hfind i (List.mem_range.mpr hrange))
  | some k =>
    have hlow : ∀ j < k, word.testBit j = false := by
      intro j hj
      simpa using (List.find?_range_eq_some.mp hfind).2.2 j hj
    have hclear := testBit_and_pred (List.find?_some hfind) hlow
    rw [bits, filter_eq_cons List.nodup_range hfind, trailingZeros, hfind, bits]
    exact congrArg (k :: ·) (List.filter_congr fun x _ => (hclear x).symm)

variable {σ ε : Type} (flush : σ → Nat → Except ε σ)

/-- The loop over the lowest bits visits the bits that are set. -/
theorem drainBits_eq (base : Nat) : ∀ (fuel : Nat) {word : Nat} (s : σ), word < 2 ^ 64 →
    (bits word).length ≤ fuel →
      drainBits flush base fuel word s = ((bits word).map (base + ·)).foldlM flush s
  | 0, word, s, _, hlen => by
    rw [List.eq_nil_of_length_eq_zero (Nat.le_zero.mp hlen)]
    rfl
  | fuel + 1, word, s, hlt, hlen => by
    rw [drainBits]
    split
    · rename_i hzero
      subst hzero
      have hnil : bits 0 = [] := by decide
      rfl
    · rename_i hne
      rw [bits_eq_cons hne hlt] at hlen ⊢
      have hrest := fun s => drainBits_eq base fuel s (Nat.lt_of_le_of_lt Nat.and_le_left hlt)
        (Nat.le_of_succ_le_succ hlen)
      simp [hrest]

/-! ## All words -/

/-- Slot `i` is marked. -/
def has (words : List Nat) (i : Nat) : Bool := (words[i / 64]?.getD 0).testBit (i % 64)

/-- The marked slots from the word `wordIdx` on, in order. -/
def marked (wordIdx : Nat) : List Nat → List Nat
  | [] => []
  | word :: words => (bits word).map (wordIdx * 64 + ·) ++ marked (wordIdx + 1) words

/-- A word that is full and one that is not are walked alike. -/
theorem drainWord_eq (base : Nat) {word : Nat} (hlt : word < 2 ^ 64) (s : σ) :
    (if word = 2 ^ 64 - 1 then (List.range' base 64).foldlM flush s
      else drainBits flush base 64 word s) = ((bits word).map (base + ·)).foldlM flush s := by
  split
  · rename_i hfull
    have hall : bits word = List.range 64 := by
      rw [hfull]
      exact List.filter_eq_self.mpr fun i hi => by
        rw [Nat.testBit_two_pow_sub_one]
        exact decide_eq_true (List.mem_range.mp hi)
    rw [hall, List.range'_eq_map_range]
  · exact drainBits_eq flush base 64 s hlt
      (Nat.le_trans (List.length_filter_le _ _) (Nat.le_of_eq List.length_range))

theorem drainWords_eq : ∀ (wordIdx : Nat) {words : List Nat} (s : σ), (∀ w ∈ words, w < 2 ^ 64) →
    (drainWords flush wordIdx words s).1 = (marked wordIdx words).foldlM flush s ∧
      ∀ s', (drainWords flush wordIdx words s).1 = .ok s' →
        (drainWords flush wordIdx words s).2 = List.replicate words.length 0
  | _, [], s, _ => ⟨rfl, fun _ _ => rfl⟩
  | wordIdx, word :: words, s, h => by
    rw [List.forall_mem_cons] at h
    simp only [drainWords, drainWord_eq flush _ h.1, marked, List.foldlM_append]
    cases ((bits word).map (wordIdx * 64 + ·)).foldlM flush s with
    | error e => exact ⟨rfl, fun _ hs => by cases hs⟩
    | ok s₁ =>
      obtain ⟨hrun, hempty⟩ := drainWords_eq (wordIdx + 1) s₁ h.2
      exact ⟨hrun, fun s' hs => congrArg (0 :: ·) (hempty s' hs)⟩

theorem marked_eq : ∀ (wordIdx : Nat) (words : List Nat),
    marked wordIdx words = (List.range' (wordIdx * 64) (words.length * 64)).filter fun i =>
      has words (i - wordIdx * 64)
  | _, [] => by simp [marked]
  | wordIdx, word :: words => by
    have hsplit : List.range' (wordIdx * 64) ((word :: words).length * 64) =
        (List.range 64).map (wordIdx * 64 + ·) ++
          List.range' ((wordIdx + 1) * 64) (words.length * 64) := by
      rw [← List.range'_eq_map_range, Nat.succ_mul wordIdx, List.length_cons, Nat.succ_mul,
        Nat.add_comm (words.length * 64), ← List.range'_append_1]
    rw [marked, hsplit, List.filter_append, List.filter_map, marked_eq]
    congr 1
    · refine congrArg (List.map _) (List.filter_congr fun i hi => ?_)
      have hlt := List.mem_range.mp hi
      simp [has, Nat.div_eq_of_lt hlt, Nat.mod_eq_of_lt hlt]
    · refine List.filter_congr fun i hi => ?_
      have hge := (List.mem_range'_1.mp hi).1
      have hindex : (i - wordIdx * 64) / 64 = (i - (wordIdx + 1) * 64) / 64 + 1 := by omega
      have hbit : (i - wordIdx * 64) % 64 = (i - (wordIdx + 1) * 64) % 64 := by omega
      simp [has, hindex, hbit]

theorem has_mark {words : List Nat} {word i : Nat} (hw : words[i / 64]? = some word) (j : Nat) :
    has (words.set (i / 64) (word ||| 1 <<< (i % 64))) j = (has words j || decide (j = i)) := by
  unfold has
  rw [List.getElem?_set]
  split
  · rename_i hindex
    have hlt : i / 64 < words.length := (List.getElem?_eq_some_iff.mp hw).1
    rw [if_pos hlt, ← hindex, hw, Nat.one_shiftLeft]
    have hsame : (i % 64 = j % 64) = (j = i) := by
      rw [eq_iff_iff]
      constructor <;> omega
    simp [Nat.testBit_or, Nat.testBit_two_pow, hsame]
  · rename_i hindex
    simp [show j ≠ i from fun h => hindex (h ▸ rfl)]

/-! ## Marking and draining -/

/-- After marks and drains that succeeded: the set, and what was marked since the last drain. -/
inductive After (connections : Nat) : List Nat → PendingFlush → Prop
  | new : After connections [] (.new connections)
  | mark {since : List Nat} {p p' : PendingFlush} {i : Nat} (hi : i < connections)
      (hm : p.mark i = some p') : After connections since p → After connections (i :: since) p'
  | drain {since : List Nat} {p : PendingFlush} {σ ε : Type} {flush : σ → Nat → Except ε σ}
      {s s' : σ} (hd : (p.drain flush s).1 = .ok s') :
      After connections since p → After connections [] (p.drain flush s).2

/-- The words are `u64`s, one for each 64 slots, and their bits are the marks. -/
structure Holds (connections : Nat) (since : List Nat) (p : PendingFlush) : Prop where
  length : p.words.length = (connections + 63) / 64
  word : ∀ w ∈ p.words, w < 2 ^ 64
  below : ∀ i ∈ since, i < connections
  has : ∀ i, has p.words i = decide (i ∈ since)

variable {connections : Nat} {since : List Nat} {p : PendingFlush}

theorem Holds.new (connections : Nat) : Holds connections [] (.new connections) where
  length := List.length_replicate
  word w hw := by
    rw [List.eq_of_mem_replicate hw]
    decide
  below _ hi := absurd hi List.not_mem_nil
  has i := by
    rw [PendingFlush.has, PendingFlush.new, List.getElem?_replicate]
    split <;> simp

theorem Holds.drain (h : Holds connections since p) (s : σ) :
    (p.drain flush s).1 = ((List.range connections).filter fun i => i ∈ since).foldlM flush s ∧
      ∀ s', (p.drain flush s).1 = .ok s' → (p.drain flush s).2 = .new connections := by
  obtain ⟨hrun, hempty⟩ := drainWords_eq flush 0 s h.word
  refine ⟨hrun.trans (congrArg (List.foldlM flush s) ?_), fun s' hs => ?_⟩
  · have hlen : connections ≤ p.words.length * 64 := by
      rw [h.length]
      omega
    -- no slot beyond the connections is marked
    have hbeyond : ((List.range (p.words.length * 64 - connections)).map (connections + ·)).filter
        (fun i => decide (i ∈ since)) = [] := by
      refine List.filter_eq_nil_iff.mpr fun i hi => ?_
      obtain ⟨j, -, rfl⟩ := List.mem_map.mp hi
      have := h.below (connections + j)
      simpa using fun hmem => absurd (this hmem) (by omega)
    rw [marked_eq]
    simp only [Nat.zero_mul, Nat.sub_zero, h.has, ← List.range_eq_range']
    rw [← Nat.add_sub_cancel' hlen, List.range_add, List.filter_append, hbeyond, List.append_nil]
  · exact congrArg PendingFlush.mk ((hempty s' hs).trans (by rw [h.length]))

theorem Holds.mark (h : Holds connections since p) {i : Nat} (hi : i < connections) :
    ∃ p', p.mark i = some p' ∧ Holds connections (i :: since) p' := by
  have hlt : i / 64 < p.words.length := by
    rw [h.length]
    omega
  have hw : p.words[i / 64]? = some p.words[i / 64] := List.getElem?_eq_getElem hlt
  refine ⟨_, by rw [PendingFlush.mark, hw], by rw [List.length_set]; exact h.length,
    fun w hmem => ?_, List.forall_mem_cons.mpr ⟨hi, h.below⟩, fun j => ?_⟩
  · rcases List.mem_or_eq_of_mem_set hmem with hold | rfl
    · exact h.word w hold
    · have hbit : 1 <<< (i % 64) < 2 ^ 64 := by
        rw [Nat.one_shiftLeft]
        exact Nat.pow_lt_pow_right (by decide) (Nat.mod_lt _ (by decide))
      exact Nat.or_lt_two_pow (h.word _ (List.getElem_mem hlt)) hbit
  · rw [has_mark hw, h.has]
    simp [Bool.or_comm]

theorem After.holds (h : After connections since p) : Holds connections since p := by
  induction h with
  | new => exact Holds.new _
  | mark hi hm _ ih =>
    obtain ⟨p', hp', hholds⟩ := ih.mark hi
    cases hp'.symm.trans hm
    exact hholds
  | drain hd _ ih =>
    rw [(ih.drain _ _).2 _ hd]
    exact Holds.new _

/-- **A drain flushes what was marked.** After any marks and drains, for any number of
connections: marking a connection does not panic; a drain calls `flush` on the slots marked since
the last one, each once and in ascending order, and on no other; and one whose calls all succeed
leaves the set as it was made. -/
theorem drains_exactly_marked (h : After connections since p) (s : σ) :
    (∀ i < connections, (p.mark i).isSome = true) ∧
      (p.drain flush s).1 = ((List.range connections).filter fun i => i ∈ since).foldlM flush s ∧
      ∀ s', (p.drain flush s).1 = .ok s' → (p.drain flush s).2 = .new connections := by
  refine ⟨fun i hi => ?_, h.holds.drain flush s⟩
  obtain ⟨p', hp', -⟩ := h.holds.mark hi
  rw [hp']
  rfl

/-- Of 70 connections two are marked, the later one first and twice. -/
def threeMarks : PendingFlush := ⟨[2 ^ 3, 2]⟩

theorem drains_exactly_marked_two :
    (threeMarks.drain (fun log i => (.ok (log ++ [i]) : Except Unit (List Nat))) []).1 =
      .ok [3, 65] := by
  have h : After 70 [65, 3, 65] threeMarks := by
    refine .mark (p := threeMarks) (by decide) (by decide) ?_
    exact .mark (p := ⟨[0, 2]⟩) (by decide) (by decide) (.mark (by decide) (by decide) .new)
  exact (drains_exactly_marked _ h []).2.1

end PendingFlush

end Shb.Http2
