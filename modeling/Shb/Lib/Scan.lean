/-!
# Scanners that carry over what they cannot use yet

A scanner looks at what it has of a stream and either waits for more, fails, or takes some of it
and goes on. What it decides on some of the stream it must decide on any more of it; that is the
one thing it has to promise, and with it **a stream read in pieces is read as a whole**
(`feedPieces_scans`): what a reader makes of the pieces, one after another, with the rest of each
put
before the next, is what the scanner makes of them all at once.

`Scans` is the run to the end, a relation: it says where the scanner stops and what is left.

The last part is about a loop over the items of a buffer that is after one of them: what is before
it is passed over, and what is behind it makes no difference.
-/

namespace Shb.Lib

/-- What a scanner does with what it has. -/
inductive Act (σ ε : Type) where
  | wait
  | fail (e : ε)
  | take (n : Nat) (s : σ)

/-- A scanner takes at least one symbol when it takes any, and more of the stream changes nothing
it has decided. -/
structure Scanner (σ β ε : Type) where
  act : σ → List β → Act σ ε
  fits {s t : σ} {buf : List β} {n : Nat} : act s buf = .take n t → 0 < n ∧ n ≤ buf.length
  more_take {s t : σ} {buf : List β} {n : Nat} (more : List β) :
    act s buf = .take n t → act s (buf ++ more) = .take n t
  more_fail {s : σ} {buf : List β} {e : ε} (more : List β) :
    act s buf = .fail e → act s (buf ++ more) = .fail e

/-- It is enough that what is decided, if anything is, stays decided. -/
def Scanner.ofCases {σ β ε : Type} (act : σ → List β → Act σ ε) (h : ∀ s buf, act s buf = .wait ∨
      ((∃ e, act s buf = .fail e) ∨ ∃ n t, 0 < n ∧ n ≤ buf.length ∧ act s buf = .take n t) ∧
        ∀ more, act s (buf ++ more) = act s buf) : Scanner σ β ε where
  act := act
  fits {s t buf n} htake := by
    rcases h s buf with hw | ⟨⟨e, hf⟩ | ⟨n', t', hpos, hle, ht⟩, -⟩
    · exact nomatch hw.symm.trans htake
    · exact nomatch hf.symm.trans htake
    · cases ht.symm.trans htake
      exact ⟨hpos, hle⟩
  more_take {s t buf n} more htake := by
    rcases h s buf with hw | ⟨-, hmore⟩
    · exact nomatch hw.symm.trans htake
    · rw [hmore more, htake]
  more_fail {s buf e} more hfail := by
    rcases h s buf with hw | ⟨-, hmore⟩
    · exact nomatch hw.symm.trans hfail
    · rw [hmore more, hfail]

variable {σ β ε ρ : Type} {m : Scanner σ β ε} {s t : σ} {buf rest more : List β}
  {out out' : Except ε (σ × List β)}

/-- From `s` on `buf`, until it waits or fails. -/
inductive Scans (m : Scanner σ β ε) : σ → List β → Except ε (σ × List β) → Prop
  | wait {s : σ} {buf : List β} : m.act s buf = .wait → Scans m s buf (.ok (s, buf))
  | fail {s : σ} {buf : List β} {e : ε} : m.act s buf = .fail e → Scans m s buf (.error e)
  | take {s t : σ} {buf : List β} {n : Nat} {out : Except ε (σ × List β)} :
    m.act s buf = .take n t → Scans m t (buf.drop n) out → Scans m s buf out

namespace Scans

/-- A scanner has one outcome. -/
theorem unique (h : Scans m s buf out) (h' : Scans m s buf out') : out = out' := by
  induction h with
  | wait hw =>
    cases h' with
    | wait => rfl
    | fail hf => exact nomatch hw.symm.trans hf
    | take ht => exact nomatch hw.symm.trans ht
  | fail hf =>
    cases h' with
    | wait hw => exact nomatch hf.symm.trans hw
    | fail hf' => cases hf.symm.trans hf'; rfl
    | take ht => exact nomatch hf.symm.trans ht
  | take ht _ ih =>
    cases h' with
    | wait hw => exact nomatch ht.symm.trans hw
    | fail hf => exact nomatch ht.symm.trans hf
    | take ht' h' => cases ht.symm.trans ht'; exact ih h'

/-- Where it stops, it waits. -/
theorem waits (h : Scans m s buf (.ok (t, rest))) : m.act t rest = .wait := by
  generalize hout : (Except.ok (t, rest) : Except ε (σ × List β)) = out at h
  induction h with
  | wait hw => cases hout; exact hw
  | fail => cases hout
  | take _ _ ih => exact ih hout

/-- More of the stream is read from where the scanner stopped. -/
theorem append (h : Scans m s buf (.ok (t, rest))) (hmore : Scans m t (rest ++ more) out) :
    Scans m s (buf ++ more) out := by
  generalize hout : (Except.ok (t, rest) : Except ε (σ × List β)) = first at h
  induction h with
  | wait => cases hout; exact hmore
  | fail => cases hout
  | take ht _ ih =>
    refine .take (m.more_take more ht) ?_
    rw [List.drop_append_of_le_length (m.fits ht).2]
    exact ih hout

/-- A stream that fails fails whatever follows. -/
theorem append_error {e : ε} (h : Scans m s buf (.error e)) :
    Scans m s (buf ++ more) (.error e) := by
  generalize hout : (Except.error e : Except ε (σ × List β)) = first at h
  induction h with
  | wait => cases hout
  | fail hf => cases hout; exact .fail (m.more_fail more hf)
  | take ht _ ih =>
    refine .take (m.more_take more ht) ?_
    rw [List.drop_append_of_le_length (m.fits ht).2]
    exact ih hout

end Scans

/-! ## Readers -/

/-- Feed a reader one piece after another, up to the first it fails on. -/
def feedPieces (feed : ρ → List β → Except ε Unit × ρ) : ρ → List (List β) → Except ε Unit × ρ
  | r, [] => (.ok (), r)
  | r, seg :: segs =>
    match feed r seg with
    | (.error e, r) => (.error e, r)
    | (.ok (), r) => feedPieces feed r segs

/-- What is seen of a reader that has been fed: the scanner's state and what is carried over. -/
def outcome (view : ρ → σ × List β) : Except ε Unit × ρ → Except ε (σ × List β)
  | (.error e, _) => .error e
  | (.ok (), r) => .ok (view r)

/-- A reader that puts what it carries before what it is fed, and scans. -/
def Tracks (m : Scanner σ β ε) (feed : ρ → List β → Except ε Unit × ρ) (view : ρ → σ × List β) :
    Prop :=
  ∀ r data, Scans m (view r).1 ((view r).2 ++ data) (outcome view (feed r data))

variable {feed : ρ → List β → Except ε Unit × ρ} {view : ρ → σ × List β} {r : ρ}

/-- **In pieces as a whole.** -/
theorem Tracks.feedPieces_scans (h : Tracks m feed view) :
    ∀ {r : ρ} (segs : List (List β)), m.act (view r).1 (view r).2 = .wait →
      Scans m (view r).1 ((view r).2 ++ segs.flatten) (outcome view (feedPieces feed r segs))
  | r, [], hwait => by
    rw [List.flatten_nil, List.append_nil]
    exact .wait hwait
  | r, seg :: segs, _ => by
    have hfirst := h r seg
    rw [List.flatten_cons, ← List.append_assoc]
    simp only [feedPieces]
    cases hfeed : feed r seg with
    | mk verdict r' =>
      rw [hfeed] at hfirst
      cases verdict with
      | error e => exact hfirst.append_error
      | ok u => exact hfirst.append (h.feedPieces_scans segs hfirst.waits)

/-- However the stream is cut, the reader fails alike or stops alike. -/
theorem Tracks.feedPieces_eq (h : Tracks m feed view) (hview : ∀ r r', view r = view r' → r = r')
    (segs : List (List β)) (hwait : m.act (view r).1 (view r).2 = .wait) :
    (feedPieces feed r segs).1 = (feed r segs.flatten).1 ∧
      ((feed r segs.flatten).1 = .ok () → (feedPieces feed r segs).2 =
        (feed r segs.flatten).2) := by
  have heq := (h.feedPieces_scans segs hwait).unique (h r segs.flatten)
  generalize feedPieces feed r segs = pieces at heq
  generalize feed r segs.flatten = whole at heq
  obtain ⟨verdict, r₁⟩ := pieces
  obtain ⟨verdict', r₂⟩ := whole
  cases verdict with
  | error e =>
    cases verdict' with
    | error e' =>
      cases heq
      exact ⟨rfl, fun hok => nomatch hok⟩
    | ok u => exact nomatch heq
  | ok u =>
    cases verdict' with
    | error e' => exact nomatch heq
    | ok u' => exact ⟨rfl, fun _ => hview r₁ r₂ (Except.ok.inj heq)⟩

/-! ## A loop after one item -/

section FirstHit

variable {α : Type} {step : β → List β → Except ε (Option α × List β)}

/-- Items one after another, up to the first that says something. `step` is told the first symbol
of an item beside the buffer. -/
def firstHit (step : β → List β → Except ε (Option α × List β)) : Nat → List β → Except ε (Option α)
  | _, [] => .ok none
  | 0, _ => .ok none
  | fuel + 1, b :: rest =>
    match step b (b :: rest) with
    | .error e => .error e
    | .ok (some a, _) => .ok (some a)
    | .ok (none, rest) => firstHit step fuel rest

/-- An item that says nothing, whatever is behind it. -/
def Passes (step : β → List β → Except ε (Option α × List β)) (item : List β) : Prop :=
  ∃ b tail, item = b :: tail ∧ ∀ rest, step b (item ++ rest) = .ok (none, rest)

/-- What is passed over leaves the loop what is behind it. -/
theorem firstHit_passes {rest : List β} : ∀ {items : List (List β)} {fuel : Nat},
    (∀ item ∈ items, Passes step item) → (items.flatten ++ rest).length ≤ fuel →
      ∃ fuel', rest.length ≤ fuel' ∧
        firstHit step fuel (items.flatten ++ rest) = firstHit step fuel' rest
  | [], fuel, _, hfuel => ⟨fuel, hfuel, rfl⟩
  | item :: items, fuel, h, hfuel => by
    obtain ⟨b, tail, hitem, hstep⟩ := h item List.mem_cons_self
    have hthis := hstep (items.flatten ++ rest)
    rw [List.flatten_cons, List.append_assoc] at hfuel ⊢
    rw [hitem, List.cons_append] at hthis hfuel ⊢
    cases fuel with
    | zero => exact absurd hfuel (Nat.not_succ_le_zero _)
    | succ fuel =>
      have hless : (items.flatten ++ rest).length ≤ fuel := by
        rw [List.length_cons, List.length_append] at hfuel
        omega
      obtain ⟨fuel', hle, heq⟩ := firstHit_passes
        (fun item' hmem => h item' (List.mem_cons_of_mem _ hmem)) hless
      refine ⟨fuel', hle, ?_⟩
      rw [← heq]
      simp only [firstHit, hthis]

/-- Where every item is passed over, nothing is found. -/
theorem firstHit_none {items : List (List β)} (h : ∀ item ∈ items, Passes step item) :
    firstHit step items.flatten.length items.flatten = .ok none := by
  have hfuel : (items.flatten ++ []).length ≤ items.flatten.length :=
    Nat.le_of_eq (congrArg List.length (List.append_nil _))
  obtain ⟨fuel, -, heq⟩ := firstHit_passes h hfuel
  rw [List.append_nil] at heq
  rw [heq]
  cases fuel <;> rfl

/-- The first item that is not passed over decides. -/
theorem firstHit_first {before : List (List β)} {item : List β} {b : β} {tail : List β}
    (h : ∀ item ∈ before, Passes step item) (hitem : item = b :: tail) (after : List (List β)) :
    (∀ {a : α} {left : List β}, step b (item ++ after.flatten) = .ok (some a, left) →
        firstHit step (before ++ item :: after).flatten.length (before ++ item :: after).flatten =
          .ok (some a)) ∧
      ∀ {e : ε}, step b (item ++ after.flatten) = .error e →
        firstHit step (before ++ item :: after).flatten.length (before ++ item :: after).flatten =
          .error e := by
  have hflat : (before ++ item :: after).flatten =
      before.flatten ++ (item ++ after.flatten) := by
    rw [List.flatten_append, List.flatten_cons]
  rw [hflat]
  obtain ⟨fuel, hfuel, heq⟩ := firstHit_passes h (Nat.le_refl _)
  rw [heq]
  subst hitem
  rw [List.cons_append] at hfuel ⊢
  cases fuel with
  | zero => exact absurd hfuel (Nat.not_succ_le_zero _)
  | succ fuel =>
    constructor
    · intro a left hstep
      simp only [firstHit, hstep]
    · intro e hstep
      simp only [firstHit, hstep]

end FirstHit

end Shb.Lib
