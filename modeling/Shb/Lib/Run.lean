/-!
# Runs of a partial step function

A machine is a type of states and a `step` that may refuse an event. A run is a list of
events none of which is refused; an invariant is proved of one step and holds of the run.
Where a property needs something of the events, `Meets` says that every step of the run
satisfies it *in the state it is taken in*.

The second half is about a labelled step *relation*: `Steps A s t` says that `t` is reached
from `s` by steps whose labels `A` allows. What a function of a large state can do is said
that way once, and every invariant of the steps is one of the function.

The third part is about a step that also *answers*: two machines are compared by what they
reply to the same events.
-/

namespace Shb.Lib

variable {σ ε : Type}

/-- The state a list of events leads to, if none of them is refused. -/
def run (step : σ → ε → Option σ) : σ → List ε → Option σ
  | s, [] => some s
  | s, e :: es =>
    match step s e with
    | none => none
    | some s' => run step s' es

/-- Every step of the run meets `cond` in the state it is taken in. -/
def Meets (step : σ → ε → Option σ) (cond : σ → ε → Prop) : σ → List ε → Prop
  | _, [] => True
  | s, e :: es => cond s e ∧ ∀ s', step s e = some s' → Meets step cond s' es

/-- On a given run it is found by running it. -/
instance Meets.decidable (step : σ → ε → Option σ) (cond : σ → ε → Prop)
    [∀ s e, Decidable (cond s e)] : ∀ (s : σ) (es : List ε), Decidable (Meets step cond s es)
  | _, [] => isTrue trivial
  | s, e :: es =>
    have := fun s' => Meets.decidable step cond s' es
    inferInstanceAs (Decidable (cond s e ∧ ∀ s' ∈ step s e, Meets step cond s' es))

theorem run_cons {step : σ → ε → Option σ} {s t : σ} {e : ε} {es : List ε}
    (h : run step s (e :: es) = some t) : ∃ s', step s e = some s' ∧ run step s' es = some t := by
  simp only [run] at h
  cases hs : step s e with
  | none => rw [hs] at h; exact absurd h (by simp)
  | some s' => rw [hs] at h; exact ⟨s', rfl, h⟩

theorem run_append {step : σ → ε → Option σ} {u : σ} {es' : List ε} :
    ∀ {es : List ε} {s t : σ}, run step s es = some t → run step t es' = some u →
      run step s (es ++ es') = some u
  | [], s, t, h, h' => by
    cases h
    exact h'
  | e :: es, s, t, h, h' => by
    obtain ⟨s', he, ht⟩ := run_cons h
    simp only [List.cons_append, run, he]
    exact run_append ht h'

/-- One step of a run, where it is known where the step leads. -/
theorem Meets.cons {step : σ → ε → Option σ} {cond : σ → ε → Prop} {s t : σ} {e : ε} {es : List ε}
    (hs : step s e = some t) (hc : cond s e) (h : Meets step cond t es) :
    Meets step cond s (e :: es) :=
  ⟨hc, fun _ hu => Option.some.inj (hs.symm.trans hu) ▸ h⟩

/-- What every step that meets the condition preserves, every run of such steps preserves. -/
theorem Meets.invariant {step : σ → ε → Option σ} {cond : σ → ε → Prop} {P : σ → Prop}
    (hstep : ∀ {s e s'}, P s → cond s e → step s e = some s' → P s') :
    ∀ {es : List ε} {s t : σ}, Meets step cond s es → P s → run step s es = some t → P t
  | [], s, t, _, hs, h => by
    simp only [run, Option.some.injEq] at h
    exact h ▸ hs
  | e :: es, s, t, hm, hs, h => by
    obtain ⟨s', he, ht⟩ := run_cons h
    exact Meets.invariant hstep (hm.2 s' he) (hstep hs hm.1 he) ht

/-- What every step preserves, every run preserves. -/
theorem run_invariant {step : σ → ε → Option σ} {P : σ → Prop}
    (hstep : ∀ {s e s'}, P s → step s e = some s' → P s') :
    ∀ {es : List ε} {s t : σ}, P s → run step s es = some t → P t
  | [], s, t, hs, h => by
    simp only [run, Option.some.injEq] at h
    exact h ▸ hs
  | e :: es, s, t, hs, h => by
    obtain ⟨s', he, ht⟩ := run_cons h
    exact run_invariant hstep (hstep hs he) ht

/-- `t` is reached from `s` by steps with labels that `A` allows. -/
inductive Steps (Step : σ → ε → σ → Prop) (A : ε → Prop) : σ → σ → Prop
  | refl (s : σ) : Steps Step A s s
  | snoc {s t u : σ} {e : ε} : Steps Step A s t → A e → Step t e u → Steps Step A s u

namespace Steps

variable {Step : σ → ε → σ → Prop} {A B : ε → Prop} {s t u : σ}

theorem single {e : ε} (ha : A e) (h : Step s e t) : Steps Step A s t := (refl s).snoc ha h

theorem trans (h₁ : Steps Step A s t) (h₂ : Steps Step A t u) : Steps Step A s u := by
  induction h₂ with
  | refl => exact h₁
  | snoc _ ha hstep ih => exact ih.snoc ha hstep

theorem mono (hAB : ∀ e, A e → B e) (h : Steps Step A s t) : Steps Step B s t := by
  induction h with
  | refl => exact refl s
  | snoc _ ha hstep ih => exact ih.snoc (hAB _ ha) hstep

/-- What every allowed step preserves, every path preserves. -/
theorem invariant {P : σ → Prop} (hstep : ∀ {s e t}, P s → A e → Step s e t → P t)
    (h : Steps Step A s t) (hs : P s) : P t := by
  induction h with
  | refl => exact hs
  | snoc _ ha hs' ih => exact hstep ih ha hs'

end Steps

/-- A relation of states that steps are put together in. -/
structure Composes (R : σ → σ → Prop) : Prop where
  refl : ∀ s, R s s
  trans : ∀ {s t u}, R s t → R t u → R s u

namespace Composes

/-- To leave a part of the state alone. -/
theorem view {τ : Type} (v : σ → τ) : Composes fun s t => v t = v s :=
  ⟨fun _ => rfl, fun h h' => h'.trans h⟩

/-- To keep a property of the state. -/
theorem keeps (P : σ → Prop) : Composes fun s t => P s → P t :=
  ⟨fun _ h => h, fun h h' hs => h' (h hs)⟩

theorem foldl {α : Type} {R : σ → σ → Prop} (hR : Composes R) {g : σ → α → σ} :
    ∀ {l : List α}, (∀ s, ∀ a ∈ l, R s (g s a)) → ∀ s, R s (l.foldl g s)
  | [], _, s => hR.refl s
  | _ :: _, h, s =>
    hR.trans (h s _ List.mem_cons_self)
      (hR.foldl (fun s a ha => h s a (List.mem_cons_of_mem _ ha)) _)

end Composes

section Answers

variable {τ ρ : Type}

/-- What the events are answered with and the state they lead to, if none is refused. -/
def answers (step : σ → ε → Option (ρ × σ)) : σ → List ε → Option (List ρ × σ)
  | s, [] => some ([], s)
  | s, e :: es =>
    match step s e with
    | none => none
    | some (r, s') => (answers step s' es).map fun p => (r :: p.1, p.2)

theorem answers_cons {step : σ → ε → Option (ρ × σ)} {s t : σ} {e : ε} {es : List ε} {rs : List ρ}
    (h : answers step s (e :: es) = some (rs, t)) :
    ∃ r s' rest, step s e = some (r, s') ∧ answers step s' es = some (rest, t) ∧
      rs = r :: rest := by
  simp only [answers] at h
  cases hs : step s e with
  | none => rw [hs] at h; exact absurd h (by simp)
  | some p =>
    obtain ⟨r, s'⟩ := p
    rw [hs] at h
    simp only [Option.map_eq_some_iff] at h
    obtain ⟨⟨rest, u⟩, hrun, hp⟩ := h
    cases hp
    exact ⟨r, s', rest, rfl, hrun, rfl⟩

/-- A step that refuses nothing. -/
def total (f : σ → ε → ρ × σ) : σ → ε → Option (ρ × σ) := fun s e => some (f s e)

theorem answers_total (f : σ → ε → ρ × σ) : ∀ (es : List ε) (s : σ),
    ∃ rs t, answers (total f) s es = some (rs, t)
  | [], s => ⟨[], s, rfl⟩
  | e :: es, s => by
    obtain ⟨rs, t, h⟩ := answers_total f es (f s e).2
    exact ⟨(f s e).1 :: rs, t, by simp only [answers, total] at h ⊢; rw [h]; rfl⟩

theorem answers_total_cons {f : σ → ε → ρ × σ} {s t : σ} {e : ε} {es : List ε} {rs : List ρ}
    (h : answers (total f) s (e :: es) = some (rs, t)) :
    ∃ rest, answers (total f) (f s e).2 es = some (rest, t) ∧ rs = (f s e).1 :: rest := by
  obtain ⟨r, s', rest, hstep, hrest, hrs⟩ := answers_cons h
  have hf : f s e = (r, s') := Option.some.inj hstep
  rw [hf]
  exact ⟨rest, hrest, hrs⟩

/-- A machine that follows each step of another, with the same answer, follows its runs. -/
theorem answers_simulation {f : σ → ε → Option (ρ × σ)} {g : τ → ε → Option (ρ × τ)}
    {R : σ → τ → Prop}
    (hstep : ∀ {s t e r t'}, R s t → g t e = some (r, t') → ∃ s', f s e = some (r, s') ∧ R s' t') :
    ∀ {es : List ε} {s : σ} {t t' : τ} {rs : List ρ}, R s t → answers g t es = some (rs, t') →
      ∃ s', answers f s es = some (rs, s') ∧ R s' t'
  | [], s, t, t', rs, hR, h => by
    obtain ⟨rfl, rfl⟩ := h
    exact ⟨s, rfl, hR⟩
  | e :: es, s, t, t', rs, hR, h => by
    obtain ⟨r, u, rest, hu, hrun, rfl⟩ := answers_cons h
    obtain ⟨s', hs', hR'⟩ := hstep hR hu
    obtain ⟨s'', hs'', hR''⟩ := answers_simulation hstep hR' hrun
    exact ⟨s'', by simp only [answers, hs', hs'', Option.map_some], hR''⟩

end Answers

end Shb.Lib
