import Mathlib.Algebra.Group.Defs

/-!
# Machines that read one symbol at a time

A machine takes a symbol in a state and either fails or answers a *count* and a new state.
`consume` feeds it a sequence, adding up the counts; a failure carries the state the failing
symbol was read in. **Consuming `xs ++ ys` is consuming `xs` and then `ys`**, so a reader
that agrees with such a machine cannot depend on how its input was cut into pieces.
-/

namespace Shb.Lib

variable {σ β ε ω : Type} [AddMonoid ω]

/-- Continue with `f` from where `x` stopped, adding the counts. -/
def chain (x : Except (ε × σ) (ω × σ)) (f : σ → Except (ε × σ) (ω × σ)) : Except (ε × σ) (ω × σ) :=
  match x with
  | .error e => .error e
  | .ok (n, s) =>
    match f s with
    | .error e => .error e
    | .ok (m, s') => .ok (n + m, s')

@[simp] theorem chain_error (e : ε × σ) (f : σ → Except (ε × σ) (ω × σ)) :
    chain (.error e) f = .error e := rfl

@[simp] theorem chain_zero (s : σ) (f : σ → Except (ε × σ) (ω × σ)) :
    chain (.ok (0, s)) f = f s := by
  cases h : f s with
  | error e => simp [chain, h]
  | ok out => simp [chain, h]

theorem chain_ok_ok {n m : ω} {s s' : σ} {f : σ → Except (ε × σ) (ω × σ)}
    (h : f s = .ok (m, s')) : chain (.ok (n, s)) f = .ok (n + m, s') := by
  simp [chain, h]

theorem chain_ok_error {n : ω} {s : σ} {e : ε × σ} {f : σ → Except (ε × σ) (ω × σ)}
    (h : f s = .error e) : chain (.ok (n, s)) f = .error e := by
  simp [chain, h]

theorem chain_assoc (x : Except (ε × σ) (ω × σ)) (f g : σ → Except (ε × σ) (ω × σ)) :
    chain (chain x f) g = chain x fun s => chain (f s) g := by
  cases x with
  | error e => rfl
  | ok out =>
    obtain ⟨n, s⟩ := out
    cases hf : f s with
    | error e => simp [chain, hf]
    | ok out =>
      obtain ⟨m, s'⟩ := out
      cases hg : g s' with
      | error e => simp [chain, hf, hg]
      | ok out => simp [chain, hf, hg, add_assoc]

/-- Feed a sequence to the machine. -/
def consume (step : σ → β → Except ε (ω × σ)) : σ → List β → Except (ε × σ) (ω × σ)
  | s, [] => .ok (0, s)
  | s, b :: bs =>
    match step s b with
    | .error e => .error (e, s)
    | .ok (n, s') => chain (.ok (n, s')) fun s => consume step s bs

@[simp] theorem consume_nil (step : σ → β → Except ε (ω × σ)) (s : σ) :
    consume step s [] = .ok (0, s) := rfl

theorem consume_cons_ok {step : σ → β → Except ε (ω × σ)} {s s' : σ} {b : β} {n : ω}
    (h : step s b = .ok (n, s')) (bs : List β) :
    consume step s (b :: bs) = chain (.ok (n, s')) fun s => consume step s bs := by
  simp [consume, h]

theorem consume_cons_error {step : σ → β → Except ε (ω × σ)} {s : σ} {b : β} {e : ε}
    (h : step s b = .error e) (bs : List β) : consume step s (b :: bs) = .error (e, s) := by
  simp [consume, h]

theorem consume_append (step : σ → β → Except ε (ω × σ)) (s : σ) (xs ys : List β) :
    consume step s (xs ++ ys) = chain (consume step s xs) fun s => consume step s ys := by
  induction xs generalizing s with
  | nil => simp
  | cons b bs ih =>
    cases h : step s b with
    | error e => rw [List.cons_append, consume_cons_error h, consume_cons_error h, chain_error]
    | ok out =>
      rw [List.cons_append, consume_cons_ok h, consume_cons_ok h, chain_assoc]
      simp only [ih]

/-- Feed a sequence of sequences, one after another. -/
def consumeAll (step : σ → β → Except ε (ω × σ)) : σ → List (List β) → Except (ε × σ) (ω × σ)
  | s, [] => .ok (0, s)
  | s, seg :: segs => chain (consume step s seg) fun s => consumeAll step s segs

/-- How the input is cut makes no difference. -/
theorem consumeAll_eq (step : σ → β → Except ε (ω × σ)) (s : σ) (segs : List (List β)) :
    consumeAll step s segs = consume step s segs.flatten := by
  induction segs generalizing s with
  | nil => rfl
  | cons seg segs ih =>
    rw [List.flatten_cons, consume_append]
    simp only [consumeAll, ih]

end Shb.Lib
