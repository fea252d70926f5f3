import Mathlib.Tactic.Common

/-!
# Runs

A system takes one labelled step after another. A property that every step keeps holds after every
run, and so does one that also speaks of the labels passed so far.
-/

variable {σ ε : Type}

/-- The steps labelled `es` lead from one state to another. -/
inductive Run (step : σ → ε → σ → Prop) : σ → List ε → σ → Prop where
  | nil (s : σ) : Run step s [] s
  | cons {s s' s'' : σ} {e : ε} {es : List ε} (h : step s e s') (r : Run step s' es s'') :
    Run step s (e :: es) s''

namespace Run

variable {step : σ → ε → σ → Prop} {s s' s'' : σ} {e : ε} {es es' : List ε}

theorem append (r : Run step s es s') (r' : Run step s' es' s'') : Run step s (es ++ es') s'' := by
  induction r with
  | nil => exact r'
  | cons h _ ih => exact cons h (ih r')

theorem split (r : Run step s (es ++ es') s'') : ∃ s', Run step s es s' ∧ Run step s' es' s'' := by
  induction es generalizing s with
  | nil => exact ⟨s, nil s, r⟩
  | cons e es ih =>
    cases r with
    | cons h r =>
      obtain ⟨s', r₁, r₂⟩ := ih r
      exact ⟨s', cons h r₁, r₂⟩

theorem mono {step' : σ → ε → σ → Prop} (r : Run step s es s')
    (h : ∀ s e s', step s e s' → step' s e s') : Run step' s es s' := by
  induction r with
  | nil s => exact nil s
  | cons hstep _ ih => exact cons (h _ _ _ hstep) ih

theorem single (h : step s e s') : Run step s [e] s' := cons h (nil s')

theorem eq_of_nil (r : Run step s [] s') : s = s' := by
  cases r with
  | nil => rfl

theorem of_single (r : Run step s [e] s') : step s e s' := by
  cases r with
  | cons h r => exact eq_of_nil r ▸ h

/-- A run of one system is one of another, when each of its steps is. -/
theorem simulate {σ' ε' : Type} {step' : σ' → ε' → σ' → Prop} {g : σ → σ'} {f : ε → List ε'}
    (h : ∀ s e s', step s e s' → Run step' (g s) (f e) (g s')) (r : Run step s es s') :
    Run step' (g s) (es.flatMap f) (g s') := by
  induction r with
  | nil s => exact nil (g s)
  | cons hstep _ ih => exact (h _ _ _ hstep).append ih

/-- A property of the labels passed so far and of the state, kept by every step of the run. -/
theorem history {I : List ε → σ → Prop} (r : Run step s es s') (start : I [] s)
    (keep : ∀ passed s e s', e ∈ es → I passed s → step s e s' → I (passed ++ [e]) s') : I es s' := by
  have go : ∀ passed, I passed s → I (passed ++ es) s' := by
    clear start
    induction r with
    | nil => intro passed h; simpa using h
    | @cons s₁ s₂ s₃ e es h _ ih =>
      intro passed hpassed
      have hnext := keep passed s₁ e s₂ (by simp) hpassed h
      simpa using ih (fun p s e' s' he => keep p s e' s' (List.mem_cons_of_mem _ he)) _ hnext
  simpa using go [] start

/-- A property of the state, kept by every step whose label is one of the run's. -/
theorem invariant {I : σ → Prop} (r : Run step s es s') (start : I s)
    (keep : ∀ s e s', e ∈ es → I s → step s e s' → I s') : I s' := by
  induction r with
  | nil => exact start
  | cons h _ ih =>
    exact ih (keep _ _ _ (by simp) start h) fun s e s' he => keep s e s' (List.mem_cons_of_mem _ he)

end Run
