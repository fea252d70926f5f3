import ZolanaTvc.Control.Except

/-!
# Loops

A loop of a program that may throw: its body takes one turn and says whether to go on. A loop whose
every turn brings some measure down ends, and what a turn keeps the loop keeps.
-/

namespace Except

variable {ε S R : Type}

/-- What the body of a loop leaves: the state of the next turn, or the loop's result. -/
inductive Turn (S R : Type) where
  | again (s : S)
  | done (r : R)

/-- At most `n` turns of a loop; `e` when they do not end it. -/
def loop (e : ε) (turn : S → Except ε (Turn S R)) : ℕ → S → Except ε R
  | 0, _ => .error e
  | n + 1, s => do
    match ← turn s with
    | .again s' => loop e turn n s'
    | .done r => return r

variable {e : ε} {turn turn' : S → Except ε (Turn S R)} {size : S → ℕ} {n : ℕ} {s s' : S}

theorem loop_again (h : turn s = .ok (.again s')) :
    loop e turn (n + 1) s = loop e turn n s' := by
  rw [loop, h]
  rfl

theorem loop_done {r : R} (h : turn s = .ok (.done r)) : loop e turn (n + 1) s = .ok r := by
  rw [loop, h]
  rfl

theorem loop_throw {e' : ε} (h : turn s = .error e') :
    loop e turn (n + 1) s = .error e' := by
  rw [loop, h]
  rfl

/-- What a loop throws a turn throws, unless the loop ran out. -/
theorem eq_or_exists_turn_of_loop_eq_error {e' : ε} (h : loop e turn n s = .error e') :
    e' = e ∨ ∃ s', turn s' = .error e' := by
  induction n generalizing s with
  | zero => exact .inl (Except.error.inj h).symm
  | succ n ih =>
    cases hs : turn s with
    | error e'' =>
      rw [loop_throw hs] at h
      obtain rfl := Except.error.inj h
      exact .inr ⟨s, hs⟩
    | ok t =>
      cases t with
      | again s' =>
        rw [loop_again hs] at h
        exact ih h
      | done r =>
        rw [loop_done hs] at h
        cases h
/-- Every turn that goes on brings the measure down. -/
def Decreases (turn : S → Except ε (Turn S R)) (size : S → ℕ) : Prop :=
  ∀ s s', turn s = .ok (.again s') → size s' < size s

/-- A loop's result is that of a turn, at a state no larger than the first. -/
theorem exists_turn_of_loop (hturn : Decreases turn size) {r : R}
    (h : loop e turn n s = .ok r) : ∃ s', size s' ≤ size s ∧ turn s' = .ok (.done r) := by
  induction n generalizing s with
  | zero => exact absurd h (by simp [loop])
  | succ n ih =>
    cases hs : turn s with
    | error e' => exact absurd h (by rw [loop_throw hs]; simp)
    | ok t =>
      cases t with
      | again s' =>
        rw [loop_again hs] at h
        obtain ⟨s'', hle, hdone⟩ := ih h
        exact ⟨s'', Nat.le_trans hle (Nat.le_of_lt (hturn s s' hs)), hdone⟩
      | done r' =>
        rw [loop_done hs] at h
        obtain rfl := Except.ok.inj h
        exact ⟨s, Nat.le_refl _, hs⟩

/-- A loop with turns enough ends: it runs out only where a turn throws the same. -/
theorem loop_ne_error (hturn : Decreases turn size) (hn : size s < n)
    (hthrow : ∀ s', size s' ≤ size s → turn s' ≠ .error e) : loop e turn n s ≠ .error e := by
  induction n generalizing s with
  | zero => exact absurd hn (Nat.not_lt_zero _)
  | succ n ih =>
    cases hs : turn s with
    | error e' =>
      rw [loop_throw hs]
      intro heq
      obtain rfl := Except.error.inj heq
      exact hthrow s (Nat.le_refl _) hs
    | ok t =>
      cases t with
      | again s' =>
        have hlt := hturn s s' hs
        rw [loop_again hs]
        exact ih (by omega) fun s'' hle => hthrow s'' (by omega)
      | done r =>
        rw [loop_done hs]
        simp

/-- Loops whose bodies agree on every state they come to are the same. -/
theorem loop_congr (hturn : Decreases turn size)
    (h : ∀ s', size s' ≤ size s → turn' s' = turn s') : loop e turn' n s = loop e turn n s := by
  induction n generalizing s with
  | zero => rfl
  | succ n ih =>
    have hs' := h s (Nat.le_refl _)
    cases hs : turn s with
    | error e' => rw [loop_throw hs, loop_throw (hs'.trans hs)]
    | ok t =>
      cases t with
      | again s' =>
        have hlt := hturn s s' hs
        rw [loop_again hs, loop_again (hs'.trans hs)]
        exact ih fun s'' hle => h s'' (by omega)
      | done r => rw [loop_done hs, loop_done (hs'.trans hs)]

end Except
