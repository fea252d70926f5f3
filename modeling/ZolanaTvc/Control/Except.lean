import Mathlib.Data.List.Forall2
import Mathlib.Tactic.Common

/-!
# Programs that refuse

A program in `Except ε` is a sequence of checks and calls. `refuse` is an early return, `expect` and
`orElseThrow` turn the failure of a call into the caller's.
-/

namespace Except

variable {ε ε' A B : Type}

/-- Returns `e` when `bad` holds. -/
def refuse (bad : Prop) [Decidable bad] (e : ε) : Except ε Unit :=
  if bad then .error e else .ok ()

/-- The result of a call whose errors the caller answers with `e`. -/
def expect (x : Except ε' A) (e : ε) : Except ε A :=
  match x with
  | .ok a => .ok a
  | .error _ => .error e

/-- The result of a call that may have none, which the caller answers with `e`. -/
def ofOption (x : Option A) (e : ε) : Except ε A :=
  match x with
  | some a => .ok a
  | none => .error e

@[simp] theorem refuse_eq_ok {bad : Prop} [Decidable bad] {e : ε} {u : Unit} :
    refuse bad e = .ok u ↔ ¬bad := by
  by_cases hbad : bad <;> simp [refuse, hbad]

@[simp] theorem refuse_eq_error {bad : Prop} [Decidable bad] {e e' : ε} :
    refuse bad e = .error e' ↔ bad ∧ e = e' := by
  by_cases hbad : bad <;> simp [refuse, hbad]

@[simp] theorem expect_eq_ok {x : Except ε' A} {e : ε} {a : A} : expect x e = .ok a ↔ x = .ok a := by
  cases x <;> simp [expect]

@[simp] theorem expect_eq_error {x : Except ε' A} {e e' : ε} :
    expect x e = .error e' ↔ (∃ f, x = .error f) ∧ e = e' := by
  cases x <;> simp [expect]

@[simp] theorem ofOption_eq_ok {x : Option A} {e : ε} {a : A} :
    ofOption x e = .ok a ↔ x = some a := by
  cases x <;> simp [ofOption]

@[simp] theorem ofOption_eq_error {x : Option A} {e e' : ε} :
    ofOption x e = .error e' ↔ x = none ∧ e = e' := by
  cases x <;> simp [ofOption]

theorem ok_bind (a : A) (f : A → Except ε B) : (Except.ok a >>= f) = f a := rfl

theorem error_bind (e : ε) (f : A → Except ε B) : (Except.error e >>= f) = .error e := rfl

theorem ofOption_some (a : A) (e : ε) : ofOption (some a) e = .ok a := rfl

theorem ofOption_none (e : ε) : ofOption (none : Option A) e = .error e := rfl

/-- A sequence returns when its first part does and the rest does from there. -/
theorem bind_eq_ok {x : Except ε A} {f : A → Except ε B} {b : B} :
    (x >>= f) = .ok b ↔ ∃ a, x = .ok a ∧ f a = .ok b := by
  cases x <;> simp [bind, Except.bind]

theorem bind_eq_error {x : Except ε A} {f : A → Except ε B} {e : ε} :
    (x >>= f) = .error e ↔ x = .error e ∨ ∃ a, x = .ok a ∧ f a = .error e := by
  cases x <;> simp [bind, Except.bind]

@[simp] theorem pure_eq_ok {a b : A} : (pure a : Except ε A) = .ok b ↔ a = b := by
  simp [pure, Except.pure]

@[simp] theorem pure_ne_error {a : A} {e : ε} : (pure a : Except ε A) ≠ .error e := by
  simp [pure, Except.pure]

@[simp] theorem throw_ne_ok {e : ε} {a : A} : (throw e : Except ε A) ≠ .ok a := by
  intro h
  cases h

@[simp] theorem throw_eq_error {e e' : ε} : (throw e : Except ε A) = .error e' ↔ e = e' :=
  ⟨Except.error.inj, congrArg Except.error⟩

theorem mapM_eq_ok {f : A → Except ε B} {as : List A} {bs : List B} :
    as.mapM f = .ok bs ↔ List.Forall₂ (fun a b => f a = .ok b) as bs := by
  induction as generalizing bs with
  | nil =>
    rw [List.mapM_nil, pure_eq_ok, List.forall₂_nil_left_iff, eq_comm]
  | cons a as ih =>
    simp only [List.mapM_cons, bind_eq_ok, pure_eq_ok, List.forall₂_cons_left_iff, ih]
    constructor
    · rintro ⟨b, hb, bs, hbs, rfl⟩
      exact ⟨b, bs, hb, hbs, rfl⟩
    · rintro ⟨b, bs, hb, hbs, rfl⟩
      exact ⟨b, hb, bs, hbs, rfl⟩

/-- A list fails with the failure of one of its items. -/
theorem exists_of_mapM_eq_error {f : A → Except ε B} {as : List A} {e : ε}
    (h : as.mapM f = .error e) : ∃ a ∈ as, f a = .error e := by
  induction as with
  | nil =>
    rw [List.mapM_nil] at h
    exact absurd h pure_ne_error
  | cons a as ih =>
    simp only [List.mapM_cons, bind_eq_error, pure_ne_error, and_false, exists_false, or_false] at h
    obtain ha | ⟨b, -, has⟩ := h
    · exact ⟨a, List.mem_cons_self, ha⟩
    · obtain ⟨a', hmem, ha'⟩ := ih has
      exact ⟨a', List.mem_cons_of_mem a hmem, ha'⟩

/-- A list of checks passes when each does. -/
theorem forM_eq_ok {f : A → Except ε Unit} {as : List A} {u : Unit} :
    as.forM f = .ok u ↔ ∀ a ∈ as, f a = .ok () := by
  induction as with
  | nil => simp [List.forM, pure_eq_ok]
  | cons a as ih =>
    show (f a >>= fun _ => as.forM f) = .ok u ↔ _
    rw [bind_eq_ok, List.forall_mem_cons]
    constructor
    · rintro ⟨⟨⟩, ha, has⟩
      exact ⟨ha, ih.1 has⟩
    · rintro ⟨ha, has⟩
      exact ⟨(), ha, ih.2 has⟩

section FailsWith

variable {e : ε}

/-- `x` fails with nothing but `e`. -/
def FailsWith (e : ε) (x : Except ε A) : Prop := ∀ e', x = .error e' → e' = e

theorem failsWith_pure {a : A} : FailsWith e (pure a) := fun _ h => absurd h pure_ne_error

theorem failsWith_refuse {bad : Prop} [Decidable bad] : FailsWith e (refuse bad e) :=
  fun _ h => (refuse_eq_error.1 h).2.symm

theorem failsWith_ofOption {x : Option A} : FailsWith e (ofOption x e) :=
  fun _ h => (ofOption_eq_error.1 h).2.symm

theorem FailsWith.bind {x : Except ε A} {f : A → Except ε B} (hx : FailsWith e x)
    (hf : ∀ a, FailsWith e (f a)) : FailsWith e (x >>= f) := by
  intro e' h
  obtain h | ⟨a, -, h⟩ := bind_eq_error.1 h
  · exact hx e' h
  · exact hf a e' h

theorem FailsWith.mapM {f : A → Except ε B} (hf : ∀ a, FailsWith e (f a)) (as : List A) :
    FailsWith e (as.mapM f) := by
  intro e' h
  obtain ⟨a, -, ha⟩ := exists_of_mapM_eq_error h
  exact hf a e' ha

end FailsWith

end Except
