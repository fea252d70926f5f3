import ZolanaTvc.Control.Except

/-!
# Programs that leave effects behind

A program in `Effectful E ε` returns or fails, and what it did before stays done.
-/

/-- What a program did, in order, and what it came to. -/
structure Effectful (E ε A : Type) where
  effects : List E
  result : Except ε A

namespace Effectful

variable {E ε A B : Type}

/-- A sequence stops at the first failure. -/
instance monad : Monad (Effectful E ε) where
  pure a := ⟨[], .ok a⟩
  bind x f :=
    match x.result with
    | .ok a => ⟨x.effects ++ (f a).effects, (f a).result⟩
    | .error e => ⟨x.effects, .error e⟩

/-- A program without effects. -/
def ofExcept (x : Except ε A) : Effectful E ε A := ⟨[], x⟩

/-- A program with one effect. -/
def act (e : E) (x : Except ε A) : Effectful E ε A := ⟨[e], x⟩

variable {x : Effectful E ε A} {f : A → Effectful E ε B}

theorem bind_ok {a : A} (h : x.result = .ok a) :
    x >>= f = ⟨x.effects ++ (f a).effects, (f a).result⟩ := by
  show (match x.result with
    | .ok a => (⟨x.effects ++ (f a).effects, (f a).result⟩ : Effectful E ε B)
    | .error e => ⟨x.effects, .error e⟩) = _
  rw [h]

theorem bind_error {e : ε} (h : x.result = .error e) : x >>= f = ⟨x.effects, .error e⟩ := by
  show (match x.result with
    | .ok a => (⟨x.effects ++ (f a).effects, (f a).result⟩ : Effectful E ε B)
    | .error e => ⟨x.effects, .error e⟩) = _
  rw [h]

theorem result_bind : (x >>= f).result = x.result >>= fun a => (f a).result := by
  cases h : x.result with
  | ok a => rw [bind_ok h]; rfl
  | error e => rw [bind_error h]; rfl

theorem mem_effects_bind {e : E} : e ∈ (x >>= f).effects ↔
    e ∈ x.effects ∨ ∃ a, x.result = .ok a ∧ e ∈ (f a).effects := by
  cases h : x.result with
  | ok a => simp [bind_ok h]
  | error e => simp [bind_error h]

/-- An early program does nothing, and fails or goes on. -/
theorem ofExcept_bind {y : Except ε A} : (ofExcept y : Effectful E ε A) >>= f =
    match y with
    | .ok a => f a
    | .error e => ofExcept (.error e) := by
  cases y <;> rfl

theorem mem_ofExcept_bind {e : E} {y : Except ε A} : e ∈ (ofExcept y >>= f).effects ↔
    ∃ a, y = .ok a ∧ e ∈ (f a).effects :=
  mem_effects_bind.trans (or_iff_right List.not_mem_nil)

theorem mem_act_bind {e e' : E} {y : Except ε A} : e ∈ (act e' y >>= f).effects ↔
    e = e' ∨ ∃ a, y = .ok a ∧ e ∈ (f a).effects :=
  mem_effects_bind.trans (or_congr_left List.mem_singleton)

/-- The rest of the program takes failures into account. -/
def attempt (x : Effectful E ε A) : Effectful E ε (Except ε A) := ⟨x.effects, .ok x.result⟩

theorem attempt_bind {f : Except ε A → Effectful E ε B} : attempt x >>= f =
    ⟨x.effects ++ (f x.result).effects, (f x.result).result⟩ := rfl

section Meets

variable {P : ε → Prop} {Q : A → Prop} {R : B → Prop}

/-- The program fails with a `P` or returns a `Q`. -/
def Meets (P : ε → Prop) (Q : A → Prop) (x : Effectful E ε A) : Prop :=
  (∀ e, x.result = .error e → P e) ∧ ∀ a, x.result = .ok a → Q a

theorem Meets.bind (hx : x.Meets P Q) (hf : ∀ a, Q a → (f a).Meets P R) : (x >>= f).Meets P R := by
  cases h : x.result with
  | ok a =>
    rw [bind_ok h]
    exact hf a (hx.2 a h)
  | error e =>
    rw [bind_error h]
    exact ⟨fun _ he => Except.error.inj he ▸ hx.1 e h, fun _ ha => nomatch ha⟩

theorem Meets.pure {a : A} (h : Q a) : (Pure.pure a : Effectful E ε A).Meets P Q :=
  ⟨fun _ he => (nomatch he), fun _ ha => Except.ok.inj ha ▸ h⟩

theorem Meets.of_error {y : Except ε A} (h : ∀ e, y = .error e → P e) {es : List E} :
    (⟨es, y⟩ : Effectful E ε A).Meets P fun _ => True :=
  ⟨h, fun _ _ => trivial⟩

end Meets

end Effectful
