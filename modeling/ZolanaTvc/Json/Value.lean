import Mathlib.Algebra.Group.Nat.Defs
import Mathlib.Data.List.Sort
import Mathlib.Data.List.Forall2
import Mathlib.Data.List.Perm.Basic

/-!
# JSON values over any strings and numbers

`Json σ ν` is a JSON value whose strings are of type `σ` and whose numbers are of type `ν`. An
object is the list of its members, in the order its holder keeps them.

## Main definitions

* `Json.sorted`: the value with the members of every object in a given order.
* `Json.Reorder`: two values are equal but for the order of members.
* `Json.All`: a property of every string, of every number and of every object's names.
* `Json.depth`: how deep arrays and objects nest.
-/

/-- A JSON value. -/
inductive Json (σ ν : Type) where
  | null
  | bool (b : Bool)
  | num (n : ν)
  | str (s : σ)
  | arr (items : List (Json σ ν))
  | obj (members : List (σ × Json σ ν))

namespace Json

variable {σ ν σ' ν' : Type}

@[elab_as_elim, induction_eliminator]
theorem induct {motive : Json σ ν → Prop} (null : motive .null) (bool : ∀ b, motive (.bool b))
    (num : ∀ n, motive (.num n)) (str : ∀ s, motive (.str s))
    (arr : ∀ items, (∀ v ∈ items, motive v) → motive (.arr items))
    (obj : ∀ members, (∀ m ∈ members, motive m.2) → motive (.obj members)) (v : Json σ ν) :
    motive v :=
  @Json.rec σ ν motive (fun items => ∀ v ∈ items, motive v)
    (fun members => ∀ m ∈ members, motive m.2) (fun m => motive m.2)
    null bool num str arr obj (by simp) (fun _ _ hv hitems => List.forall_mem_cons.2 ⟨hv, hitems⟩)
    (by simp) (fun _ _ hm hmembers => List.forall_mem_cons.2 ⟨hm, hmembers⟩) (fun _ _ hv => hv) v

section DecidableEq

variable [DecidableEq σ] [DecidableEq ν]

mutual

def beq : Json σ ν → Json σ ν → Bool
  | .null, .null => true
  | .bool b, .bool c => b == c
  | .num n, .num m => decide (n = m)
  | .str s, .str t => decide (s = t)
  | .arr vs, .arr ws => beqItems vs ws
  | .obj ms, .obj ns => beqMembers ms ns
  | _, _ => false

def beqItems : List (Json σ ν) → List (Json σ ν) → Bool
  | [], [] => true
  | v :: vs, w :: ws => beq v w && beqItems vs ws
  | _, _ => false

def beqMembers : List (σ × Json σ ν) → List (σ × Json σ ν) → Bool
  | [], [] => true
  | (k, v) :: ms, (l, w) :: ns => decide (k = l) && beq v w && beqMembers ms ns
  | _, _ => false

end

theorem beqItems_iff {vs : List (Json σ ν)} (ih : ∀ v ∈ vs, ∀ w, beq v w = true ↔ v = w)
    (ws : List (Json σ ν)) : beqItems vs ws = true ↔ vs = ws := by
  induction vs generalizing ws with
  | nil => cases ws <;> simp [beqItems]
  | cons v vs ihs =>
    obtain ⟨hv, hvs⟩ := List.forall_mem_cons.1 ih
    cases ws with
    | nil => simp [beqItems]
    | cons w ws => simp [beqItems, hv w, ihs hvs ws]

theorem beqMembers_iff {ms : List (σ × Json σ ν)}
    (ih : ∀ m ∈ ms, ∀ w, beq m.2 w = true ↔ m.2 = w) (ns : List (σ × Json σ ν)) :
    beqMembers ms ns = true ↔ ms = ns := by
  induction ms generalizing ns with
  | nil => cases ns <;> simp [beqMembers]
  | cons m ms ihs =>
    obtain ⟨k, v⟩ := m
    obtain ⟨hv, hms⟩ := List.forall_mem_cons.1 ih
    cases ns with
    | nil => simp [beqMembers]
    | cons n ns => simp [beqMembers, hv n.2, ihs hms ns, Prod.ext_iff]

theorem beq_iff (v w : Json σ ν) : beq v w = true ↔ v = w := by
  induction v generalizing w with
  | null => cases w <;> simp [beq]
  | bool b => cases w <;> simp [beq]
  | num n => cases w <;> simp [beq]
  | str s => cases w <;> simp [beq]
  | arr items ih => cases w <;> simp [beq, beqItems_iff ih]
  | obj members ih => cases w <;> simp [beq, beqMembers_iff ih]

instance : DecidableEq (Json σ ν) := fun v w => decidable_of_iff _ (beq_iff v w)

end DecidableEq

section Depth

mutual

/-- The nesting of arrays and objects: none in a scalar, one in an empty array. -/
def depth : Json σ ν → ℕ
  | .arr items => depthItems items + 1
  | .obj members => depthMembers members + 1
  | _ => 0

def depthItems : List (Json σ ν) → ℕ
  | [] => 0
  | v :: vs => max (depth v) (depthItems vs)

def depthMembers : List (σ × Json σ ν) → ℕ
  | [] => 0
  | (_, v) :: ms => max (depth v) (depthMembers ms)

end

theorem depthItems_le {vs : List (Json σ ν)} {d : ℕ} :
    depthItems vs ≤ d ↔ ∀ v ∈ vs, v.depth ≤ d := by
  induction vs with
  | nil => simp [depthItems]
  | cons v vs ih => simp [depthItems, ih]

theorem depthMembers_le {ms : List (σ × Json σ ν)} {d : ℕ} :
    depthMembers ms ≤ d ↔ ∀ m ∈ ms, m.2.depth ≤ d := by
  induction ms with
  | nil => simp [depthMembers]
  | cons m ms ih => simp [depthMembers, ih]

theorem depth_arr_le {vs : List (Json σ ν)} {d : ℕ} :
    (arr vs).depth ≤ d + 1 ↔ ∀ v ∈ vs, v.depth ≤ d := by
  simp [depth, depthItems_le]

theorem depth_obj_le {ms : List (σ × Json σ ν)} {d : ℕ} :
    (obj ms).depth ≤ d + 1 ↔ ∀ m ∈ ms, m.2.depth ≤ d := by
  simp [depth, depthMembers_le]

end Depth

section All

variable {P : σ → Prop} {Q : ν → Prop} {R : List σ → Prop}

/-- Every string and name of the value is in `P`, every number in `Q`, and the list of names of
every object in `R`. -/
inductive All (P : σ → Prop) (Q : ν → Prop) (R : List σ → Prop) : Json σ ν → Prop where
  | null : All P Q R .null
  | bool (b : Bool) : All P Q R (.bool b)
  | num {n : ν} : Q n → All P Q R (.num n)
  | str {s : σ} : P s → All P Q R (.str s)
  | arr {items : List (Json σ ν)} : (∀ v ∈ items, All P Q R v) → All P Q R (.arr items)
  | obj {members : List (σ × Json σ ν)} : R (members.map Prod.fst) →
      (∀ m ∈ members, P m.1) → (∀ m ∈ members, All P Q R m.2) → All P Q R (.obj members)

@[simp] theorem all_null : All P Q R (null : Json σ ν) := .null

@[simp] theorem all_bool {b : Bool} : All P Q R (bool b : Json σ ν) := .bool b

@[simp] theorem all_num {n : ν} : All P Q R (num n : Json σ ν) ↔ Q n :=
  ⟨fun h => by cases h; assumption, .num⟩

@[simp] theorem all_str {s : σ} : All P Q R (str s : Json σ ν) ↔ P s :=
  ⟨fun h => by cases h; assumption, .str⟩

@[simp] theorem all_arr {items : List (Json σ ν)} :
    All P Q R (arr items) ↔ ∀ v ∈ items, All P Q R v :=
  ⟨fun h => by cases h; assumption, .arr⟩

@[simp] theorem all_obj {members : List (σ × Json σ ν)} :
    All P Q R (obj members) ↔ R (members.map Prod.fst) ∧ (∀ m ∈ members, P m.1) ∧
      ∀ m ∈ members, All P Q R m.2 :=
  ⟨fun h => by cases h; exact ⟨‹_›, ‹_›, ‹_›⟩, fun h => .obj h.1 h.2.1 h.2.2⟩

theorem All.mono {P' : σ → Prop} {Q' : ν → Prop} {R' : List σ → Prop} (hP : ∀ s, P s → P' s)
    (hQ : ∀ n, Q n → Q' n) (hR : ∀ ks, R ks → R' ks) {v : Json σ ν} (h : v.All P Q R) :
    v.All P' Q' R' := by
  induction h with
  | null => exact .null
  | bool b => exact .bool b
  | num h => exact .num (hQ _ h)
  | str h => exact .str (hP _ h)
  | arr _ ih => exact .arr ih
  | obj hnames hkeys _ ih => exact .obj (hR _ hnames) (fun m hm => hP _ (hkeys m hm)) ih

theorem All.and {P' : σ → Prop} {Q' : ν → Prop} {R' : List σ → Prop} {v : Json σ ν}
    (h : v.All P Q R) (h' : v.All P' Q' R') :
    v.All (fun s => P s ∧ P' s) (fun n => Q n ∧ Q' n) fun ks => R ks ∧ R' ks := by
  induction v with
  | null => exact .null
  | bool b => exact .bool b
  | num n => exact .num ⟨all_num.1 h, all_num.1 h'⟩
  | str s => exact .str ⟨all_str.1 h, all_str.1 h'⟩
  | arr vs ih => exact .arr fun v hv => ih v hv (all_arr.1 h v hv) (all_arr.1 h' v hv)
  | obj ms ih =>
    obtain ⟨hnames, hkeys, hvalues⟩ := all_obj.1 h
    obtain ⟨hnames', hkeys', hvalues'⟩ := all_obj.1 h'
    exact .obj ⟨hnames, hnames'⟩ (fun m hm => ⟨hkeys m hm, hkeys' m hm⟩)
      fun m hm => ih m hm (hvalues m hm) (hvalues' m hm)

/-- No object of the value names a member twice. -/
abbrev Distinct (v : Json σ ν) : Prop :=
  v.All (fun _ => True) (fun _ => True) List.Nodup

@[simp] theorem distinct_arr {items : List (Json σ ν)} :
    (arr items).Distinct ↔ ∀ v ∈ items, v.Distinct :=
  all_arr

@[simp] theorem distinct_obj {members : List (σ × Json σ ν)} :
    (obj members).Distinct ↔ (members.map Prod.fst).Nodup ∧ ∀ m ∈ members, m.2.Distinct :=
  all_obj.trans (and_congr_right fun _ => and_iff_right fun _ _ => trivial)

end All

section Decidable

variable (P : σ → Prop) (Q : ν → Prop) (R : List σ → Prop)
variable [DecidablePred P] [DecidablePred Q] [DecidablePred R]

mutual

def check : Json σ ν → Bool
  | .null => true
  | .bool _ => true
  | .num n => decide (Q n)
  | .str s => decide (P s)
  | .arr items => checkItems items
  | .obj members =>
    decide (R (members.map Prod.fst)) && (members.all fun m => decide (P m.1)) &&
      checkMembers members

def checkItems : List (Json σ ν) → Bool
  | [] => true
  | v :: vs => check v && checkItems vs

def checkMembers : List (σ × Json σ ν) → Bool
  | [] => true
  | (_, v) :: ms => check v && checkMembers ms

end

theorem checkItems_iff {vs : List (Json σ ν)} :
    checkItems P Q R vs = true ↔ ∀ v ∈ vs, check P Q R v = true := by
  induction vs with
  | nil => simp [checkItems]
  | cons v vs ih => simp [checkItems, ih]

theorem checkMembers_iff {ms : List (σ × Json σ ν)} :
    checkMembers P Q R ms = true ↔ ∀ m ∈ ms, check P Q R m.2 = true := by
  induction ms with
  | nil => simp [checkMembers]
  | cons m ms ih => simp [checkMembers, ih]

theorem check_iff (v : Json σ ν) : check P Q R v = true ↔ v.All P Q R := by
  induction v with
  | arr vs ih =>
    rw [check, checkItems_iff, all_arr]
    exact forall₂_congr ih
  | obj ms ih =>
    rw [check, Bool.and_eq_true, Bool.and_eq_true, decide_eq_true_iff, checkMembers_iff, all_obj,
      and_assoc]
    refine and_congr_right fun _ => and_congr ?_ (forall₂_congr ih)
    simp
  | _ => simp [check]

instance : DecidablePred (All P Q R : Json σ ν → Prop) :=
  fun v => decidable_of_iff _ (check_iff P Q R v)

end Decidable

end Json
