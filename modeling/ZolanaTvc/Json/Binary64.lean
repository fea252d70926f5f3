import Mathlib.Algebra.Order.Round
import Mathlib.Data.Int.Log
import Mathlib.Data.Rat.Floor
import Mathlib.Tactic.Linarith
import Mathlib.Tactic.Positivity
import ZolanaTvc.Json.Number

/-!
# Numbers of a JSON text as binary64 values

A JSON number denotes a rational; a program that keeps numbers as IEEE 754 binary64 values rounds it
to the nearest of these, ties to even. The sign of a zero is not kept: `String` writes both zeros
alike, and nothing else here reads it.
-/

open Json

/-- A finite binary64 value. -/
structure Binary64 where
  value : ℚ
  representable : ∃ m e : ℤ, |m| ≤ 2 ^ 53 ∧ -1074 ≤ e ∧ value = m * 2 ^ e
  bounded : |value| < 2 ^ 1024

namespace Binary64

@[ext] theorem ext {x y : Binary64} (h : x.value = y.value) : x = y := by
  cases x
  cases y
  congr

instance : DecidableEq Binary64 := fun _ _ => decidable_of_iff _ ⟨ext, congrArg value⟩

/-- The nearest integer, the even one of two. -/
def nearest (x : ℚ) : ℤ :=
  if Int.fract x < 1 / 2 then ⌊x⌋
  else if 1 / 2 < Int.fract x then ⌊x⌋ + 1
  else if ⌊x⌋ % 2 = 0 then ⌊x⌋ else ⌊x⌋ + 1

/-- The exponent of the unit in which values as large as `x` are counted. -/
def unit (x : ℚ) : ℤ := max (-1074) (Int.log 2 |x| - 52)

def roundValue (x : ℚ) : ℚ := nearest (x / 2 ^ unit x) * 2 ^ unit x

theorem nearest_intCast (n : ℤ) : nearest n = n := by
  simp [nearest]

theorem nearest_cases (x : ℚ) : nearest x = ⌊x⌋ ∨ nearest x = ⌊x⌋ + 1 ∧ Int.fract x ≠ 0 := by
  unfold nearest
  split_ifs with hlow hhigh heven
  · exact .inl rfl
  · exact .inr ⟨rfl, fun h => by norm_num [h] at hhigh⟩
  · exact .inl rfl
  · exact .inr ⟨rfl, fun h => by norm_num [h] at hlow⟩

theorem le_nearest {n : ℤ} {x : ℚ} (h : n ≤ x) : n ≤ nearest x := by
  have hfloor : n ≤ ⌊x⌋ := Int.le_floor.2 h
  rcases nearest_cases x with hx | ⟨hx, -⟩ <;> omega

theorem nearest_le {n : ℤ} {x : ℚ} (h : x ≤ n) : nearest x ≤ n := by
  rcases nearest_cases x with hx | ⟨hx, hfract⟩
  · rw [hx]
    exact_mod_cast (Int.floor_le x).trans h
  · have hlt : (⌊x⌋ : ℚ) < x := by
      have hpos := lt_of_le_of_ne (Int.fract_nonneg x) (Ne.symm hfract)
      linarith [Int.self_sub_floor x]
    have hfloor : ⌊x⌋ < n := by exact_mod_cast hlt.trans_le h
    omega

theorem abs_lt_zpow (x : ℚ) : |x| < 2 ^ (unit x + 53) := by
  have hlog : |x| < (2 : ℕ) ^ (Int.log 2 |x| + 1) := Int.lt_zpow_succ_log_self (by norm_num) |x|
  refine hlog.trans_le ?_
  push_cast
  exact zpow_le_zpow_right₀ (by norm_num) (by unfold unit; omega)

theorem nearest_bound (x : ℚ) : |nearest (x / 2 ^ unit x)| ≤ 2 ^ 53 := by
  have hpos : (0 : ℚ) < 2 ^ unit x := zpow_pos (by norm_num) _
  have hlt : |x / 2 ^ unit x| < 2 ^ 53 := by
    rw [abs_div, abs_of_pos hpos, div_lt_iff₀ hpos, ← zpow_natCast, ← zpow_add₀ (by norm_num)]
    have := abs_lt_zpow x
    rwa [add_comm] at this
  obtain ⟨hlow, hhigh⟩ := abs_le.1 hlt.le
  refine abs_le.2 ⟨le_nearest ?_, nearest_le ?_⟩ <;> push_cast <;> assumption

/-- The binary64 value nearest to a rational, or none for an infinity. -/
def round (x : ℚ) : Option Binary64 :=
  if h : |roundValue x| < 2 ^ 1024 then
    some ⟨roundValue x, ⟨_, unit x, nearest_bound x, le_max_left _ _, rfl⟩, h⟩
  else none

theorem unit_le {x : ℚ} {e : ℤ} (hx : x ≠ 0) (he : -1074 ≤ e) (hlt : |x| < 2 ^ (e + 53)) :
    unit x ≤ e := by
  have hlog : Int.log 2 |x| < e + 53 :=
    (Int.lt_zpow_iff_log_lt (by norm_num) (abs_pos.2 hx)).1 (by exact_mod_cast hlt)
  unfold unit
  omega

theorem roundValue_of_lt {m e : ℤ} (hm : |m| < 2 ^ 53) (he : -1074 ≤ e) :
    roundValue (m * 2 ^ e) = m * 2 ^ e := by
  by_cases hzero : m = 0
  · simp [hzero, roundValue, nearest]
  have hx : (m * 2 ^ e : ℚ) ≠ 0 := mul_ne_zero (by exact_mod_cast hzero) (zpow_ne_zero _ (by norm_num))
  have hunit : unit (m * 2 ^ e) ≤ e := by
    refine unit_le hx he ?_
    rw [abs_mul, abs_of_pos (zpow_pos (by norm_num : (0 : ℚ) < 2) e), add_comm,
      zpow_add₀ (by norm_num)]
    refine mul_lt_mul_of_pos_right ?_ (zpow_pos (by norm_num) _)
    exact_mod_cast hm
  obtain ⟨k, hk⟩ := Int.eq_ofNat_of_zero_le (sub_nonneg.2 hunit)
  have hscaled : (m * 2 ^ e / 2 ^ unit (m * 2 ^ e) : ℚ) = ((m * 2 ^ k : ℤ) : ℚ) := by
    rw [mul_div_assoc, ← zpow_sub₀ (by norm_num), hk]
    push_cast
    rfl
  rw [roundValue, hscaled, nearest_intCast, ← hscaled, div_mul_cancel₀]
  exact zpow_ne_zero _ (by norm_num)

/-- A representable value is its own rounding. -/
theorem roundValue_of_representable {m e : ℤ} (hm : |m| ≤ 2 ^ 53) (he : -1074 ≤ e) :
    roundValue (m * 2 ^ e) = m * 2 ^ e := by
  rcases hm.lt_or_eq with hlt | heq
  · exact roundValue_of_lt hlt he
  · obtain ⟨m', rfl⟩ : ∃ m', m = m' * 2 := by
      rcases (abs_eq (by norm_num)).1 heq with rfl | rfl
      · exact ⟨2 ^ 52, by norm_num⟩
      · exact ⟨-2 ^ 52, by norm_num⟩
    have hshift : ((m' * 2 : ℤ) * 2 ^ e : ℚ) = m' * 2 ^ (e + 1) := by
      rw [zpow_add_one₀ (by norm_num)]
      push_cast
      ring
    rw [hshift]
    refine roundValue_of_lt ?_ (by omega)
    rw [abs_mul] at heq
    norm_num at heq ⊢
    omega

theorem round_value (x : Binary64) : round x.value = some x := by
  obtain ⟨m, e, hm, he, hx⟩ := x.representable
  have hround : roundValue x.value = x.value := hx ▸ roundValue_of_representable hm he
  have hbounded : |roundValue x.value| < 2 ^ 1024 := by
    rw [hround]
    exact x.bounded
  rw [round, dif_pos hbounded]
  exact congrArg some (ext hround)

/-- The integers that binary64 tells apart. -/
def ofInt (n : ℤ) (h : |n| ≤ 2 ^ 53) : Binary64 :=
  ⟨n, ⟨n, 0, h, by norm_num, by simp⟩, by
    have hcast : |(n : ℚ)| ≤ 2 ^ 53 := by exact_mod_cast h
    exact hcast.trans_lt (pow_lt_pow_right₀ (by norm_num) (by norm_num))⟩

@[simp] theorem round_intCast {n : ℤ} (h : |n| ≤ 2 ^ 53) : round n = some (ofInt n h) :=
  round_value (ofInt n h)

end Binary64

namespace Json

/-- The rational a numeral denotes. -/
def Numeral.value (n : Numeral) : ℚ :=
  let frac := match n.frac with
    | none => []
    | some ds => ds.val
  let exp : ℤ := match n.exp with
    | none => 0
    | some (some true, ds) => -natOfDigits ds.val
    | some (_, ds) => natOfDigits ds.val
  let magnitude : ℚ := natOfDigits (n.whole.val ++ frac) * 10 ^ (exp - frac.length)
  if n.negative then -magnitude else magnitude

end Json
