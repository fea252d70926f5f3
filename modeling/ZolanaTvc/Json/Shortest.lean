import Mathlib.Data.List.DropRight
import ZolanaTvc.Json.Binary64

/-!
# Binary64 integers as JavaScript writes them

`Number.prototype.toString` writes a binary64 value with as few digits as still round to it, and of
those with the nearest. Here for integers: up to 21 digits they are written out, beyond that with an
exponent.
-/

open Json

namespace Binary64

/-- The two multiples of `unit` around `m`, the nearer first and of two as near the even one. -/
def around (m unit : ℕ) : List ℕ :=
  let low := m / unit
  if 2 * (m % unit) < unit ∨ 2 * (m % unit) = unit ∧ low % 2 = 0 then
    [low * unit, (low + 1) * unit]
  else [(low + 1) * unit, low * unit]

/-- The integers with ever more significant digits around an integer of `d` digits. -/
def shortenings (m d : ℕ) : List ℕ := (List.range d).flatMap fun i => around m (10 ^ (d - 1 - i))

/-- The integers to be tried for an integral value. -/
def candidates (x : Binary64) : List ℤ :=
  let m := x.value.num.natAbs
  (shortenings m (digitsOf m).length).map fun c : ℕ => if x.value < 0 then -(c : ℤ) else c

/-- The integer whose digits are written for an integral value. -/
def shortest (x : Binary64) : ℤ :=
  ((candidates x).find? fun c : ℤ => round (c : ℚ) = some x).getD x.value.num

/-- What is written rounds to the value. -/
theorem round_shortest {x : Binary64} (h : x.value.den = 1) : round (shortest x : ℚ) = some x := by
  have hnum : (x.value.num : ℚ) = x.value := Rat.coe_int_num_of_den_eq_one h
  unfold shortest
  cases hfind : (candidates x).find? fun c : ℤ => round (c : ℚ) = some x with
  | none =>
    rw [Option.getD_none, hnum]
    exact round_value x
  | some c =>
    rw [Option.getD_some]
    have hround := List.find?_some hfind
    exact of_decide_eq_true hround

/-- Rounding keeps an integer of more than 53 bits beyond the smaller ones. -/
theorem le_abs_roundValue {c : ℤ} (hc : 2 ^ 53 ≤ |c|) : 2 ^ 53 ≤ |roundValue c| := by
  have habs : ((2 : ℕ) : ℚ) ^ (53 : ℤ) ≤ |(c : ℚ)| := by
    rw [← Int.cast_abs]
    exact_mod_cast hc
  have hne : (0 : ℚ) < |(c : ℚ)| := lt_of_lt_of_le (by norm_num) habs
  -- The exponent of such an integer is at least 53, so that its unit is at least 2,
  have hlog : 53 ≤ Int.log 2 |(c : ℚ)| := (Int.zpow_le_iff_le_log (by norm_num) hne).1 habs
  have hunit : unit (c : ℚ) = Int.log 2 |(c : ℚ)| - 52 := by
    unfold unit
    omega
  have hpos : (0 : ℚ) < 2 ^ unit (c : ℚ) := zpow_pos (by norm_num) _
  -- and it is at least 2^52 units long, before and after rounding.
  have hscaled : (2 : ℚ) ^ 52 ≤ |(c : ℚ)| / 2 ^ unit (c : ℚ) := by
    have hle : ((2 : ℕ) : ℚ) ^ Int.log 2 |(c : ℚ)| ≤ |(c : ℚ)| := Int.zpow_log_le_self (by norm_num) hne
    rw [le_div_iff₀ hpos, ← zpow_natCast, ← zpow_add₀ (by norm_num), hunit]
    push_cast at hle ⊢
    simpa using hle
  have hnearest : (2 : ℤ) ^ 52 ≤ |nearest ((c : ℚ) / 2 ^ unit (c : ℚ))| := by
    rw [← abs_of_pos hpos, ← abs_div] at hscaled
    rcases le_abs.1 hscaled with h | h
    · exact le_abs.2 (.inl (le_nearest (by exact_mod_cast h)))
    · have hle : nearest ((c : ℚ) / 2 ^ unit (c : ℚ)) ≤ -2 ^ 52 := nearest_le (by push_cast; linarith)
      exact le_abs.2 (.inr (by linarith))
  have htwo : (2 : ℚ) ≤ 2 ^ unit (c : ℚ) := by
    have h := zpow_le_zpow_right₀ (by norm_num : (1 : ℚ) ≤ 2) (by omega : 1 ≤ unit (c : ℚ))
    simpa using h
  rw [roundValue, abs_mul, abs_of_pos hpos, ← Int.cast_abs]
  calc (2 : ℚ) ^ 53 = 2 ^ 52 * 2 := by norm_num
    _ ≤ ((|nearest ((c : ℚ) / 2 ^ unit (c : ℚ))| : ℤ) : ℚ) * 2 ^ unit (c : ℚ) :=
        mul_le_mul (by exact_mod_cast hnearest) htwo (by norm_num) (by positivity)

theorem le_of_lt_pow {n : ℤ} (hn : |n| < 2 ^ 53) : |n| ≤ 2 ^ 53 := hn.le

/-- An integer that rounds to one of at most 53 bits is that one. -/
theorem eq_of_round {c n : ℤ} (hn : |n| < 2 ^ 53) (h : round (c : ℚ) = some (ofInt n (le_of_lt_pow hn))) :
    c = n := by
  have hvalue : roundValue c = n := by
    unfold round at h
    split_ifs at h with hlt
    exact congrArg value (Option.some.inj h)
  have hc : |c| < 2 ^ 53 := by
    by_contra hnot
    have hle := le_abs_roundValue (not_lt.1 hnot)
    rw [hvalue, ← Int.cast_abs] at hle
    have hle : (2 : ℤ) ^ 53 ≤ |n| := by exact_mod_cast hle
    omega
  rw [round_intCast hc.le] at h
  have hcast : (c : ℚ) = n := congrArg value (Option.some.inj h)
  exact_mod_cast hcast

@[simp] theorem shortest_ofInt {n : ℤ} (hn : |n| < 2 ^ 53) : shortest (ofInt n (le_of_lt_pow hn)) = n := by
  refine eq_of_round hn (round_shortest ?_)
  show (n : ℚ).den = 1
  exact Rat.den_intCast n

end Binary64

namespace Json

theorem natOfDigits_append (ds es : List (Fin 10)) :
    natOfDigits (ds ++ es) = natOfDigits ds * 10 ^ es.length + natOfDigits es := by
  rw [natOfDigits_eq, natOfDigits_eq, natOfDigits_eq, List.map_append, List.reverse_append,
    Nat.ofDigits_append, List.length_reverse, List.length_map]
  ring

theorem natOfDigits_zeros {ds : List (Fin 10)} (h : ∀ d ∈ ds, d = 0) : natOfDigits ds = 0 := by
  induction ds with
  | nil => rfl
  | cons d ds ih =>
    obtain ⟨rfl, hds⟩ := List.forall_mem_cons.1 h
    have happend := natOfDigits_append [0] ds
    rw [List.singleton_append, ih hds] at happend
    simpa [natOfDigits] using happend

/-- The digits of an integer up to its trailing zeros. -/
def significant (n : ℕ) : List (Fin 10) := (digitsOf n).rdropWhile fun d => d.val = 0

theorem natOfDigits_significant (n : ℕ) :
    (significant n).length ≤ (digitsOf n).length ∧
      natOfDigits (significant n) * 10 ^ ((digitsOf n).length - (significant n).length) = n := by
  have hsplit : significant n ++ (digitsOf n).rtakeWhile (fun d => d.val = 0) = digitsOf n := by
    rw [significant, List.rdropWhile, List.rtakeWhile, ← List.reverse_append,
      List.takeWhile_append_dropWhile, List.reverse_reverse]
  have hzeros : natOfDigits ((digitsOf n).rtakeWhile fun d => d.val = 0) = 0 :=
    natOfDigits_zeros fun d hd => by
      have hzero := List.mem_rtakeWhile_imp hd
      exact Fin.ext (of_decide_eq_true hzero)
  have hvalue := natOfDigits_append (significant n) ((digitsOf n).rtakeWhile fun d => d.val = 0)
  rw [hsplit, natOfDigits_digitsOf, hzeros, add_zero] at hvalue
  have hlength := congrArg List.length hsplit
  rw [List.length_append] at hlength
  refine ⟨by omega, ?_⟩
  rw [← hlength, Nat.add_sub_cancel_left]
  exact hvalue.symm

theorem isWhole_singleton (d : Fin 10) : IsWhole [d] := ⟨by simp, fun _ => rfl⟩

/-- An integer as JavaScript writes it. -/
def Numeral.ofInteger (c : ℤ) : Numeral :=
  if (digitsOf c.natAbs).length ≤ 21 then .ofInt c
  else
    match significant c.natAbs with
    | [] => .ofInt c
    | d :: ds =>
      { negative := c < 0
        whole := ⟨[d], isWhole_singleton d⟩
        frac := if h : ds ≠ [] then some ⟨ds, h⟩ else none
        exp := some (some false,
          ⟨digitsOf ((digitsOf c.natAbs).length - 1), (digitsOf_isWhole _).1⟩) }

theorem cast_eq_of_sign (c : ℤ) : (if c < 0 then -(c.natAbs : ℚ) else c.natAbs) = c := by
  split_ifs with hneg
  · rw [← Int.cast_natCast, Int.natCast_natAbs, abs_of_neg hneg]
    push_cast
    ring
  · rw [← Int.cast_natCast, Int.natCast_natAbs, abs_of_nonneg (not_lt.1 hneg)]

theorem Numeral.value_ofInt (c : ℤ) : (Numeral.ofInt c).value = c := by
  have hnat : natOfDigits ((digitsEquiv c.natAbs).val ++ []) = c.natAbs := by
    rw [List.append_nil]
    exact natOfDigits_digitsOf _
  simp only [Numeral.value, Numeral.ofInt, hnat, List.length_nil, Nat.cast_zero, sub_zero, zpow_zero,
    mul_one, decide_eq_true_eq]
  exact cast_eq_of_sign c

/-- What is written for an integer denotes it. -/
theorem Numeral.value_ofInteger (c : ℤ) : (Numeral.ofInteger c).value = c := by
  unfold Numeral.ofInteger
  obtain ⟨hle, hvalue⟩ := natOfDigits_significant c.natAbs
  split_ifs with hshort
  · exact Numeral.value_ofInt c
  · split
    · exact Numeral.value_ofInt c
    · rename_i d ds hdigits
      rw [hdigits, List.length_cons] at hle hvalue
      have hexp : ((natOfDigits (digitsOf ((digitsOf c.natAbs).length - 1)) : ℕ) : ℤ) -
          ((ds.length : ℕ) : ℤ) = ((digitsOf c.natAbs).length - (ds.length + 1) : ℕ) := by
        rw [natOfDigits_digitsOf]
        omega
      have hmagnitude : (natOfDigits (d :: ds) : ℚ) *
          10 ^ (((digitsOf c.natAbs).length - (ds.length + 1) : ℕ) : ℤ) = c.natAbs := by
        rw [zpow_natCast]
        exact_mod_cast hvalue
      rw [← hexp] at hmagnitude
      rw [← cast_eq_of_sign c, ← hmagnitude]
      cases ds <;> simp [Numeral.value]

end Json
