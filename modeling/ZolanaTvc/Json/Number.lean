import Mathlib.Data.Nat.Digits.Lemmas
import ZolanaTvc.Json.Text

/-!
# Decimal digits

The digits of a natural number as texts have them: most significant first, and a single zero for
zero. `Json.digitsEquiv` says that these are exactly the integer parts of JSON numbers.
-/

namespace Json

/-- The number that digits write. -/
def natOfDigits (ds : List (Fin 10)) : ℕ := ds.foldl (fun n d => 10 * n + d.val) 0

/-- The digits of a number, without a leading zero. -/
def digitsOf (n : ℕ) : List (Fin 10) :=
  if n = 0 then [digitOf 0] else ((Nat.digits 10 n).map digitOf).reverse

theorem natOfDigits_eq (ds : List (Fin 10)) :
    natOfDigits ds = Nat.ofDigits 10 (ds.map Fin.val).reverse := by
  rw [Nat.ofDigits_eq_foldr, natOfDigits, List.foldr_reverse, List.foldl_map]
  simp [add_comm]

theorem map_val_digits (n : ℕ) :
    ((Nat.digits 10 n).map digitOf).map Fin.val = Nat.digits 10 n := by
  rw [List.map_map]
  refine (List.map_congr_left fun d hd => ?_).trans (List.map_id _)
  exact Nat.mod_eq_of_lt (Nat.digits_lt_base (by norm_num) hd)

@[simp] theorem natOfDigits_digitsOf (n : ℕ) : natOfDigits (digitsOf n) = n := by
  unfold digitsOf
  split_ifs with hn
  · simp [hn, natOfDigits]
  · rw [natOfDigits_eq, List.map_reverse, List.reverse_reverse, map_val_digits, Nat.ofDigits_digits]

theorem digitsOf_isWhole (n : ℕ) : IsWhole (digitsOf n) := by
  unfold digitsOf
  split_ifs with hn
  · exact ⟨by simp, fun _ => rfl⟩
  · have hne : Nat.digits 10 n ≠ [] := Nat.digits_ne_nil_iff_ne_zero.2 hn
    refine ⟨by simpa using hne, fun hhead => ?_⟩
    rw [List.head?_reverse, List.getLast?_map, List.getLast?_eq_some_getLast hne] at hhead
    have hlast : (Nat.digits 10 n).getLast hne % 10 = 0 := by
      simpa [Fin.ext_iff] using hhead
    have hlt := Nat.digits_lt_base (by norm_num : 1 < 10) (List.getLast_mem hne)
    have hzero := Nat.getLast_digit_ne_zero 10 hn
    omega

theorem digitsOf_natOfDigits {ds : List (Fin 10)} (h : IsWhole ds) :
    digitsOf (natOfDigits ds) = ds := by
  obtain ⟨d, ds, rfl⟩ := List.exists_cons_of_ne_nil h.1
  by_cases hd : d = 0
  · obtain rfl : ds = [] := by simpa [hd] using h.2
    simp [hd, natOfDigits, digitsOf]
  · have hdigits : Nat.digits 10 (natOfDigits (d :: ds)) = ((d :: ds).map Fin.val).reverse := by
      rw [natOfDigits_eq]
      refine Nat.digits_ofDigits 10 (by norm_num) _ (fun l hl => ?_) fun hne => ?_
      · obtain ⟨e, -, rfl⟩ := List.mem_map.1 (List.mem_reverse.1 hl)
        exact e.isLt
      · rw [List.getLast_reverse]
        exact fun hzero => hd (Fin.ext hzero)
    have hne : natOfDigits (d :: ds) ≠ 0 := by
      rw [← Nat.digits_ne_nil_iff_ne_zero (b := 10), hdigits]
      simp
    rw [digitsOf, if_neg hne, hdigits, List.map_reverse, List.reverse_reverse, List.map_map]
    refine (List.map_congr_left fun e _ => ?_).trans (List.map_id _)
    exact Fin.ext (Nat.mod_eq_of_lt e.isLt)

/-- The integer parts of JSON numbers are the natural numbers. -/
def digitsEquiv : ℕ ≃ {ds : List (Fin 10) // IsWhole ds} where
  toFun n := ⟨digitsOf n, digitsOf_isWhole n⟩
  invFun ds := natOfDigits ds.val
  left_inv := natOfDigits_digitsOf
  right_inv ds := Subtype.ext (digitsOf_natOfDigits ds.property)

/-- The numeral of an integer. -/
def Numeral.ofInt (n : ℤ) : Numeral := ⟨n < 0, digitsEquiv n.natAbs, none, none⟩

theorem Numeral.ofInt_injective : Function.Injective Numeral.ofInt := by
  intro m n h
  obtain ⟨hsign, habs, -, -⟩ := Numeral.mk.inj h
  have habs := digitsEquiv.injective habs
  simp only [decide_eq_decide] at hsign
  omega

end Json
