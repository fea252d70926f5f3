import Mathlib.Data.String.Basic
import ZolanaTvc.Json.Binary64
import ZolanaTvc.Json.Canonical
import ZolanaTvc.Json.Utf16

/-!
# serde_json values

The numbers and strings that `serde_json` reads off a JSON text, and the texts it writes for them.
A value is nested at most 127 deep, the limit of the reader.
-/

namespace Serde

open Json

/-- A `serde_json` number: an integer of 64 bits, or a finite binary64 value. -/
inductive Number where
  | int (n : ℤ) (h : -2 ^ 63 ≤ n ∧ n < 2 ^ 64)
  | float (x : Binary64)
deriving DecidableEq

/-- The number a numeral denotes to the reader. An integer literal beyond 64 bits, and `-0`, are read
as binary64 values, as every literal with a fraction or an exponent is. -/
def Number.ofNumeral (n : Numeral) : Option Number :=
  let magnitude := natOfDigits n.whole.val
  let z : ℤ := if n.negative then -magnitude else magnitude
  if h : n.frac = none ∧ n.exp = none ∧ (n.negative = true → magnitude ≠ 0) ∧
      -2 ^ 63 ≤ z ∧ z < 2 ^ 64 then
    some (.int z h.2.2.2)
  else (Binary64.round n.value).map .float

/-- The numeral an integer is written as. -/
def Number.numeral : Number → Option Numeral
  | .int n _ => some (.ofInt n)
  | .float _ => none

theorem Number.ofNumeral_numeral (n : Number) (m : Numeral) (h : n.numeral = some m) :
    ofNumeral m = some n := by
  cases n with
  | float x => simp [numeral] at h
  | int n hn =>
    obtain rfl := Option.some.inj h
    have hnat : natOfDigits (Numeral.ofInt n).whole.val = n.natAbs :=
      natOfDigits_digitsOf n.natAbs
    have hz : (if (Numeral.ofInt n).negative then -(n.natAbs : ℤ) else n.natAbs) = n := by
      simp only [Numeral.ofInt, decide_eq_true_iff]
      split_ifs <;> omega
    have hwrites : (Numeral.ofInt n).negative = true → n.natAbs ≠ 0 := by
      simp only [Numeral.ofInt, decide_eq_true_iff]
      omega
    unfold ofNumeral
    simp only [hnat, hz]
    rw [dif_pos ⟨rfl, rfl, hwrites, hn⟩]

/-- The characters of a string literal; none when an escaped surrogate stands alone. -/
def unescapeChars : List (Piece Char) → Option (List Char)
  | [] => some []
  | .lit c :: ps => (unescapeChars ps).map (c.val :: ·)
  | .esc u :: ps =>
    if Utf16.isHigh u then
      match ps with
      | .esc v :: ps =>
        if Utf16.isLow v then (unescapeChars ps).map (Utf16.combine u v :: ·) else none
      | _ => none
    else if Utf16.isLow u then none
    else (unescapeChars ps).map (Char.ofNat u.toNat :: ·)

def unescape (ps : List (Piece Char)) : Option String := (unescapeChars ps).map String.ofList

/-- A value of `serde_json`. -/
abbrev Value := Json String Number

/-- How deep a text that `serde_json` reads may nest. -/
def recursionLimit : ℕ := 127

end Serde
