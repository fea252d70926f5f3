import Mathlib.Algebra.GroupWithZero.Nat
import ZolanaTvc.Json.Canonical

/-!
# The size of a canonical text

How long the text of a value is follows from the value part by part: the order of members does not
matter, nor does what stands around a part.

## Main results

* `Writer.of_append`: the text of a value is as long as `Writer.size` says.
-/

namespace Json

open CodeUnit

variable {α σ ν κ : Type} [CodeUnit α] [LinearOrder κ]

/-- How long texts are in some encoding: an ASCII character takes one unit, and parts the text into
what is before it and what is after it. -/
structure Measure (α : Type) [CodeUnit α] where
  of : List α → ℕ
  nil : of [] = 0
  split : ∀ (a b : List α) (c : Char), c.toNat < 128 → of (a ++ ascii c :: b) = of a + 1 + of b

namespace Measure

variable (L : Measure α)

theorem cons {c : Char} (hc : c.toNat < 128) (s : List α) : L.of (ascii c :: s) = 1 + L.of s := by
  have h := L.split [] s c hc
  rwa [L.nil, zero_add] at h

theorem concat {c : Char} (hc : c.toNat < 128) (s : List α) : L.of (s ++ [ascii c]) = L.of s + 1 := by
  rw [L.split s [] c hc, L.nil]

theorem asciiText (cs : List Char) (h : ∀ c ∈ cs, c.toNat < 128) :
    L.of (asciiText cs) = cs.length := by
  induction cs with
  | nil => exact L.nil
  | cons c cs ih =>
    obtain ⟨hc, hcs⟩ := List.forall_mem_cons.1 h
    rw [Json.asciiText, List.map_cons, L.cons hc, ← Json.asciiText, ih hcs, List.length_cons, add_comm]

/-- Each text between two brackets is followed by a comma or by the second bracket. -/
theorem brackets {a b : Char} (ha : a.toNat < 128) (hb : b.toNat < 128) (ts : List (List α)) :
    L.of (ascii a :: (joinComma ts ++ [ascii b])) =
      1 + max 1 (ts.map fun t => L.of t + 1).sum := by
  have hjoin : ∀ (t : List α) (ts : List (List α)), L.of (joinComma (t :: ts)) + 1 =
      ((t :: ts).map fun t => L.of t + 1).sum := by
    intro t ts
    induction ts generalizing t with
    | nil => rfl
    | cons u ts ih =>
      rw [joinComma_cons_cons, L.split _ _ _ (by decide), add_assoc, ih]
      rfl
  rw [L.cons ha, L.concat hb]
  cases ts with
  | nil => exact congrArg (1 + ·) (congrArg (· + 1) L.nil)
  | cons t ts =>
    rw [hjoin]
    have hpos : 1 ≤ ((t :: ts).map fun t => L.of t + 1).sum := by
      rw [List.map_cons, List.sum_cons]
      omega
    rw [max_eq_right hpos]

end Measure

namespace Writer

variable (w : Writer α σ ν κ) (L : Measure α)

/-- How long a number is written; one that is refused has no size. -/
def numberSize (n : ν) : ℕ := ((w.number n).map L.of).getD 0

mutual

/-- How long the text of a value is. -/
def size : Json σ ν → ℕ
  | .null => 4
  | .bool true => 4
  | .bool false => 5
  | .num n => w.numberSize L n
  | .str s => L.of (w.quote s)
  | .arr items => 1 + max 1 (sizeItems items)
  | .obj members => 1 + max 1 (sizeMembers members)

def sizeItems : List (Json σ ν) → ℕ
  | [] => 0
  | v :: vs => size v + 1 + sizeItems vs

def sizeMembers : List (σ × Json σ ν) → ℕ
  | [] => 0
  | (k, v) :: ms => L.of (w.quote k) + 1 + size v + 1 + sizeMembers ms

end

variable {w L}

omit [LinearOrder κ] in
theorem sizeItems_eq {vs : List (Json σ ν)} {ts : List (List α)}
    (h : List.Forall₂ (fun v t => L.of t = w.size L v) vs ts) :
    (ts.map fun t => L.of t + 1).sum = w.sizeItems L vs := by
  induction h with
  | nil => rfl
  | cons hvt _ ih => rw [List.map_cons, List.sum_cons, ih, hvt, sizeItems]

omit [LinearOrder κ] in
theorem sizeMembers_eq {ms : List (σ × Json σ ν)} {ts : List (σ × List α)}
    (h : List.Forall₂ (fun m t => m.1 = t.1 ∧ L.of t.2 = w.size L m.2) ms ts) :
    (ts.map fun t => L.of (w.quote t.1 ++ ascii ':' :: t.2) + 1).sum = w.sizeMembers L ms := by
  induction h with
  | nil => rfl
  | cons hmt _ ih =>
    rw [List.map_cons, List.sum_cons, ih, L.split _ _ _ (by decide), hmt.2, ← hmt.1, sizeMembers]

/-- The text of a value is as long as its parts make it. -/
theorem of_append {v : Json σ ν} {t : List α} (h : w.append v = some t) : L.of t = w.size L v := by
  induction v using Json.induct generalizing t with
  | null =>
    obtain rfl := Option.some.inj h
    exact L.asciiText ['n', 'u', 'l', 'l'] (by simp)
  | bool b =>
    cases b with
    | false =>
      obtain rfl := Option.some.inj h
      exact L.asciiText ['f', 'a', 'l', 's', 'e'] (by simp)
    | true =>
      obtain rfl := Option.some.inj h
      exact L.asciiText ['t', 'r', 'u', 'e'] (by simp)
  | num n =>
    have hnumber : w.number n = some t := h
    rw [size, numberSize, hnumber]
    rfl
  | str s =>
    obtain rfl := Option.some.inj h
    rfl
  | arr vs ih =>
    obtain ⟨ts, hts, rfl⟩ := append_arr h
    rw [L.brackets (by decide) (by decide), size, sizeItems_eq]
    exact List.forall₂_iff_zip.2 ⟨hts.length_eq, fun {v u} hvu =>
      ih v (List.of_mem_zip hvu).1 ((List.forall₂_iff_zip.1 hts).2 hvu)⟩
  | obj ms ih =>
    obtain ⟨ts, hts, rfl⟩ := append_obj h
    rw [L.brackets (by decide) (by decide), size, List.map_map]
    -- The sum does not depend on the order.
    have hperm := ((@sortMembers_perm _ _ _ _ w.key ts).map
      fun t : σ × List α => L.of (w.quote t.1 ++ ascii ':' :: t.2) + 1).sum_nat
    refine congrArg (1 + max 1 ·) (hperm.trans (sizeMembers_eq ?_))
    exact List.forall₂_iff_zip.2 ⟨hts.length_eq, fun {m u} hmu =>
      ⟨((List.forall₂_iff_zip.1 hts).2 hmu).1,
        ih m (List.of_mem_zip hmu).1 ((List.forall₂_iff_zip.1 hts).2 hmu).2⟩⟩

end Writer

end Json
