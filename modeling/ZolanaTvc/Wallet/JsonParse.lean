import Mathlib.Data.List.Lemmas
import ZolanaTvc.Json.Binary64
import ZolanaTvc.Json.Canonical
import ZolanaTvc.Json.Extent
import ZolanaTvc.Wallet.Text

/-!
# `JSON.parse`

The values that the platform's `JSON.parse` makes: strings of code units, binary64 numbers, and objects
that keep the last value given for a name, in the platform's order of property keys.
-/

namespace ZolanaTvc.Wallet

open Json

/-- A number that a JSON text can denote. -/
inductive JsNumber where
  | finite (x : Binary64)
  | infinite (negative : Bool)
deriving DecidableEq

abbrev JsValue := Json JsString JsNumber

section Properties

/-- Defines a property; a name keeps the place it was first given. -/
def defineProperty (k : JsString) (v : JsValue) : List (JsString × JsValue) → List (JsString × JsValue)
  | [] => [(k, v)]
  | m :: ms => if m.1 = k then (k, v) :: ms else m :: defineProperty k v ms

/-- The array index that a property key is. -/
def arrayIndex (k : JsString) : Option ℕ :=
  ((digitsIn 10 k).map (ofDigits 10)).filter fun n => n < 2 ^ 32 - 1 ∧ printDigits (digitsOf n) = k

/-- The own properties of an object as `Object.keys` lists them: array indices first. -/
def ownProperties (ms : List (JsString × JsValue)) : List (JsString × JsValue) :=
  (ms.filter fun m => (arrayIndex m.1).isSome).insertionSort
      (fun m n => (arrayIndex m.1).getD 0 ≤ (arrayIndex n.1).getD 0) ++
    ms.filter fun m => !(arrayIndex m.1).isSome

/-- The object that members with these names and values make, in the order of the text. -/
def ofMembers (ms : List (JsString × JsValue)) : List (JsString × JsValue) :=
  ownProperties (ms.foldl (fun ps m => defineProperty m.1 m.2 ps) [])

theorem ownProperties_perm (ms : List (JsString × JsValue)) : (ownProperties ms).Perm ms :=
  ((List.perm_insertionSort _ _).append_right _).trans (List.filter_append_perm _ ms)

theorem names_defineProperty (k : JsString) (v : JsValue) (ps : List (JsString × JsValue)) :
    (defineProperty k v ps).map Prod.fst =
      if k ∈ ps.map Prod.fst then ps.map Prod.fst else ps.map Prod.fst ++ [k] := by
  induction ps with
  | nil => simp [defineProperty]
  | cons m ps ih =>
    rw [defineProperty]
    by_cases hk : m.1 = k
    · simp [hk]
    · rw [if_neg hk, List.map_cons, ih]
      have hne : ¬k = m.1 := fun h => hk h.symm
      by_cases hmem : k ∈ ps.map Prod.fst
      · rw [if_pos hmem, if_pos (by simp [hmem]), List.map_cons]
      · rw [if_neg hmem, if_neg (by simpa [hne] using hmem), List.map_cons, List.cons_append]

theorem defineProperty_subset (k : JsString) (v : JsValue) (ps : List (JsString × JsValue)) :
    defineProperty k v ps ⊆ (k, v) :: ps := by
  induction ps with
  | nil => exact List.Subset.refl _
  | cons m ps ih =>
    rw [defineProperty]
    intro n hn
    split_ifs at hn with hk
    · rcases List.mem_cons.1 hn with rfl | hn
      · exact List.mem_cons_self
      · exact List.mem_cons_of_mem _ (List.mem_cons_of_mem _ hn)
    · rcases List.mem_cons.1 hn with rfl | hn
      · exact List.mem_cons_of_mem _ List.mem_cons_self
      · rcases List.mem_cons.1 (ih hn) with rfl | hn
        · exact List.mem_cons_self
        · exact List.mem_cons_of_mem _ (List.mem_cons_of_mem _ hn)

/-- A new name is put at the end. -/
theorem defineProperty_of_fresh {k : JsString} {v : JsValue} {ps : List (JsString × JsValue)}
    (h : k ∉ ps.map Prod.fst) : defineProperty k v ps = ps ++ [(k, v)] := by
  induction ps with
  | nil => rfl
  | cons m ps ih =>
    rw [List.map_cons, List.mem_cons, not_or] at h
    rw [defineProperty, if_neg fun hk => h.1 hk.symm, ih h.2, List.cons_append]

theorem foldl_defineProperty_nodup (ms : List (JsString × JsValue)) {ps : List (JsString × JsValue)}
    (h : (ps.map Prod.fst).Nodup) :
    ((ms.foldl (fun ps m => defineProperty m.1 m.2 ps) ps).map Prod.fst).Nodup := by
  induction ms generalizing ps with
  | nil => exact h
  | cons m ms ih =>
    refine ih ?_
    rw [names_defineProperty]
    split_ifs with hmem
    · exact h
    · exact List.nodup_append.2 ⟨h, List.nodup_singleton _, fun a ha b hb hab =>
        hmem (by obtain rfl := List.mem_singleton.1 hb; exact hab ▸ ha)⟩

theorem foldl_defineProperty_subset (ms ps : List (JsString × JsValue)) :
    ms.foldl (fun ps m => defineProperty m.1 m.2 ps) ps ⊆ ms ++ ps := by
  induction ms generalizing ps with
  | nil => exact List.Subset.refl _
  | cons m ms ih =>
    intro n hn
    rcases List.mem_append.1 (ih _ hn) with hn | hn
    · exact List.mem_cons_of_mem _ (List.mem_append_left _ hn)
    · rcases List.mem_cons.1 (defineProperty_subset m.1 m.2 ps hn) with rfl | hn
      · exact List.mem_cons_self
      · exact List.mem_cons_of_mem _ (List.mem_append_right _ hn)

theorem foldl_defineProperty_of_nodup {ms ps : List (JsString × JsValue)}
    (h : ((ps ++ ms).map Prod.fst).Nodup) :
    ms.foldl (fun ps m => defineProperty m.1 m.2 ps) ps = ps ++ ms := by
  induction ms generalizing ps with
  | nil => simp
  | cons m ms ih =>
    have hfresh : m.1 ∉ ps.map Prod.fst := by
      rw [List.map_append, List.nodup_append] at h
      exact fun hm => h.2.2 _ hm _ List.mem_cons_self rfl
    rw [List.foldl_cons, defineProperty_of_fresh hfresh, ih (by simpa using h)]
    simp

/-- Members without a repeated name make an object of just these. -/
theorem ofMembers_perm {ms : List (JsString × JsValue)} (h : (ms.map Prod.fst).Nodup) :
    (ofMembers ms).Perm ms := by
  have hfold := @foldl_defineProperty_of_nodup ms [] h
  rw [ofMembers, hfold]
  exact ownProperties_perm ms

theorem nodup_ofMembers (ms : List (JsString × JsValue)) : ((ofMembers ms).map Prod.fst).Nodup :=
  ((ownProperties_perm _).map Prod.fst).nodup_iff.2 (foldl_defineProperty_nodup ms List.nodup_nil)

theorem ofMembers_subset (ms : List (JsString × JsValue)) : ofMembers ms ⊆ ms := by
  intro m hm
  have hmem := foldl_defineProperty_subset ms [] ((ownProperties_perm _).subset hm)
  rwa [List.append_nil] at hmem

end Properties

/-- The code units that the pieces of a string stand for. -/
def unescape (ps : List (Piece UInt16)) : JsString :=
  ps.map fun
    | .lit u => u.val
    | .esc v => v

def ofNumeral (n : Numeral) : JsNumber :=
  match Binary64.round n.value with
  | some x => .finite x
  | none => .infinite n.negative

def jsReader : Reader UInt16 JsString JsNumber where
  unescape ps := some (unescape ps)
  ofNumeral n := some (ofNumeral n)
  arrange ms := some (ofMembers ms)

/-- `JSON.parse`; `none` is its `SyntaxError`. -/
def jsonParse (text : JsString) : Option JsValue :=
  (Json.parse text.length text).bind jsReader.read

theorem isSome_read (t : Json.Tree UInt16) : (jsReader.read t).isSome = true := by
  induction t using Json.induct with
  | arr ts ih =>
    rw [Reader.read, Reader.readItems_eq, Option.isSome_map, isSome_mapM]
    exact ih
  | obj ms ih =>
    rw [Reader.read, Reader.readMembers_eq, Option.isSome_map]
    have hmembers : (ms.mapM fun m => (jsReader.unescape m.1).bind fun k =>
        (jsReader.read m.2).map fun v => (k, v)).isSome = true := by
      rw [isSome_mapM]
      intro m hm
      obtain ⟨v, hv⟩ := Option.isSome_iff_exists.1 (ih m hm)
      rw [hv]
      rfl
    obtain ⟨ns, hns⟩ := Option.isSome_iff_exists.1 hmembers
    rw [hns]
    rfl
  | _ => rfl

/-- `JSON.parse` accepts the texts of the grammar. -/
theorem isSome_jsonParse {text : JsString} :
    (jsonParse text).isSome = true ↔ ∃ d t, Json.parse d text = some t := by
  have hlength : ∀ t, Json.parse text.length text = some t ↔ ∃ d, Json.parse d text = some t :=
    fun t => parse_length_iff
  rw [exists_comm, ← exists_congr hlength, jsonParse]
  cases hparse : Json.parse text.length text with
  | none => simp
  | some t => simpa using isSome_read t

end ZolanaTvc.Wallet
