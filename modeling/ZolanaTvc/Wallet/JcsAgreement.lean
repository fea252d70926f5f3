import ZolanaTvc.Protocol.Canonical
import ZolanaTvc.Wallet.Jcs

/-!
# The two canonicalizers agree

The Rust and the TypeScript canonicalizer write one text for a JSON value whose numbers are integers
that binary64 tells apart, and accept the same texts that hold only such numbers.

## Main results

* `canonicalize_agree`: one value, one text.
* `isRfc8785_agree`: the same texts are accepted.
-/

namespace ZolanaTvc.Wallet

open Except Json Protocol Serde

/-- The integers that are safe in JavaScript. -/
def IsSafe (n : ℤ) : Prop := |n| ≤ 2 ^ 53 - 1

instance : DecidablePred IsSafe := fun n => inferInstanceAs (Decidable (|n| ≤ 2 ^ 53 - 1))

theorem IsSafe.lt {n : ℤ} (h : IsSafe n) : |n| < 2 ^ 53 := by
  unfold IsSafe at h
  omega

theorem IsSafe.le {n : ℤ} (h : IsSafe n) : |n| ≤ 2 ^ 53 := Binary64.le_of_lt_pow h.lt

/-- The number of a Rust value is a safe integer. -/
def SafeNumber : Serde.Number → Prop
  | .int n _ => IsSafe n
  | .float _ => False

/-- The values all of whose numbers are safe integers. -/
def SafeValue (v : Value) : Prop := v.All (fun _ => True) SafeNumber fun _ => True

/-- The number that the client holds for one of the enclave's. -/
def JsNumber.ofNumber : Serde.Number → JsNumber
  | .int n _ => ofNumeral (.ofInt n)
  | .float x => .finite x

/-- The value that the client holds for one of the enclave's. -/
def ofValue (v : Value) : JsValue := v.map utf16Units JsNumber.ofNumber

section Numbers

theorem ofNumeral_ofInt {n : ℤ} (h : IsSafe n) :
    ofNumeral (.ofInt n) = .finite (Binary64.ofInt n h.le) := by
  rw [ofNumeral, Numeral.value_ofInt, Binary64.round_intCast h.le]

theorem ofInteger_of_safe {n : ℤ} (h : IsSafe n) : Numeral.ofInteger n = .ofInt n := by
  refine if_pos ?_
  have hlt : n.natAbs < 10 ^ 21 := by
    have habs := h.lt
    rw [Int.abs_eq_natAbs] at habs
    omega
  unfold digitsOf
  split_ifs with hzero
  · exact Nat.one_le_ofNat
  · rw [List.length_reverse, List.length_map]
    exact (Nat.digits_length_le_iff (by norm_num) _).2 hlt

/-- A safe integer is written out. -/
theorem numeral_of_safe {n : ℤ} (h : IsSafe n) :
    (JsNumber.finite (Binary64.ofInt n h.le)).numeral = some (.ofInt n) := by
  have hden : (Binary64.ofInt n h.le).value.den = 1 := Rat.den_intCast n
  rw [JsNumber.numeral, if_pos hden, Binary64.shortest_ofInt h.lt, ofInteger_of_safe h]

/-- A number that is written as a safe integer is that integer. -/
theorem eq_of_numeral {x : JsNumber} {m : Numeral} {n : ℤ} (hx : x.numeral = some m)
    (hm : m.value = n) (hn : IsSafe n) : x = .finite (Binary64.ofInt n hn.le) := by
  have hread := JsNumber.ofNumeral_numeral x m hx
  rw [ofNumeral, hm, Binary64.round_intCast hn.le] at hread
  exact hread.symm

end Numbers

section Strings

theorem transcodes_encode : Transcodes Utf16.encode where
  append _ _ := List.flatMap_append
  ascii c hc := by
    have hbmp : c.toNat < 0x10000 := by omega
    show Utf16.encode [c] = _
    rw [Utf16.encode, List.flatMap_singleton, Utf16.units, if_pos hbmp]
    rfl

theorem jsonUnit_escaped : ∀ n : Fin 93,
    (Utf16.units (Char.ofNat n.val)).flatMap jsonUnit = Utf16.encode (jsonChar (Char.ofNat n.val)) := by
  decide +kernel

theorem jsonUnit_plain {u : UInt16} (hu : 93 ≤ u.toNat) : jsonUnit u = [u] := by
  rw [← print_pieceOf, pieceOf, dif_pos (isPlain_iff.2 (by omega))]
  rfl

theorem jsonUnit_units (c : Char) :
    (Utf16.units c).flatMap jsonUnit = Utf16.encode (jsonChar c) := by
  by_cases hc : c.toNat < 93
  · have hescaped := jsonUnit_escaped ⟨c.toNat, hc⟩
    rwa [Char.ofNat_toNat] at hescaped
  · have hchar : jsonChar c = [c] := by
      rw [← Protocol.print_pieceOf, Protocol.pieceOf, dif_pos (Protocol.isPlain_iff.2 (by omega))]
      rfl
    have hvalid := Utf16.toNat_valid c
    rw [hchar, Utf16.encode, List.flatMap_singleton]
    unfold Utf16.units
    split_ifs with hbmp
    · rw [List.flatMap_singleton, jsonUnit_plain (by rw [Utf16.toNat_ofNat hbmp]; omega)]
    · rw [List.flatMap_cons, List.flatMap_singleton,
        jsonUnit_plain (by rw [Utf16.toNat_ofNat (by omega)]; omega),
        jsonUnit_plain (by rw [Utf16.toNat_ofNat (by omega)]; omega)]
      rfl

/-- Both canonicalizers write a string alike. -/
theorem appendJsonString_utf16Units (s : String) :
    appendJsonString (utf16Units s) = Utf16.encode (Protocol.appendJsonString s) := by
  have hchars : (Utf16.encode s.toList).flatMap jsonUnit =
      Utf16.encode (s.toList.flatMap jsonChar) := by
    rw [Utf16.encode, Utf16.encode, List.flatMap_assoc, List.flatMap_assoc]
    refine List.flatMap_congr fun c _ => ?_
    rw [jsonUnit_units c]
    rfl
  have hquote := transcodes_encode.cons (by decide : '"'.toNat < 128)
    (s.toList.flatMap jsonChar ++ ['"'])
  rw [transcodes_encode.append, ← hchars] at hquote
  exact hquote.symm

end Strings

section Values

theorem append_ofValue {v : Value} (hv : SafeValue v) :
    jcs.append (ofValue v) = (Protocol.jcs.append v).map Utf16.encode := by
  refine Writer.append_map transcodes_encode appendJsonString_utf16Units (fun n hn => ?_)
    (fun _ => rfl) hv
  cases n with
  | float x => exact hn.elim
  | int n h =>
    have hn : IsSafe n := hn
    show ((JsNumber.ofNumber (.int n h)).numeral).map Numeral.print = _
    rw [JsNumber.ofNumber, ofNumeral_ofInt hn, numeral_of_safe hn]
    exact congrArg some (transcodes_encode.numeral _).symm

theorem floatFree_of_safe {v : Value} (hv : SafeValue v) : FloatFree v := by
  refine hv.mono (fun _ _ => trivial) (fun n hn => ?_) fun _ _ => trivial
  cases n with
  | float x => exact hn.elim
  | int n h => rfl

/-- Both canonicalizers write one text for a value, in whatever order the client holds the members. -/
theorem canonicalize_agree {v : Value} (hdistinct : v.Distinct) (hsafe : SafeValue v) {w : JsValue}
    (hw : Reorder (ofValue v) w) :
    ∃ t, Protocol.canonicalizeJsonValue v = some t ∧ canonicalizeJsonValue w = .ok (utf16Units t) := by
  obtain ⟨t, ht⟩ := exists_canonicalize_iff.2 (floatFree_of_safe hsafe)
  have hrust := Protocol.canonicalizeJsonValue_eq_some.1 ht
  have happend : jcs.append (ofValue v) = some (utf16Units t) := by
    rw [append_ofValue hsafe, hrust]
    rfl
  refine ⟨t, ht, canonicalizeJsonValue_eq_ok.2 ?_⟩
  exact jcs.append_of_reorder Function.injective_id ((distinct_map utf16Units_injective).2 hdistinct)
    hw happend

end Values

section Texts

theorem jsonUnit_ascii : ∀ n : Fin 93, ((jsonUnit (UInt16.ofNat n.val)).all fun u =>
    !Utf16.isHigh u && !Utf16.isLow u) = true := by
  decide +kernel

theorem jsonUnit_ne_nil (u : UInt16) : jsonUnit u ≠ [] := by
  unfold jsonUnit
  split_ifs <;> simp [asciiText]

theorem isSome_decode_scalars {l : JsString}
    (hl : ∀ u ∈ l, Utf16.isHigh u = false ∧ Utf16.isLow u = false) (s : JsString) :
    (Utf16.decode (l ++ s)).isSome = (Utf16.decode s).isSome := by
  induction l with
  | nil => rfl
  | cons u l ih =>
    obtain ⟨⟨hhigh, hlow⟩, hl⟩ := List.forall_mem_cons.1 hl
    rw [List.cons_append, Utf16.decode_scalar hhigh hlow, Option.isSome_map, ih hl]

/-- A unit is a surrogate alone, or is written with no surrogate. -/
theorem jsonUnit_cases (u : UInt16) :
    jsonUnit u = [u] ∨ Utf16.isHigh u = false ∧ Utf16.isLow u = false ∧
      ∀ x ∈ jsonUnit u, Utf16.isHigh x = false ∧ Utf16.isLow x = false := by
  by_cases hu : 93 ≤ u.toNat
  · exact .inl (jsonUnit_plain hu)
  · have hascii := jsonUnit_ascii ⟨u.toNat, by omega⟩
    rw [UInt16.ofNat_toNat] at hascii
    refine .inr ⟨?_, ?_, by simpa using hascii⟩
    · rw [Bool.eq_false_iff, ne_eq, Utf16.isHigh_iff]
      omega
    · rw [Bool.eq_false_iff, ne_eq, Utf16.isLow_iff]
      omega

theorem jsonUnit_high {u : UInt16} (hu : Utf16.isHigh u = true) : jsonUnit u = [u] := by
  rcases jsonUnit_cases u with h | ⟨h, -, -⟩
  · exact h
  · rw [hu] at h
    exact absurd h (by decide)

theorem jsonUnit_low {u : UInt16} (hu : Utf16.isLow u = true) : jsonUnit u = [u] := by
  rcases jsonUnit_cases u with h | ⟨-, h, -⟩
  · exact h
  · rw [hu] at h
    exact absurd h (by decide)

/-- Only a string of characters is written with characters. -/
theorem isSome_decode_of_escaped {k : JsString}
    (h : (Utf16.decode (k.flatMap jsonUnit)).isSome = true) : (Utf16.decode k).isSome = true := by
  -- The cases of the decoder: an end, a high surrogate alone, a pair, a high one without its low
  -- one, a low one, a character.
  induction k using Utf16.decode.induct with
  | case1 => rfl
  | case2 u hu =>
    rw [List.flatMap_singleton, jsonUnit_high hu] at h
    exact h
  | case3 u hu v s hv ih =>
    rw [List.flatMap_cons, List.flatMap_cons, jsonUnit_high hu, jsonUnit_low hv,
      List.singleton_append, List.singleton_append, Utf16.decode_pair hu hv, Option.isSome_map] at h
    rw [Utf16.decode_pair hu hv, Option.isSome_map]
    exact ih h
  | case4 u hu v s hv =>
    rw [List.flatMap_cons, List.flatMap_cons, jsonUnit_high hu, List.singleton_append] at h
    have hhead : ∀ x t, Utf16.isLow x = false → Utf16.decode (u :: x :: t) = none := by
      intro x t hx
      rw [Utf16.decode.eq_def]
      simp [hu, hx]
    -- What follows the high surrogate is `v` itself or an ASCII escape, and neither completes the
    -- pair.
    rcases jsonUnit_cases v with hsingle | ⟨-, -, hascii⟩
    · rw [hsingle, List.singleton_append, hhead _ _ (Bool.not_eq_true _ ▸ hv)] at h
      exact absurd h (by decide)
    · cases hunit : jsonUnit v with
      | nil => exact absurd hunit (jsonUnit_ne_nil v)
      | cons x t =>
        rw [hunit, List.cons_append, hhead _ _ (hascii x (hunit ▸ List.mem_cons_self)).2] at h
        exact absurd h (by decide)
  | case5 u s hu hu' =>
    rw [List.flatMap_cons, jsonUnit_low hu', List.singleton_append, Utf16.decode.eq_def] at h
    simp [hu, hu'] at h
  | case6 u s hu hu' ih =>
    rw [Bool.not_eq_true] at hu hu'
    rw [Utf16.decode_scalar hu hu', Option.isSome_map]
    refine ih ?_
    rw [List.flatMap_cons] at h
    rcases jsonUnit_cases u with hsingle | ⟨-, -, hascii⟩
    · rwa [hsingle, List.singleton_append, Utf16.decode_scalar hu hu', Option.isSome_map] at h
    · rwa [isSome_decode_scalars hascii] at h

theorem isSome_decode_of_quote {k s : JsString} (hk : appendJsonString k <:+: s)
    (hs : (Utf16.decode s).isSome = true) : (Utf16.decode k).isSome = true := by
  obtain ⟨a, b, rfl⟩ := hk
  obtain ⟨cs, hcs⟩ := Option.isSome_iff_exists.1 hs
  have hquote : Utf16.isHigh (CodeUnit.ascii '"') = false ∧ Utf16.isLow (CodeUnit.ascii '"') = false :=
    ⟨rfl, rfl⟩
  have hsplit : a ++ appendJsonString k ++ b =
      a ++ CodeUnit.ascii '"' :: (k.flatMap jsonUnit ++ CodeUnit.ascii '"' :: b) := by
    simp [appendJsonString, asciiText]
  rw [hsplit] at hcs
  obtain ⟨cs', hcs'⟩ := Option.isSome_iff_exists.1 (Utf16.decode_append hquote.1 hquote.2 hcs).2
  exact isSome_decode_of_escaped (Utf16.decode_append hquote.1 hquote.2 hcs').1

/-- The numerals of a text denote safe integers. -/
def SafeNumeral (m : Numeral) : Prop := ∃ n : ℤ, m.value = n ∧ IsSafe n

/-- A text that nests no deeper than serde_json reads, and whose numbers denote safe integers. -/
def SafeText (t : String) : Prop :=
  ∀ d u, Json.parse d (utf16Units t) = some u →
    u.depth ≤ recursionLimit ∧ u.All (fun _ => True) SafeNumeral fun _ => True

/-- The members of an object, refused when one is named twice. -/
def ifDistinct (ms : List (JsString × Json JsString Serde.Number)) :
    Option (List (JsString × Json JsString Serde.Number)) :=
  if (ms.map Prod.fst).Nodup then some ms else none

theorem ifDistinct_eq_some {ms ns : List (JsString × Json JsString Serde.Number)} :
    ifDistinct ms = some ns ↔ (ms.map Prod.fst).Nodup ∧ ms = ns := by
  rw [ifDistinct, Option.ite_none_right_eq_some, Option.some.injEq]

theorem ifDistinct_perm (ms : List (JsString × Json JsString Serde.Number))
    (h : (ms.map Prod.fst).Nodup) : ∃ ns, ifDistinct ms = some ns ∧ ns.Perm ms :=
  ⟨ms, if_pos h, List.Perm.refl ms⟩

theorem nodup_of_ifDistinct (ms ns : List (JsString × Json JsString Serde.Number))
    (h : ifDistinct ms = some ns) : (ns.map Prod.fst).Nodup := by
  obtain ⟨hnodup, rfl⟩ := ifDistinct_eq_some.1 h
  exact hnodup

theorem subset_of_ifDistinct (ms ns : List (JsString × Json JsString Serde.Number))
    (h : ifDistinct ms = some ns) : ns ⊆ ms := by
  obtain ⟨-, rfl⟩ := ifDistinct_eq_some.1 h
  exact List.Subset.refl _

theorem some_unescape (value : JsString) : some (unescape (value.map pieceOf)) = some value :=
  congrArg some (unescape_pieces value)

/-- The enclave's values, with strings and texts of code units. -/
def unitsFormat : Format UInt16 JsString Serde.Number (List UInt16) where
  quote := appendJsonString
  number n := n.numeral.map Numeral.print
  key k := k
  unescape ps := some (unescape ps)
  ofNumeral := Number.ofNumeral
  arrange := ifDistinct
  escape value := value.map pieceOf
  quote_eq := appendJsonString_eq
  unescape_escape := some_unescape
  numeral := Number.numeral
  number_eq _ := rfl
  ofNumeral_numeral := Number.ofNumeral_numeral
  arrange_perm := ifDistinct_perm
  nodup_of_arrange := nodup_of_ifDistinct
  subset_of_arrange := subset_of_ifDistinct

theorem safeNumber_of_numeral {n : Serde.Number} (hn : n.numeral.isSome = true)
    (hsafe : ∀ m ∈ n.numeral, SafeNumeral m) : SafeNumber n := by
  cases n with
  | float x => exact absurd hn (by simp [Number.numeral])
  | int n h =>
    obtain ⟨k, hk, hsafe⟩ := hsafe _ rfl
    rw [Numeral.value_ofInt] at hk
    obtain rfl : n = k := by exact_mod_cast hk
    exact hsafe

/-- Every number of a value that is written as a safe text is a safe integer. -/
theorem safeValue_of_safeText {t : String} (ht : SafeText t) {v : Value}
    (h : Protocol.canonicalizeJsonValue v = some t) : SafeValue v := by
  have hfree : FloatFree v := exists_canonicalize_iff.1 ⟨t, h⟩
  have hnumber : ∀ n : Serde.Number, n.numeral.isSome = true →
      unitsFormat.number (id n) = (Protocol.jcs.number n).map Utf16.encode := by
    intro n hn
    cases n with
    | float x => exact absurd hn (by simp [Number.numeral])
    | int n h =>
      show some (Numeral.ofInt n).print = some (Utf16.encode (Numeral.ofInt n).print)
      rw [transcodes_encode.numeral]
  have happend : unitsFormat.append (v.map utf16Units id) = some (utf16Units t) := by
    rw [Writer.append_map transcodes_encode appendJsonString_utf16Units hnumber (fun _ => rfl) hfree,
      Protocol.canonicalizeJsonValue_eq_some.1 h]
    rfl
  obtain ⟨u, hu, hprint⟩ := Format.append_eq_some_iff.1 happend
  obtain ⟨-, hnumerals⟩ := ht u.depth u (by rw [← hprint]; exact parse_print u le_rfl)
  rw [Format.all_tree hu, all_map] at hnumerals
  exact (hfree.and hnumerals).mono (fun _ _ => trivial)
    (fun n hn => safeNumber_of_numeral hn.1 hn.2) fun _ _ => trivial

/-- A value that is written as a text of characters with safe numbers is one of the enclave's. -/
theorem exists_ofValue {t : String} (ht : SafeText t) {w : JsValue}
    (h : jcs.append w = some (utf16Units t)) :
    ∃ v : Value, ofValue v = w ∧ SafeValue v ∧ w.depth ≤ recursionLimit := by
  obtain ⟨u, hu, hprint⟩ := Format.append_eq_some_iff.1 h
  obtain ⟨hdepth, hnumerals⟩ := ht u.depth u (by rw [← hprint]; exact parse_print u le_rfl)
  rw [Format.all_tree hu] at hnumerals
  have hdecode : (Utf16.decode (utf16Units t)).isSome = true := by
    rw [utf16Units, Utf16.decode_encode]
    rfl
  have hnumbers := Format.isSome_append.1 (Option.isSome_of_eq_some h)
  obtain ⟨v, hv, hsafe⟩ := exists_map (f := utf16Units) (g := JsNumber.ofNumber) (P := SafeNumber)
    (((Writer.quote_infix h).and (hnumbers.and hnumerals)).mono
      (fun k hk => by
        obtain ⟨cs, hcs⟩ := Option.isSome_iff_exists.1 (isSome_decode_of_quote hk.1 hdecode)
        refine ⟨String.ofList cs, ?_⟩
        rw [utf16Units, String.toList_ofList]
        exact Utf16.encode_of_decode hcs)
      (fun x hx => by
        obtain ⟨m, hm⟩ := Option.isSome_iff_exists.1 hx.2.1
        obtain ⟨n, hn, hsafe⟩ := hx.2.2 m hm
        have hrange := hsafe.lt
        refine ⟨.int n (by rw [abs_lt] at hrange; omega), hsafe, ?_⟩
        rw [JsNumber.ofNumber, ofNumeral_ofInt hsafe, eq_of_numeral hm hn hsafe])
      fun _ _ => trivial)
  exact ⟨v, hv, hsafe, Format.depth_le_of_tree hu hdepth⟩

/-- Both sides accept the same texts. -/
theorem isRfc8785_agree {t : String} (ht : SafeText t) :
    isRfc8785 (utf16Units t) = Protocol.isRfc8785 t := by
  rw [Bool.eq_iff_iff, isRfc8785_iff, Protocol.isRfc8785_iff]
  constructor
  · rintro ⟨w, hdistinct, hw⟩
    rw [canonicalizeJsonValue_eq_ok] at hw
    obtain ⟨v, rfl, hsafe, hdepth⟩ := exists_ofValue ht hw
    rw [append_ofValue hsafe] at hw
    obtain ⟨s, hs, hencode⟩ := Option.map_eq_some_iff.1 hw
    obtain rfl := Utf16.encode_injective hencode
    exact ⟨v, (distinct_map utf16Units_injective).1 hdistinct, floatFree_of_safe hsafe,
      depth_map_le.1 hdepth, Protocol.canonicalizeJsonValue_eq_some.2 hs⟩
  · rintro ⟨v, hdistinct, -, hdepth, hv⟩
    have hsafe := safeValue_of_safeText ht hv
    obtain ⟨t', ht', hjs⟩ := canonicalize_agree hdistinct hsafe (Reorder.refl _)
    obtain rfl : t' = t := Option.some.inj (ht'.symm.trans hv)
    exact ⟨ofValue v, (distinct_map utf16Units_injective).2 hdistinct, hjs⟩

end Texts

end ZolanaTvc.Wallet
