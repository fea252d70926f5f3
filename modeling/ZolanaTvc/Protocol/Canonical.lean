import ZolanaTvc.Protocol.Encoding

/-!
# The canonical texts

What `canonicalize_json_value` writes and `is_rfc8785` accepts, against the grammar of RFC 8785.

## Main results

* `parse_canonicalize`: the canonical text of a value parses to it.
* `canonicalize_eq_iff`: two values have one canonical text if and only if they are reorderings.
* `jcsText_of_canonicalize`: a canonical text is in the grammar.
* `isRfc8785_iff`: the texts accepted are the canonical texts of values.
-/

namespace ZolanaTvc.Protocol

open Json Serde

/-- The characters that are escaped by one character after the backslash. -/
def shortEscapes : List (Char × Char) :=
  [('"', '"'), ('\\', '\\'), (Char.ofNat 0x08, 'b'), (Char.ofNat 0x0c, 'f'), ('\n', 'n'),
    ('\r', 'r'), ('\t', 't')]

/-- How RFC 8785 spells a character inside a string. -/
inductive SpellsChar : Char → List Char → Prop where
  | plain {c : Char} : 0x20 ≤ c.toNat → c ≠ '"' → c ≠ '\\' → SpellsChar c [c]
  | short {c e : Char} : (c, e) ∈ shortEscapes → SpellsChar c ['\\', e]
  | control {c : Char} {high low : Fin 16} : c.toNat < 0x20 → (∀ e, (c, e) ∉ shortEscapes) →
      c.toNat = high.val * 16 + low.val →
      SpellsChar c ['\\', 'u', '0', '0', hexChar high, hexChar low]

inductive Spells : List Char → List Char → Prop where
  | nil : Spells [] []
  | cons {c : Char} {cs s t : List Char} : SpellsChar c s → Spells cs t → Spells (c :: cs) (s ++ t)

/-- The texts of RFC 8785 whose numbers are integers: no whitespace, and the members of every object
in strictly ascending order of the UTF-16 code units of their names. -/
inductive JcsText : List Char → Prop where
  | null : JcsText ['n', 'u', 'l', 'l']
  | true : JcsText ['t', 'r', 'u', 'e']
  | false : JcsText ['f', 'a', 'l', 's', 'e']
  | int (n : ℤ) : JcsText (Numeral.ofInt n).print
  | str {cs s : List Char} : Spells cs s → JcsText ('"' :: (s ++ ['"']))
  | arr {ts : List (List Char)} : (∀ t ∈ ts, JcsText t) → JcsText ('[' :: (joinComma ts ++ [']']))
  | obj {names : List String} {ts : List (List Char × List Char)} :
      names.Pairwise (fun k l => utf16Units k < utf16Units l) →
      List.Forall₂ (fun k t => Spells k.toList t.1) names ts → (∀ t ∈ ts, JcsText t.2) →
      JcsText ('{' :: (joinComma (ts.map fun t => '"' :: (t.1 ++ '"' :: ':' :: t.2)) ++ ['}']))

/-- No number of the value is a binary64 value. -/
def FloatFree (v : Value) : Prop :=
  v.All (fun _ => True) (fun n => n.numeral.isSome) fun _ => True

instance : DecidablePred FloatFree := fun v =>
  inferInstanceAs (Decidable (v.All (fun _ => True) (fun n => n.numeral.isSome) fun _ => True))

theorem spellsChar_jsonChar (c : Char) : SpellsChar c (jsonChar c) := by
  have hshort : ∀ e, (c, e) ∈ shortEscapes → SpellsChar c ['\\', e] := fun e he => .short he
  unfold jsonChar
  split_ifs with h1 h2 h3 h4 h5 h6 h7 h8
  · exact hshort _ (by simp [shortEscapes, h1])
  · exact hshort _ (by simp [shortEscapes, h2])
  · exact hshort _ (by simp [shortEscapes, h3])
  · exact hshort _ (by simp [shortEscapes, h4])
  · exact hshort _ (by simp [shortEscapes, h5])
  · exact hshort _ (by simp [shortEscapes, h6])
  · exact hshort _ (by simp [shortEscapes, h7])
  · refine .control h8 (fun e he => ?_) (by simp only; omega)
    simp only [shortEscapes, List.mem_cons, Prod.mk.injEq, List.not_mem_nil, or_false] at he
    tauto
  · exact .plain (Nat.not_lt.1 h8) h1 h2

theorem spells_jsonChars (cs : List Char) : Spells cs (cs.flatMap jsonChar) := by
  induction cs with
  | nil => exact .nil
  | cons c cs ih => exact .cons (spellsChar_jsonChar c) ih

theorem jcsText_of_append {v : Value} (hv : v.Distinct) {s : List Char}
    (h : jcsWriter.append v = some s) : JcsText s := by
  induction v using Json.induct generalizing s with
  | null => obtain rfl := Option.some.inj h; exact .null
  | bool b =>
    cases b <;> obtain rfl := Option.some.inj h
    · exact .false
    · exact .true
  | num n =>
    cases n with
    | int n _ => obtain rfl := Option.some.inj h; exact .int n
    | float x => cases h
  | str k => obtain rfl := Option.some.inj h; exact .str (spells_jsonChars k.toList)
  | arr vs ih =>
    obtain ⟨ts, hts, rfl⟩ := Writer.append_arr h
    refine .arr fun t ht => ?_
    obtain ⟨v, hvs, hvt⟩ := exists_mem_left hts ht
    exact ih v hvs (distinct_arr.1 hv v hvs) hvt
  | obj ms ih =>
    obtain ⟨ts, hts, rfl⟩ := Writer.append_obj h
    obtain ⟨hnodup, hdistinct⟩ := distinct_obj.1 hv
    have hnames : ms.map Prod.fst = ts.map Prod.fst := by
      rw [← List.forall₂_eq_eq_eq, List.forall₂_map_left_iff, List.forall₂_map_right_iff]
      exact hts.imp fun _ _ h => h.1
    -- The writer sorts the members by the UTF-16 units of their names, which are distinct.
    have hascending := sortMembers_pairwise_lt utf16Units_injective (hnames ▸ hnodup)
    have htexts := @JcsText.obj ((sortMembers utf16Units ts).map Prod.fst)
      ((sortMembers utf16Units ts).map fun m => (m.1.toList.flatMap jsonChar, m.2))
      (List.pairwise_map.2 hascending)
      (by
        rw [List.forall₂_map_left_iff, List.forall₂_map_right_iff, List.forall₂_same]
        exact fun m _ => spells_jsonChars m.1.toList)
      (fun t ht => by
        obtain ⟨m, hm, rfl⟩ := List.mem_map.1 ht
        obtain ⟨n, hn, hnm⟩ := exists_mem_left hts (mem_sortMembers.1 hm)
        exact ih n hn (hdistinct n hn) hnm.2)
    rw [List.map_map] at htexts
    simpa [Function.comp_def, jcsWriter, appendJsonString, CodeUnit.ascii] using htexts

theorem canonicalizeJsonValue_eq_some {v : Value} {t : String} :
    canonicalizeJsonValue v = some t ↔ jcs.append v = some t.toList := by
  rw [canonicalizeJsonValue, Option.map_eq_some_iff]
  refine ⟨fun ⟨s, hs, ht⟩ => ?_, fun h => ⟨t.toList, h, String.ofList_toList⟩⟩
  rw [← ht, String.toList_ofList]
  exact hs

/-- The canonical text of a value is in the grammar of RFC 8785. -/
theorem jcsText_of_canonicalize {v : Value} (hv : v.Distinct) {t : String}
    (h : canonicalizeJsonValue v = some t) : JcsText t.toList :=
  jcsText_of_append hv (canonicalizeJsonValue_eq_some.1 h)

/-- The values that have a canonical text are those without binary64 numbers. -/
theorem exists_canonicalize_iff {v : Value} :
    (∃ t, canonicalizeJsonValue v = some t) ↔ FloatFree v := by
  have happend : (jcs.append v).isSome ↔ FloatFree v := Format.isSome_append
  rw [← happend, Option.isSome_iff_exists]
  refine ⟨fun ⟨t, ht⟩ => ⟨_, canonicalizeJsonValue_eq_some.1 ht⟩, fun ⟨s, hs⟩ => ?_⟩
  exact ⟨String.ofList s, by rw [canonicalizeJsonValue_eq_some, String.toList_ofList, hs]⟩

theorem canonicalize_eq_iff {v w : Value} (hv : v.Distinct) (hw : w.Distinct)
    (hfv : FloatFree v) (hfw : FloatFree w) :
    canonicalizeJsonValue v = canonicalizeJsonValue w ↔ Reorder v w := by
  obtain ⟨t, ht⟩ := exists_canonicalize_iff.2 hfv
  obtain ⟨u, hu⟩ := exists_canonicalize_iff.2 hfw
  rw [ht, hu, Option.some.injEq, ← String.toList_inj]
  exact jcs.append_eq_iff utf16Units_injective hv hw (canonicalizeJsonValue_eq_some.1 ht)
    (canonicalizeJsonValue_eq_some.1 hu)

theorem canonicalize_of_reorder {v w : Value} (hv : v.Distinct) (h : Reorder v w) {t : String}
    (ht : canonicalizeJsonValue v = some t) : canonicalizeJsonValue w = some t := by
  rw [canonicalizeJsonValue_eq_some] at ht ⊢
  exact jcs.append_of_reorder utf16Units_injective hv h ht

theorem strictValue_eq (t : String) :
    strictValue t = jcs.strictParse recursionLimit t.toList :=
  rfl

theorem strictValue_canonicalize {v : Value} (hv : v.Distinct) (hd : v.depth ≤ recursionLimit)
    {t : String} (ht : canonicalizeJsonValue v = some t) :
    ∃ w, strictValue t = some w ∧ Reorder v w :=
  jcs.strictParse_append hv hd (canonicalizeJsonValue_eq_some.1 ht)

theorem distinct_of_strictValue {t : String} {v : Value} (h : strictValue t = some v) :
    v.Distinct ∧ v.depth ≤ recursionLimit := by
  obtain ⟨u, hu, hread⟩ := Option.bind_eq_some_iff.1 h
  obtain ⟨hdistinct, hdepth⟩ := Format.distinct_of_read (F := jcs) hread
  exact ⟨hdistinct, hdepth _ (depth_parse hu)⟩

/-- The members of every object that is read are in the order of a `BTreeMap`. -/
theorem sortBy_of_read {t : Json.Tree Char} {v : Value} (h : jcs.read t = some v) :
    v.sortBy String.toList = v := by
  induction t using Json.induct generalizing v with
  | null => obtain rfl := Option.some.inj h; rfl
  | bool b => obtain rfl := Option.some.inj h; rfl
  | num n => obtain ⟨m, -, rfl⟩ := Option.map_eq_some_iff.1 h; rfl
  | str s => obtain ⟨m, -, rfl⟩ := Option.map_eq_some_iff.1 h; rfl
  | arr ts ih =>
    rw [Reader.read, Reader.readItems_eq] at h
    obtain ⟨vs, hvs, rfl⟩ := Option.map_eq_some_iff.1 h
    rw [sortBy_arr, Json.arr.injEq]
    refine (List.map_congr_left fun v hv => ?_).trans (List.map_id vs)
    obtain ⟨t, ht, htv⟩ := exists_mem_left (mapM_eq_some_iff.1 hvs) hv
    exact ih t ht htv
  | obj ms ih =>
    obtain ⟨ns, ns', hread, harrange, rfl⟩ := Format.read_obj h
    obtain ⟨hnodup, rfl⟩ := strictObject_eq_some harrange
    have hvalues : (sortMembers String.toList ns).map (Prod.map id (sortBy String.toList)) =
        sortMembers String.toList ns := by
      refine (List.map_congr_left fun n hn => ?_).trans (List.map_id _)
      obtain ⟨m, hm, hmn⟩ := exists_mem_left hread (mem_sortMembers.1 hn)
      exact Prod.ext rfl (ih m hm hmn.2)
    rw [sortBy_obj, hvalues, sortMembers_of_pairwise
      (sortMembers_pairwise_lt toList_injective hnodup)]

/-- The value that is read off the canonical text of a value. -/
theorem strictValue_of_canonicalize {v : Value} (hv : v.Distinct) (hd : v.depth ≤ recursionLimit)
    {t : String} (ht : canonicalizeJsonValue v = some t) :
    strictValue t = some (v.sortBy String.toList) := by
  obtain ⟨w, hw, hreorder⟩ := strictValue_canonicalize hv hd ht
  obtain ⟨u, -, hread⟩ := Option.bind_eq_some_iff.1 hw
  rw [hw, hreorder.sortBy_eq toList_injective hv, sortBy_of_read hread]

theorem isRfc8785_iff_canonical {t : String} :
    isRfc8785 t = true ↔ jcs.IsCanonical recursionLimit t.toList := by
  have hcanonicalize : canonicalizeJsonStr t = some t ↔ jcs.IsCanonical recursionLimit t.toList := by
    rw [canonicalizeJsonStr, Format.IsCanonical, ← strictValue_eq]
    cases strictValue t with
    | none => simp
    | some v => exact canonicalizeJsonValue_eq_some
  rw [← hcanonicalize, isRfc8785]
  cases canonicalizeJsonStr t <;> simp

/-- The texts accepted as RFC 8785 are the canonical texts of values. -/
theorem isRfc8785_iff {t : String} :
    isRfc8785 t = true ↔ ∃ v : Value, v.Distinct ∧ FloatFree v ∧ v.depth ≤ recursionLimit ∧
      canonicalizeJsonValue v = some t := by
  rw [isRfc8785_iff_canonical, Format.isCanonical_iff jcs utf16Units_injective]
  refine ⟨fun ⟨v, hv, hd, h⟩ => ?_, fun ⟨v, hv, _, hd, h⟩ =>
    ⟨v, hv, hd, canonicalizeJsonValue_eq_some.1 h⟩⟩
  have ht := canonicalizeJsonValue_eq_some.2 h
  exact ⟨v, hv, exists_canonicalize_iff.1 ⟨t, ht⟩, hd, ht⟩

/-- A text accepted as RFC 8785 parses to a value whose canonical text it is. -/
theorem isRfc8785_iff_strictValue {t : String} {v : Value} (h : strictValue t = some v) :
    isRfc8785 t = true ↔ canonicalizeJsonValue v = some t := by
  rw [isRfc8785, canonicalizeJsonStr, h, Option.bind_some]
  cases canonicalizeJsonValue v <;> simp

/-- The canonicalizer is correct: its texts parse to their values and spell these in the one way of
RFC 8785, and the texts accepted as canonical are its texts. -/
theorem canonicalizer_correct :
    (∀ v : Document, FloatFree v.val → v.val.depth ≤ recursionLimit →
      ∃ t w, canonicalizeJsonValue v.val = some t ∧
        parseStrictJson Codec.document t = some w ∧ Reorder v.val w.val) ∧
    (∀ v w : Document, FloatFree v.val → FloatFree w.val →
      (canonicalizeJsonValue v.val = canonicalizeJsonValue w.val ↔ Reorder v.val w.val)) ∧
    (∀ (v : Document) (t : String), canonicalizeJsonValue v.val = some t → JcsText t.toList) ∧
    (∀ t : String, isRfc8785 t = true ↔ ∃ v : Document, FloatFree v.val ∧
      v.val.depth ≤ recursionLimit ∧ canonicalizeJsonValue v.val = some t) := by
  refine ⟨fun v hv hd => ?_, fun v w => canonicalize_eq_iff v.property w.property,
    fun v t => jcsText_of_canonicalize v.property, fun t => ?_⟩
  · obtain ⟨t, ht⟩ := exists_canonicalize_iff.2 hv
    obtain ⟨w, hw, hreorder⟩ := strictValue_canonicalize v.property hd ht
    refine ⟨t, ⟨w, (distinct_of_strictValue hw).1⟩, ht, ?_, hreorder⟩
    rw [parseStrictJson, hw, Option.bind_some]
    exact dif_pos (distinct_of_strictValue hw).1
  · rw [isRfc8785_iff]
    exact ⟨fun ⟨v, hv, hf, hd, ht⟩ => ⟨⟨v, hv⟩, hf, hd, ht⟩,
      fun ⟨v, hf, hd, ht⟩ => ⟨v.val, v.property, hf, hd, ht⟩⟩

end ZolanaTvc.Protocol
