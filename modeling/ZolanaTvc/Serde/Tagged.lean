import ZolanaTvc.Serde.Struct

/-!
# Internally tagged enums

A variant is written as an object with its tag among its fields. The reader looks for the tag in an
object, or takes the first item of an array, and reads the variant from the rest, which it has
buffered.
-/

namespace Serde

open Json

/-- The variants of an internally tagged enum, by their tags. What is decoded is the content: the
object without its tag, or the array without its first item. -/
structure Variants (T : Type) where
  tags : List String
  nodup : tags.Nodup
  tag : T → String
  tag_mem : ∀ x, tag x ∈ tags
  /-- The names of the fields of all variants. -/
  names : List String
  encode : T → List (String × Value)
  decode : String → Value → Option T
  emitted : String → (String → Option Value) → Prop
  norm : T → T
  names_encode : ∀ x, (encode x).map Prod.fst ⊆ names
  distinct_encode : ∀ x, (Json.obj (encode x) : Value).Distinct
  tag_of_decode : ∀ t v x, decode t v = some x → tag x = t
  reorder_encode_iff : ∀ t ms x, (Json.obj ms : Value).Distinct → decode t (.obj ms) = some x →
    (Reorder (.obj ms) (.obj (encode x)) ↔ emitted t (get ms))
  norm_eq_iff : ∀ x y, norm x = norm y ↔
    tag x = tag y ∧ Reorder (.obj (encode x)) (.obj (encode y))
  decode_of_reorder : ∀ x ms, (Json.obj ms : Value).Distinct →
    Reorder (.obj (encode x)) (.obj ms) → ∃ y, decode (tag x) (.obj ms) = some y ∧ norm y = norm x

namespace Variants

variable {A B : Type}

def done : Variants Empty where
  tags := []
  nodup := Fields.nodup_nil
  tag := Empty.elim
  tag_mem x := x.elim
  names := []
  encode := Empty.elim
  decode _ _ := none
  emitted _ _ := True
  norm x := x
  names_encode x := x.elim
  distinct_encode x := x.elim
  tag_of_decode _ _ x := x.elim
  reorder_encode_iff _ _ x := x.elim
  norm_eq_iff x := x.elim
  decode_of_reorder x := x.elim

theorem tag_ne (vs : Variants B) {name : String} (hname : name ∉ vs.tags) (x : B) :
    vs.tag x ≠ name :=
  fun heq => hname (heq ▸ vs.tag_mem x)

/-- A struct variant. -/
def variant (name : String) (fs : Fields A) (vs : Variants B)
    (hname : name ∉ vs.tags := by decide) : Variants (A ⊕ B) where
  tags := name :: vs.tags
  nodup := List.nodup_cons.2 ⟨hname, vs.nodup⟩
  tag := Sum.elim (fun _ => name) vs.tag
  tag_mem
    | .inl _ => List.mem_cons_self
    | .inr x => List.mem_cons_of_mem _ (vs.tag_mem x)
  names := fs.names ++ vs.names
  encode := Sum.elim fs.encode vs.encode
  decode t v := if t = name then (fs.decode .content v).map .inl else (vs.decode t v).map .inr
  emitted t g := if t = name then fs.emitted .content g else vs.emitted t g
  norm := Sum.map fs.norm vs.norm
  names_encode
    | .inl x => fun _ h => List.mem_append_left _ ((fs.names_encode x).subset h)
    | .inr x => fun _ h => List.mem_append_right _ (vs.names_encode x h)
  distinct_encode
    | .inl x => Fields.obj_distinct_encode x
    | .inr x => vs.distinct_encode x
  tag_of_decode t v x h := by
    split_ifs at h with ht
    · obtain ⟨a, -, rfl⟩ := Option.map_eq_some_iff.1 h
      exact ht.symm
    · obtain ⟨b, hb, rfl⟩ := Option.map_eq_some_iff.1 h
      exact vs.tag_of_decode t v b hb
  reorder_encode_iff t ms x hms h := by
    split_ifs at h with ht
    · obtain ⟨a, ha, rfl⟩ := Option.map_eq_some_iff.1 h
      rw [if_pos ht]
      exact Fields.obj_reorder_encode_iff hms ha
    · obtain ⟨b, hb, rfl⟩ := Option.map_eq_some_iff.1 h
      rw [if_neg ht]
      exact vs.reorder_encode_iff t ms b hms hb
  norm_eq_iff
    | .inl x, .inl y => by simp [Fields.obj_norm_eq_iff]
    | .inr x, .inr y => by simp [vs.norm_eq_iff]
    | .inl x, .inr y => iff_of_false (by simp) fun h => vs.tag_ne hname y h.1.symm
    | .inr x, .inl y => iff_of_false (by simp) fun h => vs.tag_ne hname x h.1
  decode_of_reorder
    | .inl x, ms, hms, h => by
      obtain ⟨y, hy, hnorm⟩ := Fields.decode_of_obj_reorder .content hms h
      exact ⟨.inl y, by simp [hy], congrArg Sum.inl hnorm⟩
    | .inr x, ms, hms, h => by
      obtain ⟨y, hy, hnorm⟩ := vs.decode_of_reorder x ms hms h
      exact ⟨.inr y, by simp [vs.tag_ne hname x, hy], congrArg Sum.inr hnorm⟩

/-- A unit variant. Its object may hold other members, which are ignored. -/
def unit (name : String) (vs : Variants B) (hname : name ∉ vs.tags := by decide) :
    Variants (Unit ⊕ B) where
  tags := name :: vs.tags
  nodup := List.nodup_cons.2 ⟨hname, vs.nodup⟩
  tag := Sum.elim (fun _ => name) vs.tag
  tag_mem
    | .inl _ => List.mem_cons_self
    | .inr x => List.mem_cons_of_mem _ (vs.tag_mem x)
  names := vs.names
  encode := Sum.elim (fun _ => []) vs.encode
  decode t v :=
    if t = name then
      match v with
      | .obj _ => some (.inl ())
      | .arr [] => some (.inl ())
      | _ => none
    else (vs.decode t v).map .inr
  emitted t g := if t = name then ∀ k, g k = none else vs.emitted t g
  norm := Sum.map id vs.norm
  names_encode
    | .inl _ => List.nil_subset _
    | .inr x => vs.names_encode x
  distinct_encode
    | .inl _ => distinct_obj.2 ⟨.nil, by simp⟩
    | .inr x => vs.distinct_encode x
  tag_of_decode t v x h := by
    split_ifs at h with ht
    · split at h
      any_goals obtain rfl := Option.some.inj h; exact ht.symm
      simp at h
    · obtain ⟨b, hb, rfl⟩ := Option.map_eq_some_iff.1 h
      exact vs.tag_of_decode t v b hb
  reorder_encode_iff t ms x hms h := by
    split_ifs at h with ht
    · obtain rfl := Option.some.inj h
      rw [if_pos ht, Sum.elim_inl, reorder_obj_iff_lookup (distinct_obj.1 hms).1 (by simp)]
      exact forall_congr' fun k => rel_none_iff
    · obtain ⟨b, hb, rfl⟩ := Option.map_eq_some_iff.1 h
      rw [if_neg ht]
      exact vs.reorder_encode_iff t ms b hms hb
  norm_eq_iff
    | .inl _, .inl _ => iff_of_true rfl ⟨rfl, .refl _⟩
    | .inr x, .inr y => by simp [vs.norm_eq_iff]
    | .inl _, .inr y => iff_of_false (by simp) fun h => vs.tag_ne hname y h.1.symm
    | .inr x, .inl _ => iff_of_false (by simp) fun h => vs.tag_ne hname x h.1
  decode_of_reorder
    | .inl _, ms, _, _ => ⟨.inl (), by simp, rfl⟩
    | .inr x, ms, hms, h => by
      obtain ⟨y, hy, hnorm⟩ := vs.decode_of_reorder x ms hms h
      exact ⟨.inr y, by simp [vs.tag_ne hname x, hy], congrArg Sum.inr hnorm⟩

/-- The variant that a tag names: by its name or, in buffered content, by its place. -/
def tagName (s : Source) (vs : Variants A) (v : Value) : Option String :=
  match s, v with
  | _, .str t => if t ∈ vs.tags then some t else none
  | .content, .num (.int n _) => if 0 ≤ n then vs.tags[n.toNat]? else none
  | _, _ => none

/-- An object without one of its members. -/
def without (name : String) (ms : List (String × Value)) : List (String × Value) :=
  ms.filter fun m => m.1 ≠ name

theorem lookup_without (name : String) (ms : List (String × Value)) (k : String) :
    (without name ms).lookup k = if k = name then none else ms.lookup k :=
  lookup_filter_ne name ms k

theorem distinct_without {name : String} {ms : List (String × Value)}
    (h : (Json.obj ms : Value).Distinct) : (Json.obj (without name ms) : Value).Distinct := by
  obtain ⟨hnodup, hdistinct⟩ := distinct_obj.1 h
  refine distinct_obj.2 ⟨hnodup.sublist (List.filter_sublist.map _), fun m hm => ?_⟩
  exact hdistinct m (List.mem_of_mem_filter hm)

/-- The tagged object that a content and its tag make. -/
theorem reorder_tagged_iff {name : String} {ms ns : List (String × Value)} {w : Value}
    (hms : (Json.obj ms : Value).Distinct) (hns : (Json.obj ns : Value).Distinct)
    (hname : name ∉ ns.map Prod.fst) :
    Reorder (.obj ms) (.obj ((name, w) :: ns)) ↔
      Option.Rel Reorder (get ms name) (some w) ∧
        Reorder (.obj (without name ms)) (.obj ns) := by
  have hcons : (((name, w) :: ns).map Prod.fst).Nodup :=
    List.nodup_cons.2 ⟨hname, (distinct_obj.1 hns).1⟩
  have hnone : ns.lookup name = none :=
    List.lookup_eq_none_iff.2 fun m hm =>
      bne_iff_ne.2 fun heq => hname (List.mem_map.2 ⟨m, hm, heq.symm⟩)
  rw [reorder_obj_iff_lookup (distinct_obj.1 hms).1 hcons,
    reorder_obj_iff_lookup (distinct_obj.1 (distinct_without hms)).1 (distinct_obj.1 hns).1]
  refine ⟨fun h => ⟨by simpa using h name, fun k => ?_⟩, fun h k => ?_⟩
  · rw [lookup_without]
    by_cases hk : k = name
    · rw [if_pos hk, hk, hnone]
      exact .none
    · simpa [hk, List.lookup_cons, beq_false_of_ne hk] using h k
  · by_cases hk : k = name
    · simpa [hk] using h.1
    · simpa [lookup_without, hk, List.lookup_cons, beq_false_of_ne hk] using h.2 k

theorem without_cons_self {name : String} {w : Value} {ns : List (String × Value)}
    (hname : name ∉ ns.map Prod.fst) : without name ((name, w) :: ns) = ns := by
  rw [without, List.filter_cons_of_neg (by simp), List.filter_eq_self]
  intro m hm
  exact decide_eq_true fun heq => hname (List.mem_map.2 ⟨m, hm, heq⟩)

theorem distinct_tagged {name t : String} {ns : List (String × Value)}
    (hns : (Json.obj ns : Value).Distinct) (hname : name ∉ ns.map Prod.fst) :
    (Json.obj ((name, .str t) :: ns) : Value).Distinct := by
  obtain ⟨hnodup, hdistinct⟩ := distinct_obj.1 hns
  exact distinct_obj.2
    ⟨List.nodup_cons.2 ⟨hname, hnodup⟩, List.forall_mem_cons.2 ⟨.str trivial, hdistinct⟩⟩

theorem tagName_str {s : Source} {vs : Variants A} {t t' : String}
    (h : vs.tagName s (.str t') = some t) : t' = t := by
  cases s <;> simp only [tagName, Option.ite_none_right_eq_some, Option.some.injEq] at h <;>
    exact h.2

/-- An internally tagged enum. -/
def tagged (name : String) (vs : Variants A) {T : Type} (e : T ≃ A)
    (hname : name ∉ vs.names := by decide) : Codec T :=
  Codec.map {
    encode := fun x => .obj ((name, .str (vs.tag x)) :: vs.encode x)
    decode := fun s v =>
      match v with
      | .obj ms =>
        ((get ms name).bind (vs.tagName s)).bind fun t => vs.decode t (.obj (without name ms))
      | .arr (t :: ws) => (vs.tagName s t).bind fun t => vs.decode t (.arr ws)
      | _ => none
    emitted := fun _ v => ∃ ms t, v = .obj ms ∧ get ms name = some (.str t) ∧
      vs.emitted t (get (without name ms))
    norm := vs.norm
    distinct_encode := fun x =>
      distinct_tagged (vs.distinct_encode x) fun h => hname (vs.names_encode x h)
    reorder_encode_iff := fun s v x hv h => by
      cases v with
      | obj ms =>
        obtain ⟨t, ht, hx⟩ := Option.bind_eq_some_iff.1 h
        obtain ⟨w, hw, ht⟩ := Option.bind_eq_some_iff.1 ht
        have htag := vs.tag_of_decode t _ x hx
        rw [reorder_tagged_iff hv (vs.distinct_encode x) fun h => hname (vs.names_encode x h),
          vs.reorder_encode_iff t _ x (distinct_without hv) hx, htag, hw, Option.rel_some_some,
          reorder_str_iff]
        refine ⟨fun ⟨hstr, hemitted⟩ => ⟨ms, t, rfl, hstr ▸ hw, hemitted⟩, ?_⟩
        rintro ⟨ms, t', ⟨⟩, hget, hemitted⟩
        obtain rfl : w = .str t' := Option.some.inj (hw.symm.trans hget)
        obtain rfl : t' = t := tagName_str ht
        exact ⟨rfl, hemitted⟩
      | _ => exact iff_of_false (fun h => by cases h) (by simp)
    norm_eq_iff := fun x y => by
      have hx : name ∉ (vs.encode x).map Prod.fst := fun h => hname (vs.names_encode x h)
      have hy : name ∉ (vs.encode y).map Prod.fst := fun h => hname (vs.names_encode y h)
      rw [vs.norm_eq_iff, reorder_tagged_iff (distinct_tagged (vs.distinct_encode x) hx)
        (vs.distinct_encode y) hy, without_cons_self hx]
      simp [get]
    decode_of_reorder := fun s x v hv h => by
      cases v with
      | obj ms =>
        have hx : name ∉ (vs.encode x).map Prod.fst := fun h => hname (vs.names_encode x h)
        have htagged := distinct_tagged (t := vs.tag x) (vs.distinct_encode x) hx
        obtain ⟨htag, hrest⟩ :=
          (reorder_tagged_iff hv (vs.distinct_encode x) hx).1 (reorder_symm htagged h)
        obtain ⟨y, hy, hnorm⟩ := vs.decode_of_reorder x (without name ms) (distinct_without hv)
          (reorder_symm (distinct_without hv) hrest)
        cases hget : get ms name with
        | none => rw [hget] at htag; cases htag
        | some w =>
          obtain rfl : w = .str (vs.tag x) := by simpa [hget] using htag
          have htag' : vs.tagName s (.str (vs.tag x)) = some (vs.tag x) := by
            cases s <;> exact if_pos (vs.tag_mem x)
          refine ⟨y, ?_, hnorm⟩
          change ((get ms name).bind (vs.tagName s)).bind _ = some y
          rw [hget, Option.bind_some, htag', Option.bind_some, hy]
      | _ => cases h } e

section Decode

variable {T : Type} {name t : String} {s : Source} {ms : List (String × Value)}

/-- An object is read as the variant that its tag names. -/
theorem decode_of_tagged {vs : Variants A} {e : T ≃ A} {hname : name ∉ vs.names} {x : T}
    (htag : get ms name = some (.str t)) (h : (tagged name vs e hname).decode s (.obj ms) = some x) :
    vs.decode t (.obj (without name ms)) = some (e x) := by
  obtain ⟨a, ha, rfl⟩ := Option.map_eq_some_iff.1 h
  obtain ⟨t', ht', ha⟩ := Option.bind_eq_some_iff.1 ha
  rw [htag, Option.bind_some] at ht'
  obtain rfl := tagName_str ht'
  rw [e.apply_symm_apply]
  exact ha

theorem decode_variant {fs : Fields A} {vs : Variants B} {hname : name ∉ vs.tags} {x : A ⊕ B}
    (h : (variant name fs vs hname).decode name (.obj ms) = some x) :
    ∃ a, x = .inl a ∧ fs.decodeNamed .content (get ms) = some a := by
  have hdecode : (fs.decode .content (.obj ms)).map Sum.inl = some x := by
    rw [← h]
    exact (if_pos rfl).symm
  obtain ⟨a, ha, rfl⟩ := Option.map_eq_some_iff.1 hdecode
  exact ⟨a, rfl, (Option.ite_none_right_eq_some.1 ha).2⟩

theorem decode_variant_of_ne {fs : Fields A} {vs : Variants B} {hname : name ∉ vs.tags} {x : A ⊕ B}
    (hne : t ≠ name) (h : (variant name fs vs hname).decode t (.obj ms) = some x) :
    ∃ b, x = .inr b ∧ vs.decode t (.obj ms) = some b := by
  have hdecode : (vs.decode t (.obj ms)).map Sum.inr = some x := by
    rw [← h]
    exact (if_neg hne).symm
  obtain ⟨b, hb, rfl⟩ := Option.map_eq_some_iff.1 hdecode
  exact ⟨b, rfl, hb⟩

theorem decode_unit_of_ne {vs : Variants B} {hname : name ∉ vs.tags} {x : Unit ⊕ B}
    (hne : t ≠ name) (h : (unit name vs hname).decode t (.obj ms) = some x) :
    ∃ b, x = .inr b ∧ vs.decode t (.obj ms) = some b := by
  have hdecode : (vs.decode t (.obj ms)).map Sum.inr = some x := by
    rw [← h]
    exact (if_neg hne).symm
  obtain ⟨b, hb, rfl⟩ := Option.map_eq_some_iff.1 hdecode
  exact ⟨b, rfl, hb⟩

end Decode

end Variants

end Serde
