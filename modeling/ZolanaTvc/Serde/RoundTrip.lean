import ZolanaTvc.Serde.Tagged

/-!
# Encoding then decoding

A value that a text can be written for and read back from has no binary64 number and is nested no
deeper than the reader goes; `Fits` says when the encodings of a combinator are such values. A reader
keeps the members of an object in the order of a map; `Exact` says that what is decoded from there is
what was encoded, its free-form documents in that order.
-/

namespace Serde

open Json

/-- No number of the value is a binary64 value, and it is nested at most `n` deep. -/
structure Within (n : ℕ) (v : Value) : Prop where
  integral : v.All (fun _ => True) (fun m => m.numeral.isSome) fun _ => True
  depth_le : v.depth ≤ n

section Values

variable {n : ℕ}

@[simp] theorem within_null : Within n .null := ⟨.null, Nat.zero_le n⟩

@[simp] theorem within_str {s : String} : Within n (.str s) := ⟨.str trivial, Nat.zero_le n⟩

@[simp] theorem within_int {z : ℤ} {hz : -2 ^ 63 ≤ z ∧ z < 2 ^ 64} : Within n (.num (.int z hz)) :=
  ⟨.num rfl, Nat.zero_le n⟩

theorem within_arr {vs : List Value} : Within (n + 1) (.arr vs) ↔ ∀ v ∈ vs, Within n v := by
  constructor
  · intro h v hv
    exact ⟨all_arr.1 h.integral v hv, depth_arr_le.1 h.depth_le v hv⟩
  · intro h
    exact ⟨.arr fun v hv => (h v hv).integral, depth_arr_le.2 fun v hv => (h v hv).depth_le⟩

theorem within_obj {ms : List (String × Value)} :
    Within (n + 1) (.obj ms) ↔ ∀ m ∈ ms, Within n m.2 := by
  constructor
  · intro h m hm
    exact ⟨(all_obj.1 h.integral).2.2 m hm, depth_obj_le.1 h.depth_le m hm⟩
  · intro h
    exact ⟨.obj trivial (fun _ _ => trivial) fun m hm => (h m hm).integral,
      depth_obj_le.2 fun m hm => (h m hm).depth_le⟩

end Values

variable {T A B : Type} {n : ℕ}

namespace Codec

/-- The encoding of `x` nests at most `n` deep. -/
def Fits (c : Codec T) (n : ℕ) (x : T) : Prop := Within n (c.encode x)

@[simp] theorem fits_ofText {print : T → String} {parse : String → Option T}
    {h : ∀ x, parse (print x) = some x} {h' : ∀ s x, parse s = some x → print x = s} {x : T} :
    (ofText print parse h h').Fits n x :=
  within_str

@[simp] theorem fits_string {x : String} : string.Fits n x := within_str

@[simp] theorem fits_unsigned {bound : ℕ} {hbound : bound ≤ 2 ^ 64} {e : T ≃ Fin bound} {x : T} :
    (unsigned bound hbound e).Fits n x :=
  within_int

@[simp] theorem fits_unitEnum {name : T → String} {all : List T} {hall : ∀ x, x ∈ all}
    {hname : Function.Injective name} {x : T} : (unitEnum name all hall hname).Fits n x :=
  within_str

@[simp] theorem fits_list {c : Codec T} {xs : List T} :
    c.list.Fits (n + 1) xs ↔ ∀ x ∈ xs, c.Fits n x := by
  rw [Fits, list, within_arr, List.forall_mem_map]
  rfl

@[simp] theorem fits_option {c : Codec T} {hnull : ∀ s, c.decode s .null = none} {x : Option T} :
    (c.option hnull).Fits n x ↔ ∀ y ∈ x, c.Fits n y := by
  cases x with
  | none => exact iff_of_true within_null (by simp)
  | some y => simp [Fits, option]

theorem fits_document {d : Document} : document.Fits n d ↔ Within n d.val := Iff.rfl

end Codec

namespace Fields

/-- The values of the fields nest at most `n` deep. -/
def Fits (fs : Fields A) (n : ℕ) (x : A) : Prop := ∀ m ∈ fs.encode x, Within n m.2

@[simp] theorem fits_done {x : Unit} : done.Fits n x := by simp [Fits, done]

@[simp] theorem fits_field {name : String} {c : Codec A} {fs : Fields B} {hname : name ∉ fs.names}
    {x : A × B} : (field name c fs hname).Fits n x ↔ c.Fits n x.1 ∧ fs.Fits n x.2 :=
  List.forall_mem_cons

@[simp] theorem fits_optional {name : String} {c : Codec A} {hnull : ∀ s, c.decode s .null = none}
    {fs : Fields B} {hname : name ∉ fs.names} {x : Option A × B} :
    (optional name c hnull fs hname).Fits n x ↔ (∀ a ∈ x.1, c.Fits n a) ∧ fs.Fits n x.2 := by
  obtain ⟨_ | a, b⟩ := x
  · simp [Fits, optional]
  · simp [Fits, optional, Codec.Fits]

@[simp] theorem fits_struct {fs : Fields A} {e : T ≃ A} {x : T} :
    (struct fs e).Fits (n + 1) x ↔ fs.Fits n (e x) :=
  within_obj

end Fields

namespace Variants

/-- The values of the fields of the variant nest at most `n` deep. -/
def Fits (vs : Variants A) (n : ℕ) (x : A) : Prop := ∀ m ∈ vs.encode x, Within n m.2

@[simp] theorem fits_variant_inl {name : String} {fs : Fields A} {vs : Variants B}
    {hname : name ∉ vs.tags} {x : A} : (variant name fs vs hname).Fits n (.inl x) ↔ fs.Fits n x :=
  Iff.rfl

@[simp] theorem fits_variant_inr {name : String} {fs : Fields A} {vs : Variants B}
    {hname : name ∉ vs.tags} {x : B} : (variant name fs vs hname).Fits n (.inr x) ↔ vs.Fits n x :=
  Iff.rfl

@[simp] theorem fits_unit_inl {name : String} {vs : Variants B} {hname : name ∉ vs.tags}
    {x : Unit} : (unit name vs hname).Fits n (.inl x) := by
  simp [Fits, unit]

@[simp] theorem fits_unit_inr {name : String} {vs : Variants B} {hname : name ∉ vs.tags} {x : B} :
    (unit name vs hname).Fits n (.inr x) ↔ vs.Fits n x :=
  Iff.rfl

@[simp] theorem fits_tagged {name : String} {vs : Variants A} {e : T ≃ A} {hname : name ∉ vs.names}
    {x : T} : (tagged name vs e hname).Fits (n + 1) x ↔ vs.Fits n (e x) := by
  refine within_obj.trans ?_
  rw [List.forall_mem_cons]
  exact and_iff_right within_str

end Variants

section Exact

theorem reorder_sortBy {v : Value} (h : v.Distinct) : Reorder v (v.sortBy String.toList) := by
  rw [reorder_iff_sortBy toList_injective h]
  exact (sortBy_sortBy toList_injective h).symm

/-- The members of an object as a map keeps them. -/
abbrev sortValues (ms : List (String × Value)) : List (String × Value) :=
  ms.map (Prod.map id (Json.sortBy String.toList))

theorem names_sortValues (ms : List (String × Value)) :
    (sortValues ms).map Prod.fst = ms.map Prod.fst := by
  simp

theorem lookup_sortValues (ms : List (String × Value)) (k : String) :
    (sortValues ms).lookup k = (ms.lookup k).map (Json.sortBy String.toList) := by
  induction ms with
  | nil => rfl
  | cons m ms ih =>
    obtain ⟨l, v⟩ := m
    rw [sortValues, List.map_cons, Prod.map_apply, List.lookup_cons, List.lookup_cons]
    cases hkl : k == id l with
    | true => rw [show (k == l) = true from hkl]; rfl
    | false => rw [show (k == l) = false from hkl]; exact ih

/-- The encoding, as a map keeps it, decodes to the value with its documents in that order. -/
def Codec.Exact (c : Codec T) : Prop :=
  ∀ s x, c.decode s ((c.encode x).sortBy String.toList) = some (c.norm x)

/-- A type that holds no free-form document. -/
theorem Codec.exact_of_norm_eq {c : Codec T} (h : ∀ x, c.norm x = x) : c.Exact := by
  intro s x
  have hx := c.distinct_encode x
  obtain ⟨y, hy, hnorm⟩ := c.decode_of_reorder s x _ hx.sortBy (reorder_sortBy hx)
  rw [hy, ← hnorm, h y]

theorem Codec.exact_document : document.Exact := by
  intro s d
  exact dif_pos d.property.sortBy

/-- The fields out of an object whose members are encoded as a map keeps them. -/
def Fields.Exact (fs : Fields A) : Prop :=
  ∀ s x g, (∀ k ∈ fs.names, g k = ((fs.encode x).lookup k).map (Json.sortBy String.toList)) →
    fs.decodeNamed s g = some (fs.norm x)

theorem Fields.exact_done : done.Exact := fun _ _ _ _ => rfl

theorem Fields.Exact.field {name : String} {c : Codec A} {fs : Fields B} (hc : c.Exact)
    (hfs : fs.Exact) {hname : name ∉ fs.names} : (field name c fs hname).Exact := by
  intro s x g hg
  obtain ⟨hfirst, hrest⟩ := List.forall_mem_cons.1 hg
  have hfields : fs.decodeNamed s g = some (fs.norm x.2) := by
    refine hfs s x.2 g fun k hk => ?_
    rw [hrest k hk]
    exact congrArg _ (lookup_cons_of_mem hname hk (c.encode x.1) (fs.encode x.2))
  have hvalue : g name = some ((c.encode x.1).sortBy String.toList) :=
    hfirst.trans (congrArg _ List.lookup_cons_self)
  show ((g name).bind (c.decode s)).bind _ = _
  rw [hvalue, Option.bind_some, hc s x.1, Option.bind_some, hfields]
  rfl

theorem Fields.Exact.of_perm {fs : Fields A} (h : fs.Exact) (s : Source) {x : A}
    {ms : List (String × Value)} (hms : ms.Perm (sortValues (fs.encode x))) :
    fs.decode s (.obj ms) = some (fs.norm x) := by
  have hnames := hms.map Prod.fst
  rw [names_sortValues] at hnames
  have hsubset : ms.map Prod.fst ⊆ fs.names :=
    List.Subset.trans hnames.subset (fs.names_encode x).subset
  rw [decode, if_pos hsubset]
  refine h s x _ fun k _ => ?_
  rw [← lookup_sortValues]
  exact lookup_eq_of_perm (hnames.nodup_iff.2 (fs.nodup_encode x)) hms k

theorem Codec.Exact.struct {fs : Fields A} (h : fs.Exact) (e : T ≃ A) :
    (Fields.struct fs e).Exact := by
  intro s x
  show (fs.decode s ((Json.obj (fs.encode (e x))).sortBy String.toList)).map e.symm = _
  rw [sortBy_obj, h.of_perm s (sortMembers_perm _)]
  rfl

/-- A variant out of an object whose members are encoded as a map keeps them. -/
def Variants.Exact (vs : Variants A) : Prop :=
  ∀ x ms, ms.Perm (sortValues (vs.encode x)) → vs.decode (vs.tag x) (.obj ms) = some (vs.norm x)

theorem Variants.exact_done : done.Exact := fun x => x.elim

theorem Variants.Exact.variant {name : String} {fs : Fields A} {vs : Variants B} (hfs : fs.Exact)
    (hvs : vs.Exact) {hname : name ∉ vs.tags} : (variant name fs vs hname).Exact := by
  rintro (x | x) ms hms
  · exact (if_pos rfl).trans (congrArg (Option.map Sum.inl) (hfs.of_perm .content hms))
  · exact (if_neg (vs.tag_ne hname x)).trans (congrArg (Option.map Sum.inr) (hvs x ms hms))

theorem Variants.Exact.unit {name : String} {vs : Variants B} (hvs : vs.Exact)
    {hname : name ∉ vs.tags} : (unit name vs hname).Exact := by
  rintro (x | x) ms hms
  · exact if_pos rfl
  · exact (if_neg (vs.tag_ne hname x)).trans (congrArg (Option.map Sum.inr) (hvs x ms hms))

theorem Codec.Exact.tagged {name : String} {vs : Variants A} (hvs : vs.Exact) (e : T ≃ A)
    {hname : name ∉ vs.names} : (Variants.tagged name vs e hname).Exact := by
  intro s x
  have hx : name ∉ (vs.encode (e x)).map Prod.fst := fun h => hname (vs.names_encode (e x) h)
  have hdistinct := Variants.distinct_tagged (t := vs.tag (e x)) (vs.distinct_encode (e x)) hx
  have hperm : (sortMembers String.toList
      (sortValues ((name, .str (vs.tag (e x))) :: vs.encode (e x)))).Perm
      (sortValues ((name, .str (vs.tag (e x))) :: vs.encode (e x))) := sortMembers_perm _
  have hnodup := (distinct_obj.1 hdistinct).1
  rw [← names_sortValues] at hnodup
  -- Sorting neither hides the tag
  have hget : (sortMembers String.toList
      (sortValues ((name, .str (vs.tag (e x))) :: vs.encode (e x)))).lookup name =
      some (.str (vs.tag (e x))) := by
    rw [lookup_eq_of_perm (nodup_names_sortMembers.2 hnodup) hperm, lookup_sortValues,
      List.lookup_cons_self]
    rfl
  -- nor changes what is left without it.
  have hwithout : (Variants.without name (sortMembers String.toList
      (sortValues ((name, .str (vs.tag (e x))) :: vs.encode (e x))))).Perm
        (sortValues (vs.encode (e x))) := by
    refine (hperm.filter _).trans (List.Perm.of_eq ?_)
    exact Variants.without_cons_self (by rwa [names_sortValues])
  have htag : vs.tagName s (.str (vs.tag (e x))) = some (vs.tag (e x)) := by
    cases s <;> exact if_pos (vs.tag_mem (e x))
  have hencode : (Variants.tagged name vs e hname).encode x =
      .obj ((name, .str (vs.tag (e x))) :: vs.encode (e x)) := rfl
  rw [hencode, sortBy_obj]
  show ((((List.lookup name _).bind (vs.tagName s)).bind _).map e.symm) = _
  rw [hget, Option.bind_some, htag, Option.bind_some, hvs _ _ hwithout]
  rfl

end Exact

end Serde
