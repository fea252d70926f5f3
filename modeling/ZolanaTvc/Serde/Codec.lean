import ZolanaTvc.Serde.Value

/-!
# serde's derived encodings

A `Serde.Codec T` is a type's `Serialize` and `Deserialize` over `serde_json` values. The combinators
follow what serde derives. A decoder accepts more shapes than the encoder emits (a struct may be an
array, a unit variant an object); `Codec.emitted` tells the emitted ones. The laws of a codec hold up
to the order of members, and the combinators preserve them.
-/

namespace Serde

open Json

theorem toList_injective : Function.Injective String.toList :=
  fun _ _ h => String.toList_inj.1 h

theorem reorder_symm {v w : Value} (hv : v.Distinct) (h : Reorder v w) : Reorder w v :=
  h.symm toList_injective hv

@[simp] theorem reorder_str_iff {v : Value} {s : String} : Reorder v (.str s) ↔ v = .str s :=
  ⟨fun h => by cases h; rfl, fun h => h ▸ .str s⟩

@[simp] theorem str_reorder_iff {v : Value} {s : String} : Reorder (.str s) v ↔ v = .str s :=
  ⟨fun h => by cases h; rfl, fun h => h ▸ .str s⟩

@[simp] theorem reorder_num_iff {v : Value} {n : Number} : Reorder v (.num n) ↔ v = .num n :=
  ⟨fun h => by cases h; rfl, fun h => h ▸ .num n⟩

@[simp] theorem num_reorder_iff {v : Value} {n : Number} : Reorder (.num n) v ↔ v = .num n :=
  ⟨fun h => by cases h; rfl, fun h => h ▸ .num n⟩

@[simp] theorem reorder_null_iff {v : Value} : Reorder v .null ↔ v = .null :=
  ⟨fun h => by cases h; rfl, fun h => h ▸ .null⟩

@[simp] theorem null_reorder_iff {v : Value} : Reorder .null v ↔ v = .null :=
  ⟨fun h => by cases h; rfl, fun h => h ▸ .null⟩

theorem reorder_arr_iff {vs ws : List Value} :
    Reorder (.arr vs) (.arr ws) ↔ List.Forall₂ Reorder vs ws := by
  rw [List.forall₂_iff_zip]
  refine ⟨fun h => ?_, fun h => .arr h.1 fun p hp => h.2 hp⟩
  cases h with
  | arr hlength hzip => exact ⟨hlength, fun {v w} hvw => hzip (v, w) hvw⟩

/-- A free-form JSON document: a value none of whose objects names a member twice. -/
def Document := {v : Value // v.Distinct}

instance : DecidableEq Document := inferInstanceAs (DecidableEq {v : Value // v.Distinct})

/-- The document with the members of every object in one order. -/
def Document.sorted (d : Document) : Document := ⟨d.val.sortBy String.toList, d.property.sortBy⟩

theorem Document.sorted_eq_iff {d e : Document} : d.sorted = e.sorted ↔ Reorder d.val e.val := by
  rw [reorder_iff_sortBy toList_injective d.property]
  exact Subtype.ext_iff

/-- Where a value is decoded from: a `Value`, or the content that serde buffers while it looks for
the tag of an enum. -/
inductive Source where
  | value
  | content
deriving DecidableEq

theorem rel_none_iff {R : Value → Value → Prop} {v : Option Value} :
    Option.Rel R v none ↔ v = none :=
  ⟨fun h => by cases h; rfl, by rintro rfl; exact .none⟩

/-- The member of an object by its name. -/
abbrev get (ms : List (String × Value)) : String → Option Value := fun k => ms.lookup k

/-- A type's `Serialize` and `Deserialize`, with the laws they obey. `norm` identifies the values of
the type that hold one free-form JSON document with its members in different orders. -/
structure Codec (T : Type) where
  encode : T → Value
  decode : Source → Value → Option T
  /-- Among the values that decode, those of the shape that the encoder gives. -/
  emitted : Source → Value → Prop
  norm : T → T
  distinct_encode : ∀ x, (encode x).Distinct
  reorder_encode_iff : ∀ s v x, v.Distinct → decode s v = some x →
    (Reorder v (encode x) ↔ emitted s v)
  norm_eq_iff : ∀ x y, norm x = norm y ↔ Reorder (encode x) (encode y)
  decode_of_reorder : ∀ s x v, v.Distinct → Reorder (encode x) v →
    ∃ y, decode s v = some y ∧ norm y = norm x

namespace Codec

section Leaves

variable {T : Type}

/-- A type that is written as a string. -/
def ofText (print : T → String) (parse : String → Option T)
    (parse_print : ∀ x, parse (print x) = some x)
    (print_of_parse : ∀ s x, parse s = some x → print x = s) : Codec T where
  encode x := .str (print x)
  decode _ v :=
    match v with
    | .str s => parse s
    | _ => none
  emitted _ _ := True
  norm x := x
  distinct_encode _ := .str trivial
  reorder_encode_iff _ v x _ h := by
    cases v with
    | str s => simp [print_of_parse s x h]
    | _ => simp at h
  norm_eq_iff x y := by
    rw [reorder_str_iff, Json.str.injEq]
    refine ⟨fun h => h ▸ rfl, fun h => ?_⟩
    exact Option.some.inj ((parse_print x).symm.trans ((congrArg parse h).trans (parse_print y)))
  decode_of_reorder _ x v _ h := by
    obtain rfl := str_reorder_iff.1 h
    exact ⟨x, parse_print x, rfl⟩

def string : Codec String :=
  ofText id some (fun _ => rfl) fun _ _ h => (Option.some.inj h).symm

theorem unsigned_range {bound : ℕ} (hbound : bound ≤ 2 ^ 64) (n : Fin bound) :
    -2 ^ 63 ≤ (n : ℤ) ∧ (n : ℤ) < 2 ^ 64 := by
  have := n.isLt
  omega

/-- An unsigned integer type, whose values are the numbers below `bound`. -/
def unsigned (bound : ℕ) (hbound : bound ≤ 2 ^ 64) (e : T ≃ Fin bound) : Codec T where
  encode x := .num (.int (e x) (unsigned_range hbound (e x)))
  decode _ v :=
    match v with
    | .num (.int n _) => if h : n.toNat < bound ∧ 0 ≤ n then some (e.symm ⟨n.toNat, h.1⟩) else none
    | _ => none
  emitted _ _ := True
  norm x := x
  distinct_encode _ := .num trivial
  reorder_encode_iff _ v x _ h := by
    match v with
    | .num (.int n hn) =>
      simp only [Option.dite_none_right_eq_some, Option.some.injEq] at h
      obtain ⟨⟨hlt, hpos⟩, rfl⟩ := h
      simp only [Equiv.apply_symm_apply, reorder_num_iff, Json.num.injEq, Number.int.injEq,
        iff_true]
      omega
    | .num (.float x) | .null | .bool b | .str s | .arr vs | .obj ms => simp at h
  norm_eq_iff x y := by
    rw [reorder_num_iff, Json.num.injEq, Number.int.injEq]
    refine ⟨fun h => h ▸ rfl, fun h => e.injective (Fin.ext ?_)⟩
    omega
  decode_of_reorder _ x v _ h := by
    obtain rfl := num_reorder_iff.1 h
    refine ⟨x, ?_, rfl⟩
    simp

/-- An enum of unit variants, by the names of these. -/
def unitEnum (name : T → String) (all : List T) (hall : ∀ x, x ∈ all)
    (hname : Function.Injective name) : Codec T where
  encode x := .str (name x)
  decode s v :=
    match v with
    | .str n => all.find? fun x => name x = n
    | .obj [(n, w)] =>
      if w = .null ∨ s = .content ∧ w = .obj [] then all.find? fun x => name x = n else none
    | _ => none
  emitted _ v := ∃ n, v = .str n
  norm x := x
  distinct_encode _ := .str trivial
  reorder_encode_iff s v x _ h := by
    rw [reorder_str_iff]
    refine ⟨fun h => ⟨_, h⟩, ?_⟩
    rintro ⟨n, rfl⟩
    have hfind := List.find?_some h
    simp only [decide_eq_true_eq] at hfind
    rw [hfind]
  norm_eq_iff x y := by
    rw [reorder_str_iff, Json.str.injEq, hname.eq_iff]
  decode_of_reorder s x v _ h := by
    obtain rfl := str_reorder_iff.1 h
    refine ⟨x, ?_, rfl⟩
    have hsome : (all.find? fun y => name y = name x).isSome :=
      List.find?_isSome.2 ⟨x, hall x, by simp⟩
    obtain ⟨y, hy⟩ := Option.isSome_iff_exists.1 hsome
    have hyx := List.find?_some hy
    simp only [decide_eq_true_eq] at hyx
    rw [hname hyx] at hy
    exact hy

end Leaves

section Lists

variable {T : Type} (c : Codec T)

theorem mapM_reorder_iff {s : Source} {vs : List Value} {xs : List T}
    (hvs : ∀ v ∈ vs, v.Distinct) (h : List.Forall₂ (fun v x => c.decode s v = some x) vs xs) :
    List.Forall₂ Reorder vs (xs.map c.encode) ↔ ∀ v ∈ vs, c.emitted s v := by
  induction h with
  | nil => simp
  | @cons v x vs xs hvx _ ih =>
    obtain ⟨hv, hvs⟩ := List.forall_mem_cons.1 hvs
    rw [List.map_cons, List.forall₂_cons, List.forall_mem_cons, c.reorder_encode_iff s v x hv hvx,
      ih hvs]

/-- A sequence. -/
def list : Codec (List T) where
  encode xs := .arr (xs.map c.encode)
  decode s v :=
    match v with
    | .arr vs => vs.mapM (c.decode s)
    | _ => none
  emitted s v := ∃ vs, v = .arr vs ∧ ∀ v ∈ vs, c.emitted s v
  norm xs := xs.map c.norm
  distinct_encode xs := by
    simp only [distinct_arr, List.forall_mem_map]
    exact fun x _ => c.distinct_encode x
  reorder_encode_iff s v xs hv h := by
    cases v with
    | arr vs =>
      rw [reorder_arr_iff, c.mapM_reorder_iff (distinct_arr.1 hv) (mapM_eq_some_iff.1 h)]
      simp
    | _ => simp at h
  norm_eq_iff xs ys := by
    rw [reorder_arr_iff, ← List.forall₂_eq_eq_eq]
    simp only [List.forall₂_map_left_iff, List.forall₂_map_right_iff, c.norm_eq_iff]
  decode_of_reorder s xs v hv h := by
    cases v with
    | arr vs =>
      rw [reorder_arr_iff, List.forall₂_map_left_iff] at h
      have hvs := distinct_arr.1 hv
      obtain ⟨ys, hdecode, hnorm⟩ := exists_forall₂ h.flip (T := fun x y => c.norm y = c.norm x)
        fun v hmem x hxv => c.decode_of_reorder s x v (hvs v hmem) hxv
      refine ⟨ys, mapM_eq_some_iff.2 hdecode, ?_⟩
      rw [← List.forall₂_eq_eq_eq, List.forall₂_map_left_iff, List.forall₂_map_right_iff]
      exact hnorm.flip
    | _ => cases h

/-- A value that may be `null`. -/
def option (hnull : ∀ s, c.decode s .null = none) : Codec (Option T) where
  encode
    | none => .null
    | some x => c.encode x
  decode s v := if v = .null then some none else (c.decode s v).map some
  emitted s v := v ≠ .null → c.emitted s v
  norm := Option.map c.norm
  distinct_encode
    | none => .null
    | some x => c.distinct_encode x
  reorder_encode_iff s v x hv h := by
    split_ifs at h with hn
    · obtain rfl := Option.some.inj h
      simp [hn]
    · obtain ⟨x, hx, rfl⟩ := Option.map_eq_some_iff.1 h
      simp [hn, c.reorder_encode_iff s v x hv hx]
  norm_eq_iff x y := by
    have hne : ∀ x, c.encode x ≠ .null := fun x hx => by
      obtain ⟨y, hy, -⟩ := c.decode_of_reorder .value x _ (c.distinct_encode x) (.refl _)
      simp [hx, hnull] at hy
    cases x <;> cases y <;> simp [hne, c.norm_eq_iff]
  decode_of_reorder s x v hv h := by
    cases x with
    | none =>
      obtain rfl := null_reorder_iff.1 h
      exact ⟨none, by simp, rfl⟩
    | some x =>
      obtain ⟨y, hy, hnorm⟩ := c.decode_of_reorder s x v hv h
      have hv : v ≠ .null := fun hn => by simp [hn, hnull] at hy
      exact ⟨some y, by simp [hv, hy], congrArg some hnorm⟩

end Lists

def document : Codec Document where
  encode d := d.val
  decode _ v := if h : v.Distinct then some ⟨v, h⟩ else none
  emitted _ _ := True
  norm := Document.sorted
  distinct_encode d := d.property
  reorder_encode_iff _ v d hv h := by
    rw [dif_pos hv] at h
    obtain rfl := Option.some.inj h
    exact iff_of_true (.refl v) trivial
  norm_eq_iff _ _ := Document.sorted_eq_iff
  decode_of_reorder _ d v hv h :=
    ⟨⟨v, hv⟩, dif_pos hv, Document.sorted_eq_iff.2 (reorder_symm d.property h)⟩

/-- A codec of a type that another type stands for. -/
def map {A T : Type} (c : Codec A) (e : T ≃ A) : Codec T where
  encode x := c.encode (e x)
  decode s v := (c.decode s v).map e.symm
  emitted := c.emitted
  norm x := e.symm (c.norm (e x))
  distinct_encode x := c.distinct_encode (e x)
  reorder_encode_iff s v x hv h := by
    obtain ⟨a, ha, rfl⟩ := Option.map_eq_some_iff.1 h
    rw [e.apply_symm_apply, c.reorder_encode_iff s v a hv ha]
  norm_eq_iff x y := by rw [e.symm.injective.eq_iff, c.norm_eq_iff]
  decode_of_reorder s x v hv h := by
    obtain ⟨a, ha, hnorm⟩ := c.decode_of_reorder s (e x) v hv h
    exact ⟨e.symm a, by rw [ha]; rfl, by rw [e.apply_symm_apply, hnorm]⟩

end Codec

end Serde
