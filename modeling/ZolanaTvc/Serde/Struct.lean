import ZolanaTvc.Serde.Codec

/-!
# Structs that deny unknown fields

A struct is written as an object with its fields in the order of declaration. It is read from an
object with exactly these members in any order, or from an array of their values.
-/

namespace Serde

open Json

/-- The fields of a struct, or of a struct variant of an enum, and the values of these. -/
structure Fields (T : Type) where
  names : List String
  nodup : names.Nodup
  encode : T → List (String × Value)
  /-- The fields out of an object, by their names. -/
  decodeNamed : Source → (String → Option Value) → Option T
  /-- The fields out of an array, by their places, and the rest of the array. -/
  decodeSeq : Source → List Value → Option (T × List Value)
  emitted : Source → (String → Option Value) → Prop
  norm : T → T
  names_encode : ∀ x, ((encode x).map Prod.fst).Sublist names
  distinct_encode : ∀ x, ∀ m ∈ encode x, m.2.Distinct
  reorder_encode_iff : ∀ s g x, (∀ k v, g k = some v → v.Distinct) → decodeNamed s g = some x →
    ((∀ k ∈ names, Option.Rel Reorder (g k) ((encode x).lookup k)) ↔ emitted s g)
  norm_eq_iff : ∀ x y, norm x = norm y ↔
    ∀ k ∈ names, Option.Rel Reorder ((encode x).lookup k) ((encode y).lookup k)
  decode_of_reorder : ∀ s x g, (∀ k v, g k = some v → v.Distinct) →
    (∀ k ∈ names, Option.Rel Reorder ((encode x).lookup k) (g k)) →
      ∃ y, decodeNamed s g = some y ∧ norm y = norm x

namespace Fields

variable {A B : Type}

theorem lookup_eq_none {fs : Fields A} {x : A} {k : String} (h : k ∉ fs.names) :
    (fs.encode x).lookup k = none := by
  refine List.lookup_eq_none_iff.2 fun m hm => ?_
  have hname : m.1 ∈ fs.names := (fs.names_encode x).subset (List.mem_map.2 ⟨m, hm, rfl⟩)
  exact bne_iff_ne.2 fun heq => h (heq ▸ hname)

theorem lookup_cons_of_mem {k l : String} {ks : List String} (hk : k ∉ ks) (hl : l ∈ ks)
    (w : Value) (ms : List (String × Value)) : ((k, w) :: ms).lookup l = ms.lookup l := by
  have hne : l ≠ k := fun heq => hk (heq ▸ hl)
  rw [List.lookup_cons, beq_false_of_ne hne]

theorem nodup_nil : ([] : List String).Nodup := .nil

def done : Fields Unit where
  names := []
  nodup := nodup_nil
  encode _ := []
  decodeNamed _ _ := some ()
  decodeSeq _ vs := some ((), vs)
  emitted _ _ := True
  norm x := x
  names_encode _ := .slnil
  distinct_encode := by simp
  reorder_encode_iff := by simp
  norm_eq_iff := by simp
  decode_of_reorder := by simp

/-- A field that must be there. -/
def field (name : String) (c : Codec A) (fs : Fields B)
    (hname : name ∉ fs.names := by decide) : Fields (A × B) where
  names := name :: fs.names
  nodup := List.nodup_cons.2 ⟨hname, fs.nodup⟩
  encode x := (name, c.encode x.1) :: fs.encode x.2
  decodeNamed s g :=
    ((g name).bind (c.decode s)).bind fun a => (fs.decodeNamed s g).map fun b => (a, b)
  decodeSeq s vs :=
    match vs with
    | [] => none
    | v :: vs => (c.decode s v).bind fun a => (fs.decodeSeq s vs).map fun r => ((a, r.1), r.2)
  emitted s g := (∀ v, g name = some v → c.emitted s v) ∧ fs.emitted s g
  norm x := (c.norm x.1, fs.norm x.2)
  names_encode x := (fs.names_encode x.2).cons_cons name
  distinct_encode x :=
    List.forall_mem_cons.2 ⟨c.distinct_encode x.1, fs.distinct_encode x.2⟩
  reorder_encode_iff s g x hg h := by
    obtain ⟨a, ha, h⟩ := Option.bind_eq_some_iff.1 h
    obtain ⟨b, hb, rfl⟩ := Option.map_eq_some_iff.1 h
    obtain ⟨v, hv, ha⟩ := Option.bind_eq_some_iff.1 ha
    rw [List.forall_mem_cons, List.lookup_cons_self, hv, ← fs.reorder_encode_iff s g b hg hb,
      forall₂_congr fun k hk => by rw [lookup_cons_of_mem hname hk]]
    simp [c.reorder_encode_iff s v a (hg name v hv) ha]
  norm_eq_iff x y := by
    rw [List.forall_mem_cons, List.lookup_cons_self, List.lookup_cons_self, Prod.mk.injEq,
      c.norm_eq_iff, fs.norm_eq_iff, Option.rel_some_some]
    refine and_congr_right fun _ => forall₂_congr fun k hk => ?_
    simp only [lookup_cons_of_mem hname hk]
  decode_of_reorder s x g hg h := by
    rw [List.forall_mem_cons, List.lookup_cons_self, forall₂_congr fun k hk => by
      rw [lookup_cons_of_mem hname hk]] at h
    obtain ⟨hfirst, hrest⟩ := h
    cases hv : g name with
    | none => rw [hv] at hfirst; cases hfirst
    | some v =>
      rw [hv, Option.rel_some_some] at hfirst
      obtain ⟨a, ha, hnorm⟩ := c.decode_of_reorder s x.1 v (hg name v hv) hfirst
      obtain ⟨b, hb, hnorm'⟩ := fs.decode_of_reorder s x.2 g hg hrest
      exact ⟨(a, b), by simp [ha, hb], Prod.ext hnorm hnorm'⟩

/-- A field that is left out when it is `None`, and is `None` when it is left out or `null`. -/
def optional (name : String) (c : Codec A) (hnull : ∀ s, c.decode s .null = none) (fs : Fields B)
    (hname : name ∉ fs.names := by decide) : Fields (Option A × B) where
  names := name :: fs.names
  nodup := List.nodup_cons.2 ⟨hname, fs.nodup⟩
  encode x :=
    match x.1 with
    | none => fs.encode x.2
    | some a => (name, c.encode a) :: fs.encode x.2
  decodeNamed s g :=
    (((g name).map ((c.option hnull).decode s)).getD (some none)).bind fun a =>
      (fs.decodeNamed s g).map fun b => (a, b)
  decodeSeq s vs :=
    match vs with
    | [] => (fs.decodeSeq s []).map fun r => ((none, r.1), r.2)
    | v :: vs =>
      ((c.option hnull).decode s v).bind fun a => (fs.decodeSeq s vs).map fun r => ((a, r.1), r.2)
  emitted s g := (∀ v, g name = some v → v ≠ .null ∧ c.emitted s v) ∧ fs.emitted s g
  norm x := (x.1.map c.norm, fs.norm x.2)
  names_encode x := by
    cases x.1 with
    | none => exact (fs.names_encode x.2).cons name
    | some a => exact (fs.names_encode x.2).cons_cons name
  distinct_encode x := by
    cases x.1 with
    | none => exact fs.distinct_encode x.2
    | some a => exact List.forall_mem_cons.2 ⟨c.distinct_encode a, fs.distinct_encode x.2⟩
  reorder_encode_iff s g x hg h := by
    obtain ⟨a, ha, h⟩ := Option.bind_eq_some_iff.1 h
    obtain ⟨b, hb, rfl⟩ := Option.map_eq_some_iff.1 h
    rw [List.forall_mem_cons, ← fs.reorder_encode_iff s g b hg hb]
    cases a with
    | none =>
      refine and_congr ?_ Iff.rfl
      change Option.Rel Reorder (g name) ((fs.encode b).lookup name) ↔ _
      rw [lookup_eq_none hname]
      cases hv : g name with
      | none => simp
      | some v =>
        have hnull : v = .null := by
          by_contra hne
          simp [hv, Codec.option, hne] at ha
        simp [hnull]
    | some a =>
      refine and_congr ?_ (forall₂_congr fun k hk => by rw [lookup_cons_of_mem hname hk])
      rw [List.lookup_cons_self]
      cases hv : g name with
      | none => simp [hv] at ha
      | some v =>
        have hne : v ≠ .null := by
          rintro rfl
          simp [hv, Codec.option] at ha
        have ha' : c.decode s v = some a := by simpa [hv, Codec.option, hne] using ha
        simp [hne, c.reorder_encode_iff s v a (hg name v hv) ha']
  norm_eq_iff x y := by
    obtain ⟨a, b⟩ := x
    obtain ⟨a', b'⟩ := y
    rw [List.forall_mem_cons, Prod.mk.injEq, fs.norm_eq_iff]
    refine and_congr ?_ (forall₂_congr fun k hk => ?_)
    · cases a <;> cases a' <;> simp [lookup_eq_none hname, c.norm_eq_iff]
    · cases a <;> cases a' <;> simp only [lookup_cons_of_mem hname hk]
  decode_of_reorder s x g hg h := by
    obtain ⟨a, b⟩ := x
    obtain ⟨hfirst, hrest⟩ := List.forall_mem_cons.1 h
    cases a with
    | none =>
      obtain ⟨b', hb', hnorm⟩ := fs.decode_of_reorder s b g hg hrest
      cases hv : g name with
      | none => exact ⟨(none, b'), by simp [hb'], Prod.ext rfl hnorm⟩
      | some v => simp [hv, lookup_eq_none hname] at hfirst
    | some a =>
      have hrest' : ∀ k ∈ fs.names, Option.Rel Reorder ((fs.encode b).lookup k) (g k) :=
        fun k hk => lookup_cons_of_mem hname hk (c.encode a) _ ▸ hrest k hk
      obtain ⟨b', hb', hnorm'⟩ := fs.decode_of_reorder s b g hg hrest'
      cases hv : g name with
      | none => simp [hv] at hfirst
      | some v =>
        obtain ⟨a', ha', hnorm⟩ :=
          c.decode_of_reorder s a v (hg name v hv) (by simpa [hv] using hfirst)
        have hne : v ≠ .null := fun hn => by simp [hn, hnull] at ha'
        exact ⟨(some a', b'), by simp [hb', Codec.option, hne, ha'],
          Prod.ext (congrArg some hnorm) hnorm'⟩

variable (fs : Fields A)

/-- The fields out of an object, which holds no other member, or out of an array of just these. -/
def decode (s : Source) (v : Value) : Option A :=
  match v with
  | .obj ms => if ms.map Prod.fst ⊆ fs.names then fs.decodeNamed s (get ms) else none
  | .arr vs => (fs.decodeSeq s vs).bind fun r => if r.2 = [] then some r.1 else none
  | _ => none

theorem nodup_encode (x : A) : ((fs.encode x).map Prod.fst).Nodup :=
  fs.nodup.sublist (fs.names_encode x)

theorem distinct_lookup {ms : List (String × Value)} (hms : (Json.obj ms : Value).Distinct)
    (k : String) (v : Value) (h : ms.lookup k = some v) : v.Distinct := by
  obtain ⟨hnodup, hdistinct⟩ := distinct_obj.1 hms
  exact hdistinct (k, v) ((lookup_eq_some_iff hnodup).1 h)

theorem mem_names_of_lookup {ms : List (String × Value)} {k : String} {v : Value}
    (h : ms.lookup k = some v) : k ∈ ms.map Prod.fst := by
  by_contra hk
  have hnone : ms.lookup k = none :=
    List.lookup_eq_none_iff.2 fun m hm => bne_iff_ne.2 fun heq => hk (List.mem_map.2 ⟨m, hm, heq.symm⟩)
  rw [hnone] at h
  cases h

variable {fs}

theorem lookups_iff_reorder {ms : List (String × Value)} (hms : (ms.map Prod.fst).Nodup)
    (hnames : ms.map Prod.fst ⊆ fs.names) {x : A} :
    (∀ k ∈ fs.names, Option.Rel Reorder (ms.lookup k) ((fs.encode x).lookup k)) ↔
      Reorder (.obj ms) (.obj (fs.encode x)) := by
  rw [reorder_obj_iff_lookup hms (fs.nodup_encode x)]
  refine ⟨fun h k => ?_, fun h k _ => h k⟩
  by_cases hk : k ∈ fs.names
  · exact h k hk
  · have hnone : ms.lookup k = none := by
      by_contra hsome
      obtain ⟨v, hv⟩ := Option.ne_none_iff_exists'.1 hsome
      exact hk (hnames (mem_names_of_lookup hv))
    rw [hnone, lookup_eq_none hk]
    exact .none

theorem obj_reorder_encode_iff {s : Source} {ms : List (String × Value)} {x : A}
    (hms : (Json.obj ms : Value).Distinct) (h : fs.decode s (.obj ms) = some x) :
    Reorder (.obj ms) (.obj (fs.encode x)) ↔ fs.emitted s (get ms) := by
  simp only [decode, Option.ite_none_right_eq_some] at h
  rw [← lookups_iff_reorder (distinct_obj.1 hms).1 h.1,
    fs.reorder_encode_iff s _ x (distinct_lookup hms) h.2]

theorem obj_norm_eq_iff {x y : A} :
    fs.norm x = fs.norm y ↔ Reorder (.obj (fs.encode x)) (.obj (fs.encode y)) := by
  rw [fs.norm_eq_iff, lookups_iff_reorder (fs.nodup_encode x) (fs.names_encode x).subset]

theorem obj_distinct_encode (x : A) : (Json.obj (fs.encode x) : Value).Distinct :=
  distinct_obj.2 ⟨fs.nodup_encode x, fs.distinct_encode x⟩

theorem names_subset_of_reorder {ms ns : List (String × Value)}
    (h : Reorder (.obj ms : Value) (.obj ns)) : ns.map Prod.fst ⊆ ms.map Prod.fst := by
  cases h with
  | obj hperm hnames _ => exact hnames ▸ ((hperm.map Prod.fst).symm.subset)

theorem decode_of_obj_reorder (s : Source) {x : A} {ms : List (String × Value)}
    (hms : (Json.obj ms : Value).Distinct) (h : Reorder (.obj (fs.encode x)) (.obj ms)) :
    ∃ y, fs.decode s (.obj ms) = some y ∧ fs.norm y = fs.norm x := by
  have hnames : ms.map Prod.fst ⊆ fs.names :=
    List.Subset.trans (names_subset_of_reorder h) (fs.names_encode x).subset
  have hlookup := (reorder_obj_iff_lookup (fs.nodup_encode x) (distinct_obj.1 hms).1).1 h
  obtain ⟨y, hy, hnorm⟩ :=
    fs.decode_of_reorder s x (get ms) (distinct_lookup hms) fun k _ => hlookup k
  exact ⟨y, by rw [decode, if_pos hnames, hy], hnorm⟩

/-- A struct that denies unknown fields. -/
def struct (fs : Fields A) {T : Type} (e : T ≃ A) : Codec T :=
  Codec.map {
    encode := fun x => .obj (fs.encode x)
    decode := fs.decode
    emitted := fun s v => ∃ ms, v = .obj ms ∧ fs.emitted s (get ms)
    norm := fs.norm
    distinct_encode := obj_distinct_encode
    reorder_encode_iff := fun s v x hv h => by
      cases v with
      | obj ms => simp [obj_reorder_encode_iff hv h]
      | _ => exact iff_of_false (fun h => by cases h) (by simp)
    norm_eq_iff := fun _ _ => obj_norm_eq_iff
    decode_of_reorder := fun s x v hv h => by
      cases v with
      | obj ms => exact decode_of_obj_reorder s hv h
      | _ => cases h } e

section Decode

variable {T : Type}

/-- A struct is read from an object of its members, or from an array of their values. -/
theorem struct_decode_eq_some {fs : Fields A} {e : T ≃ A} {s : Source} {v : Value} {x : T} :
    (fs.struct e).decode s v = some x ↔
      (∃ ms, v = .obj ms ∧ ms.map Prod.fst ⊆ fs.names ∧ fs.decodeNamed s (get ms) = some (e x)) ∨
        ∃ vs, v = .arr vs ∧ fs.decodeSeq s vs = some (e x, []) := by
  have hmap : (fs.struct e).decode s v = some x ↔ fs.decode s v = some (e x) := by
    show (fs.decode s v).map e.symm = some x ↔ _
    rw [Option.map_eq_some_iff]
    constructor
    · rintro ⟨a, ha, rfl⟩
      rwa [e.apply_symm_apply]
    · exact fun h => ⟨e x, h, e.symm_apply_apply x⟩
  rw [hmap]
  cases v with
  | obj ms => simp [decode]
  | arr vs =>
    simp only [decode, Option.bind_eq_some_iff, Option.ite_none_right_eq_some, Option.some.injEq]
    constructor
    · rintro ⟨⟨a, rest⟩, hread, hrest, ha⟩
      exact .inr ⟨vs, rfl, by rw [hread, ← ha, ← hrest]⟩
    · rintro (⟨_, h, -⟩ | ⟨_, h, hread⟩)
      · cases h
      · cases h
        exact ⟨_, hread, rfl, rfl⟩
  | _ => simp [decode]

variable {name : String} {c : Codec A} {fs : Fields B} {hname : name ∉ fs.names} {s : Source}

theorem decodeNamed_field {g : String → Option Value} {x : A × B} :
    (field name c fs hname).decodeNamed s g = some x ↔
      (∃ v, g name = some v ∧ c.decode s v = some x.1) ∧ fs.decodeNamed s g = some x.2 := by
  simp only [field, Option.bind_eq_some_iff, Option.map_eq_some_iff]
  constructor
  · rintro ⟨a, ⟨v, hv, ha⟩, b, hb, rfl⟩
    exact ⟨⟨v, hv, ha⟩, hb⟩
  · rintro ⟨⟨v, hv, ha⟩, hb⟩
    exact ⟨x.1, ⟨v, hv, ha⟩, x.2, hb, rfl⟩

theorem decodeSeq_field {vs rest : List Value} {x : A × B} :
    (field name c fs hname).decodeSeq s vs = some (x, rest) ↔
      ∃ v ws, vs = v :: ws ∧ c.decode s v = some x.1 ∧ fs.decodeSeq s ws = some (x.2, rest) := by
  cases vs with
  | nil => simp [field]
  | cons v ws =>
    simp only [field, Option.bind_eq_some_iff, Option.map_eq_some_iff, List.cons.injEq]
    constructor
    · rintro ⟨a, ha, ⟨b, rest⟩, hb, heq⟩
      cases heq
      exact ⟨v, ws, ⟨rfl, rfl⟩, ha, hb⟩
    · rintro ⟨_, _, ⟨rfl, rfl⟩, ha, hb⟩
      exact ⟨x.1, ha, (x.2, rest), hb, rfl⟩

theorem decodeSeq_done {vs rest : List Value} {x : Unit} :
    done.decodeSeq s vs = some (x, rest) ↔ vs = rest := by
  simp [done]

end Decode

end Fields

end Serde
