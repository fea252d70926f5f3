import ZolanaTvc.Json.Value

/-!
# The order of members

Two JSON values that differ in the order of members are one value. `Json.Reorder` says so member
by member; `Json.sortBy` chooses one representative, and `Json.reorder_iff_sortBy` relates the two.
-/

namespace Json

variable {σ ν κ β : Type} [LinearOrder κ]

/-- The members of an object by ascending key of their names. -/
def sortMembers (key : σ → κ) (members : List (σ × β)) : List (σ × β) :=
  members.insertionSort fun m n => key m.1 ≤ key n.1

section SortMembers

variable {key : σ → κ}

theorem sortMembers_perm (ms : List (σ × β)) : (sortMembers key ms).Perm ms :=
  List.perm_insertionSort _ _

@[simp] theorem mem_sortMembers {ms : List (σ × β)} {m : σ × β} :
    m ∈ sortMembers key ms ↔ m ∈ ms :=
  (sortMembers_perm ms).mem_iff

theorem names_sortMembers_perm (ms : List (σ × β)) :
    ((sortMembers key ms).map Prod.fst).Perm (ms.map Prod.fst) :=
  (sortMembers_perm ms).map _

theorem nodup_names_sortMembers {ms : List (σ × β)} :
    ((sortMembers key ms).map Prod.fst).Nodup ↔ (ms.map Prod.fst).Nodup :=
  (names_sortMembers_perm ms).nodup_iff

theorem sortMembers_pairwise_le (ms : List (σ × β)) :
    (sortMembers key ms).Pairwise fun m n => key m.1 ≤ key n.1 := by
  have : Std.Total fun m n : σ × β => key m.1 ≤ key n.1 := ⟨fun m n => le_total _ _⟩
  have : IsTrans (σ × β) fun m n => key m.1 ≤ key n.1 := ⟨fun _ _ _ => le_trans⟩
  exact List.pairwise_insertionSort _ ms

theorem pairwise_lt_of_le {ms : List (σ × β)} (hkey : Function.Injective key)
    (hnodup : (ms.map Prod.fst).Nodup) (h : ms.Pairwise fun m n => key m.1 ≤ key n.1) :
    ms.Pairwise fun m n => key m.1 < key n.1 := by
  have hne : ms.Pairwise fun m n => m.1 ≠ n.1 := List.pairwise_map.1 hnodup
  exact (h.and hne).imp fun hmn => lt_of_le_of_ne hmn.1 fun heq => hmn.2 (hkey heq)

theorem sortMembers_pairwise_lt {ms : List (σ × β)} (hkey : Function.Injective key)
    (hnodup : (ms.map Prod.fst).Nodup) :
    (sortMembers key ms).Pairwise fun m n => key m.1 < key n.1 :=
  pairwise_lt_of_le hkey (nodup_names_sortMembers.2 hnodup) (sortMembers_pairwise_le ms)

/-- Members in strictly ascending order are told by which members there are. -/
theorem eq_of_perm_of_pairwise_lt {ms ns : List (σ × β)} (hperm : ms.Perm ns)
    (hms : ms.Pairwise fun m n => key m.1 < key n.1)
    (hns : ns.Pairwise fun m n => key m.1 < key n.1) : ms = ns :=
  hperm.eq_of_pairwise (fun _ _ _ _ hmn hnm => absurd hnm (lt_asymm hmn)) hms hns

theorem sortMembers_eq_of_perm {ms ns : List (σ × β)} (hkey : Function.Injective key)
    (hnodup : (ms.map Prod.fst).Nodup) (hperm : ms.Perm ns) :
    sortMembers key ms = sortMembers key ns := by
  have hnodup' : (ns.map Prod.fst).Nodup := (hperm.map Prod.fst).nodup_iff.1 hnodup
  exact eq_of_perm_of_pairwise_lt
    ((sortMembers_perm ms).trans (hperm.trans (sortMembers_perm ns).symm))
    (sortMembers_pairwise_lt hkey hnodup) (sortMembers_pairwise_lt hkey hnodup')

theorem perm_of_sortMembers_eq {ms ns : List (σ × β)}
    (h : sortMembers key ms = sortMembers key ns) : ms.Perm ns :=
  (sortMembers_perm ms).symm.trans (h ▸ sortMembers_perm ns)

theorem sortMembers_of_pairwise {ms : List (σ × β)}
    (h : ms.Pairwise fun m n => key m.1 < key n.1) : sortMembers key ms = ms :=
  (h.imp fun hmn => le_of_lt hmn).insertionSort_eq

theorem sortMembers_map {γ : Type} (f : β → γ) (ms : List (σ × β)) :
    sortMembers key (ms.map (Prod.map id f)) = (sortMembers key ms).map (Prod.map id f) := by
  symm
  exact List.map_insertionSort _ _ _ _ fun _ _ _ _ => Iff.rfl

end SortMembers

section SortBy

variable (key : σ → κ)

mutual

/-- The value with the members of every object by ascending key. -/
def sortBy : Json σ ν → Json σ ν
  | .null => .null
  | .bool b => .bool b
  | .num n => .num n
  | .str s => .str s
  | .arr items => .arr (sortItems items)
  | .obj members => .obj (sortMembers key (sortEach members))

def sortItems : List (Json σ ν) → List (Json σ ν)
  | [] => []
  | v :: vs => sortBy v :: sortItems vs

def sortEach : List (σ × Json σ ν) → List (σ × Json σ ν)
  | [] => []
  | (k, v) :: ms => (k, sortBy v) :: sortEach ms

end

theorem sortItems_eq (vs : List (Json σ ν)) : sortItems key vs = vs.map (sortBy key) := by
  induction vs with
  | nil => rfl
  | cons v vs ih => rw [sortItems, ih, List.map_cons]

theorem sortEach_eq (ms : List (σ × Json σ ν)) :
    sortEach key ms = ms.map (Prod.map id (sortBy key)) := by
  induction ms with
  | nil => rfl
  | cons m ms ih => rw [sortEach, ih, List.map_cons]; rfl

theorem sortBy_arr (vs : List (Json σ ν)) : (arr vs).sortBy key = arr (vs.map (sortBy key)) := by
  rw [sortBy, sortItems_eq]

theorem sortBy_obj (ms : List (σ × Json σ ν)) :
    (obj ms).sortBy key = obj (sortMembers key (ms.map (Prod.map id (sortBy key)))) := by
  rw [sortBy, sortEach_eq]

end SortBy

/-- The two values are equal but for the order of the members of their objects. -/
inductive Reorder : Json σ ν → Json σ ν → Prop where
  | null : Reorder .null .null
  | bool (b : Bool) : Reorder (.bool b) (.bool b)
  | num (n : ν) : Reorder (.num n) (.num n)
  | str (s : σ) : Reorder (.str s) (.str s)
  | arr {vs ws : List (Json σ ν)} : vs.length = ws.length →
      (∀ p ∈ vs.zip ws, Reorder p.1 p.2) → Reorder (.arr vs) (.arr ws)
  | obj {ms ms' ns : List (σ × Json σ ν)} : ms.Perm ms' → ms'.map Prod.fst = ns.map Prod.fst →
      (∀ p ∈ ms'.zip ns, Reorder p.1.2 p.2.2) → Reorder (.obj ms) (.obj ns)

section Reorder

variable {key : σ → κ}

theorem map_eq_map_iff_zip {α γ : Type} {f : α → γ} {as bs : List α} :
    as.map f = bs.map f ↔ as.length = bs.length ∧ ∀ p ∈ as.zip bs, f p.1 = f p.2 := by
  have hforall : as.map f = bs.map f ↔ List.Forall₂ (fun a b => f a = f b) as bs := by
    rw [← List.forall₂_eq_eq_eq]
    simp
  rw [hforall, List.forall₂_iff_zip]
  exact and_congr_right fun _ => ⟨fun h p hp => h hp, fun h a b hab => h (a, b) hab⟩

theorem nodup_names_map {f : β → β} {ms : List (σ × β)} (h : (ms.map Prod.fst).Nodup) :
    ((ms.map (Prod.map id f)).map Prod.fst).Nodup := by
  have hnames : (ms.map (Prod.map id f)).map Prod.fst = ms.map Prod.fst := by
    simp
  rwa [hnames]

theorem Reorder.sortBy_eq {v w : Json σ ν} (hkey : Function.Injective key) (h : Reorder v w)
    (hv : v.Distinct) : v.sortBy key = w.sortBy key := by
  induction h with
  | null => rfl
  | bool b => rfl
  | num n => rfl
  | str s => rfl
  | arr hlength _ ih =>
    rw [sortBy_arr, sortBy_arr, map_eq_map_iff_zip.2 ⟨hlength, fun p hp => ih p hp
      (all_arr.1 hv _ (List.of_mem_zip hp).1)⟩]
  | @obj ms ms' ns hperm hnames _ ih =>
    obtain ⟨hnodup, -, hmembers⟩ := all_obj.1 hv
    obtain ⟨hlength, hzip⟩ := map_eq_map_iff_zip.1 hnames
    have hsorted : ms'.map (Prod.map id (sortBy key)) = ns.map (Prod.map id (sortBy key)) :=
      map_eq_map_iff_zip.2 ⟨hlength, fun p hp => Prod.ext (hzip p hp)
        (ih p hp (hmembers _ (hperm.mem_iff.2 (List.of_mem_zip hp).1)))⟩
    rw [sortBy_obj, sortBy_obj, ← hsorted,
      sortMembers_eq_of_perm hkey (nodup_names_map hnodup) (hperm.map _)]

theorem reorder_of_sortBy_eq {v w : Json σ ν} (h : v.sortBy key = w.sortBy key) :
    Reorder v w := by
  induction v generalizing w with
  | null => cases w <;> simp [sortBy] at h; exact .null
  | bool b => cases w <;> simp [sortBy] at h; exact h ▸ .bool b
  | num n => cases w <;> simp [sortBy] at h; exact h ▸ .num n
  | str s => cases w <;> simp [sortBy] at h; exact h ▸ .str s
  | arr vs ih =>
    cases w with
    | arr ws =>
      rw [sortBy_arr, sortBy_arr, arr.injEq] at h
      obtain ⟨hlength, hzip⟩ := map_eq_map_iff_zip.1 h
      exact .arr hlength fun p hp => ih _ (List.of_mem_zip hp).1 (hzip p hp)
    | _ => simp [sortBy] at h
  | obj ms ih =>
    cases w with
    | obj ns =>
      rw [sortBy_obj, sortBy_obj, obj.injEq] at h
      -- Two lists that sort to one list are permutations; pull the permutation back to before the
      -- values were sorted.
      have hcomp : Relation.Comp (fun l l' => l = List.map (Prod.map id (sortBy key)) l')
          List.Perm (ns.map (Prod.map id (sortBy key))) ms := by
        rw [List.eq_map_comp_perm]
        exact (perm_of_sortMembers_eq h).symm
      obtain ⟨ms', hms', hperm⟩ := hcomp
      obtain ⟨hlength, hzip⟩ := map_eq_map_iff_zip.1 hms'.symm
      refine .obj hperm.symm (map_eq_map_iff_zip.2 ⟨hlength, fun p hp => ?_⟩) fun p hp => ?_
      · exact (Prod.ext_iff.1 (hzip p hp)).1
      · exact ih _ (hperm.mem_iff.1 (List.of_mem_zip hp).1) (Prod.ext_iff.1 (hzip p hp)).2
    | _ => simp [sortBy] at h

theorem reorder_iff_sortBy {v w : Json σ ν} (hkey : Function.Injective key) (hv : v.Distinct) :
    Reorder v w ↔ v.sortBy key = w.sortBy key :=
  ⟨fun h => h.sortBy_eq hkey hv, reorder_of_sortBy_eq⟩

end Reorder

section Invariants

variable {key : σ → κ} {P : σ → Prop} {Q : ν → Prop} {R : List σ → Prop}

theorem names_sortEach (ms : List (σ × Json σ ν)) :
    (ms.map (Prod.map id (sortBy key))).map Prod.fst = ms.map Prod.fst := by
  simp

theorem All.sortBy (hR : ∀ ks ls : List σ, ks.Perm ls → R ks → R ls) {v : Json σ ν}
    (h : v.All P Q R) : (v.sortBy key).All P Q R := by
  induction h with
  | null => exact .null
  | bool b => exact .bool b
  | num h => exact .num h
  | str h => exact .str h
  | arr _ ih => simpa [sortBy_arr] using ih
  | @obj ms hnames hkeys _ ih =>
    rw [sortBy_obj, all_obj]
    refine ⟨hR _ _ ?_ hnames, fun m hm => ?_, fun m hm => ?_⟩
    · rw [← @names_sortEach _ _ _ _ key ms]
      exact (names_sortMembers_perm _).symm
    · obtain ⟨n, hn, rfl⟩ := List.mem_map.1 (mem_sortMembers.1 hm)
      exact hkeys n hn
    · obtain ⟨n, hn, rfl⟩ := List.mem_map.1 (mem_sortMembers.1 hm)
      exact ih n hn

theorem Distinct.sortBy {v : Json σ ν} (h : v.Distinct) : (v.sortBy key).Distinct :=
  All.sortBy (fun _ _ hperm hnodup => hperm.nodup_iff.1 hnodup) h

theorem depth_sortBy_le {v : Json σ ν} {d : ℕ} : (v.sortBy key).depth ≤ d ↔ v.depth ≤ d := by
  induction v generalizing d with
  | arr vs ih =>
    cases d with
    | zero => simp [sortBy, depth]
    | succ d =>
      rw [sortBy_arr, depth_arr_le, depth_arr_le, List.forall_mem_map]
      exact forall₂_congr fun v hv => ih v hv
  | obj ms ih =>
    cases d with
    | zero => simp [sortBy, depth]
    | succ d =>
      rw [sortBy_obj, depth_obj_le, depth_obj_le]
      simp only [mem_sortMembers, List.forall_mem_map]
      exact forall₂_congr fun m hm => ih m hm
  | _ => rfl

/-- Sorting again by another key forgets the first order. -/
theorem sortBy_sortBy {κ' : Type} [LinearOrder κ'] {key' : σ → κ'}
    (hkey' : Function.Injective key') {v : Json σ ν} (h : v.Distinct) :
    (v.sortBy key).sortBy key' = v.sortBy key' := by
  induction h with
  | arr _ ih => simpa [sortBy_arr] using ih
  | @obj ms hnodup _ _ ih =>
    rw [sortBy_obj, sortBy_obj, sortBy_obj, ← sortMembers_map, List.map_map]
    have hagain : ms.map (Prod.map id (Json.sortBy key') ∘ Prod.map id (Json.sortBy key)) =
        ms.map (Prod.map id (Json.sortBy key')) :=
      List.map_congr_left fun m hm => by simp [Prod.map, ih m hm]
    rw [hagain]
    refine congrArg obj (sortMembers_eq_of_perm hkey' ?_ (sortMembers_perm _))
    exact nodup_names_sortMembers.2 (nodup_names_map hnodup)
  | _ => rfl

end Invariants

section Equivalence

variable {key : σ → κ}

theorem Reorder.refl (v : Json σ ν) : Reorder v v := by
  induction v with
  | null => exact .null
  | bool b => exact .bool b
  | num n => exact .num n
  | str s => exact .str s
  | arr vs ih =>
    have hsame : List.Forall₂ Reorder vs vs := List.forall₂_same.2 ih
    exact .arr rfl fun p hp => (List.forall₂_iff_zip.1 hsame).2 hp
  | obj ms ih =>
    have hsame : List.Forall₂ (fun m n => Reorder m.2 n.2) ms ms := List.forall₂_same.2 ih
    exact .obj (.refl ms) rfl fun p hp => (List.forall₂_iff_zip.1 hsame).2 hp

theorem Reorder.str_inj {s t : σ} (h : Reorder (.str s : Json σ ν) (.str t)) : s = t := by
  cases h
  rfl

theorem Reorder.symm {v w : Json σ ν} (hkey : Function.Injective key) (hv : v.Distinct)
    (h : Reorder v w) : Reorder w v :=
  reorder_of_sortBy_eq (h.sortBy_eq hkey hv).symm

end Equivalence

section Lookup

variable [BEq σ] [LawfulBEq σ]

theorem lookup_eq_some_iff {ms : List (σ × β)} (h : (ms.map Prod.fst).Nodup) {k : σ} {v : β} :
    ms.lookup k = some v ↔ (k, v) ∈ ms := by
  induction ms with
  | nil => simp
  | cons m ms ih =>
    obtain ⟨l, w⟩ := m
    obtain ⟨hl, hnodup⟩ := List.nodup_cons.1 h
    rw [List.lookup_cons]
    by_cases hk : k = l
    · subst hk
      have hnot : (k, v) ∉ ms := fun hmem => hl (List.mem_map.2 ⟨_, hmem, rfl⟩)
      simp [hnot, eq_comm]
    · simp [hk, ih hnodup, beq_false_of_ne hk]

theorem lookup_eq_of_perm {ms ns : List (σ × β)} (h : (ms.map Prod.fst).Nodup)
    (hperm : ms.Perm ns) (k : σ) : ms.lookup k = ns.lookup k := by
  refine Option.ext fun v => ?_
  rw [lookup_eq_some_iff h, lookup_eq_some_iff ((hperm.map _).nodup_iff.1 h), hperm.mem_iff]

omit [LawfulBEq σ] in
theorem lookup_rel {R : β → β → Prop} {ms ns : List (σ × β)}
    (h : List.Forall₂ (fun m n => m.1 = n.1 ∧ R m.2 n.2) ms ns) (k : σ) :
    Option.Rel R (ms.lookup k) (ns.lookup k) := by
  induction h with
  | nil => exact .none
  | @cons m n ms ns hmn _ ih =>
    obtain ⟨l, v⟩ := m
    obtain ⟨l', w⟩ := n
    obtain ⟨rfl, hvw⟩ : l = l' ∧ R v w := hmn
    rw [List.lookup_cons, List.lookup_cons]
    cases k == l with
    | true => exact .some hvw
    | false => exact ih

theorem exists_matching {A B : Type} {R : A → B → Prop} {as : List A} {bs : List B}
    (h : ∀ b ∈ bs, ∃ a, a ∈ as ∧ R a b) :
    ∃ as', (∀ a ∈ as', a ∈ as) ∧ List.Forall₂ R as' bs := by
  induction bs with
  | nil => exact ⟨[], by simp, .nil⟩
  | cons b bs ih =>
    obtain ⟨hb, hbs⟩ := List.forall_mem_cons.1 h
    obtain ⟨a, ha, hab⟩ := hb
    obtain ⟨as', has, hR⟩ := ih hbs
    exact ⟨a :: as', List.forall_mem_cons.2 ⟨ha, has⟩, .cons hab hR⟩

/-- Two objects are reorderings if and only if their members are, name by name. -/
theorem reorder_obj_iff_lookup {ms ns : List (σ × Json σ ν)} (hms : (ms.map Prod.fst).Nodup)
    (hns : (ns.map Prod.fst).Nodup) :
    Reorder (obj ms) (obj ns) ↔ ∀ k, Option.Rel Reorder (ms.lookup k) (ns.lookup k) := by
  refine ⟨fun h k => ?_, fun h => ?_⟩
  · cases h with
    | obj hperm hnames hzip =>
      obtain ⟨hlength, hnames⟩ := map_eq_map_iff_zip.1 hnames
      rw [lookup_eq_of_perm hms hperm k]
      exact lookup_rel (List.forall₂_iff_zip.2
        ⟨hlength, fun {m n} hmn => ⟨hnames (m, n) hmn, hzip (m, n) hmn⟩⟩) k
  -- Every member on the right has one of its name on the left.
  · have hmatch : ∀ n ∈ ns, ∃ m, m ∈ ms ∧ m.1 = n.1 ∧ Reorder m.2 n.2 := by
      intro n hn
      have hrel := h n.1
      rw [(lookup_eq_some_iff hns).2 hn] at hrel
      cases hlookup : ms.lookup n.1 with
      | none => rw [hlookup] at hrel; cases hrel
      | some v =>
        rw [hlookup] at hrel
        cases hrel with
        | some hvw => exact ⟨(n.1, v), (lookup_eq_some_iff hms).1 hlookup, rfl, hvw⟩
    obtain ⟨ms', hmem, hforall⟩ : ∃ ms', (∀ m ∈ ms', m ∈ ms) ∧
        List.Forall₂ (fun m n => m.1 = n.1 ∧ Reorder m.2 n.2) ms' ns := exists_matching hmatch
    have hnames : ms'.map Prod.fst = ns.map Prod.fst := by
      rw [← List.forall₂_eq_eq_eq, List.forall₂_map_left_iff, List.forall₂_map_right_iff]
      exact hforall.imp fun _ _ h => h.1
    obtain ⟨hlength, hzip⟩ := List.forall₂_iff_zip.1 hforall
    refine .obj ?_ hnames fun p hp => (hzip hp).2
    -- Without a name twice it is enough that the two lists have the same members.
    refine (List.perm_ext_iff_of_nodup (.of_map _ hms) (.of_map _ (hnames ▸ hns))).2 fun m =>
      ⟨fun hm => ?_, hmem m⟩
    have hrel := h m.1
    rw [(lookup_eq_some_iff hms).2 hm] at hrel
    cases hlookup : ns.lookup m.1 with
    | none => rw [hlookup] at hrel; cases hrel
    | some w =>
      have hname : m.1 ∈ ms'.map Prod.fst :=
        hnames ▸ List.mem_map.2 ⟨_, (lookup_eq_some_iff hns).1 hlookup, rfl⟩
      obtain ⟨m', hm', heq⟩ := List.mem_map.1 hname
      have hv := (lookup_eq_some_iff hms).2 (hmem m' hm')
      rw [heq, (lookup_eq_some_iff hms).2 hm] at hv
      obtain rfl : m' = m := Prod.ext heq (Option.some.inj hv).symm
      exact hm'

theorem lookup_filter_ne [DecidableEq σ] (name : σ) (ms : List (σ × β)) (k : σ) :
    (ms.filter fun m => m.1 ≠ name).lookup k = if k = name then none else ms.lookup k := by
  induction ms with
  | nil => simp
  | cons m ms ih =>
    obtain ⟨l, v⟩ := m
    by_cases hl : l = name
    · subst hl
      by_cases hk : k = l
      · simp [hk] at ih ⊢
        simpa [hk] using ih
      · simpa [hk, List.lookup_cons, beq_false_of_ne hk] using ih
    · by_cases hk : k = l
      · subst hk
        simp [hl]
      · simpa [hl, List.lookup_cons, beq_false_of_ne hk] using ih

/-- What an object is reordered to. -/
theorem exists_of_reorder_obj {ms : List (σ × Json σ ν)} {w : Json σ ν}
    (hms : (ms.map Prod.fst).Nodup) (h : Reorder (obj ms) w) :
    ∃ ns, w = obj ns ∧ (ns.map Prod.fst).Nodup ∧
      ∀ k, Option.Rel Reorder (ms.lookup k) (ns.lookup k) := by
  cases h with
  | obj hperm hnames hzip =>
    rename_i ms' ns
    have hns : (ns.map Prod.fst).Nodup := hnames ▸ (hperm.map Prod.fst).nodup_iff.1 hms
    exact ⟨ns, rfl, hns, (reorder_obj_iff_lookup hms hns).1 (.obj hperm hnames hzip)⟩

/-- Objects stay alike when both lose a member. -/
theorem Reorder.filter_ne [DecidableEq σ] {ms ns : List (σ × Json σ ν)} (hms : (ms.map Prod.fst).Nodup)
    (hns : (ns.map Prod.fst).Nodup) (h : ∀ k, Option.Rel Reorder (ms.lookup k) (ns.lookup k))
    (name : σ) :
    Reorder (Json.obj (ms.filter fun m => m.1 ≠ name))
      (Json.obj (ns.filter fun m => m.1 ≠ name)) := by
  rw [reorder_obj_iff_lookup (hms.sublist (List.filter_sublist.map _))
    (hns.sublist (List.filter_sublist.map _))]
  intro k
  rw [lookup_filter_ne, lookup_filter_ne]
  by_cases hk : k = name
  · rw [if_pos hk, if_pos hk]
    exact .none
  · rw [if_neg hk, if_neg hk]
    exact h k

end Lookup

end Json
