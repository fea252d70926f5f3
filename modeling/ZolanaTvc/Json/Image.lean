import ZolanaTvc.Json.Transfer

/-!
# The image of a text

One program's text reaches another in units that cannot hold all of it. Of the map between the two no
more is known than that it keeps ASCII characters and makes of what stands before one of them the same
whatever follows (`Json.Parts`), as of a decoder that replaces what is malformed.

## Main results

* `Json.Writer.append_image`: names that keep their order are written in their order.
* `Json.Format.ascending_of_tree`: members that another program writes are in its order.
-/

namespace Json

open CodeUnit

variable {α α' σ σ' ν ν' κ κ' : Type}

section Parts

variable [CodeUnit α] [CodeUnit α']

/-- A map of texts that keeps ASCII characters and parts a text at each of them. -/
structure Parts (h : List α → List α') : Prop where
  nil : h [] = []
  part : ∀ s c t, c.toNat < 128 → h (s ++ ascii c :: t) = h s ++ ascii c :: h t

namespace Parts

variable {h : List α → List α'}

theorem cons (hh : Parts h) {c : Char} (hc : c.toNat < 128) (t : List α) :
    h (ascii c :: t) = ascii c :: h t := by
  have hpart := hh.part [] c t hc
  rwa [hh.nil] at hpart

theorem ascii_append (hh : Parts h) {cs : List Char} (hcs : ∀ c ∈ cs, c.toNat < 128) (t : List α) :
    h (asciiText cs ++ t) = asciiText cs ++ h t := by
  induction cs with
  | nil => rfl
  | cons c cs ih =>
    obtain ⟨hc, hcs⟩ := List.forall_mem_cons.1 hcs
    show h (ascii c :: (asciiText cs ++ t)) = ascii c :: (asciiText cs ++ h t)
    rw [hh.cons hc, ih hcs]

theorem asciiText (hh : Parts h) {cs : List Char} (hcs : ∀ c ∈ cs, c.toNat < 128) :
    h (Json.asciiText cs) = Json.asciiText cs := by
  have happend := hh.ascii_append hcs []
  rwa [List.append_nil, hh.nil, List.append_nil] at happend

theorem joinComma (hh : Parts h) (ts : List (List α)) :
    h (Json.joinComma ts) = Json.joinComma (ts.map h) := by
  induction ts with
  | nil => exact hh.nil
  | cons t ts ih =>
    cases ts with
    | nil => rfl
    | cons t' ts =>
      rw [joinComma_cons_cons, hh.part _ _ _ (by decide), ih]
      rfl

end Parts

/-- Numbers are written in the characters of a text of ASCII. -/
theorem transcodes_asciiText : Transcodes (asciiText : List Char → List α) where
  append _ _ := List.map_append
  ascii _ _ := rfl

theorem digits_lt (ds : List (Fin 10)) : ∀ c ∈ (printDigits ds : List Char), c.toNat < 128 := by
  intro c hc
  obtain ⟨d, -, rfl⟩ := List.mem_map.1 hc
  exact digitChar_lt d

theorem Numeral.print_lt (n : Numeral) : ∀ c ∈ (n.print : List Char), c.toNat < 128 := by
  obtain ⟨negative, whole, frac, exp⟩ := n
  intro c hc
  simp only [Numeral.print, List.mem_append] at hc
  obtain hc | hc | hc | hc := hc
  · by_cases hsign : negative = true
    · rw [if_pos hsign] at hc
      obtain rfl := List.mem_singleton.1 hc
      decide
    · rw [if_neg hsign] at hc
      cases hc
  · exact digits_lt _ c hc
  · cases frac with
    | none => cases hc
    | some ds =>
      obtain rfl | hc := List.mem_cons.1 hc
      · decide
      · exact digits_lt _ c hc
  · cases exp with
    | none => cases hc
    | some exp =>
      obtain ⟨sign, ds⟩ := exp
      obtain rfl | hc := List.mem_cons.1 hc
      · decide
      · obtain hc | hc := List.mem_append.1 hc
        · rcases sign with - | _ | _
          · cases hc
          · obtain rfl := List.mem_singleton.1 hc
            decide
          · obtain rfl := List.mem_singleton.1 hc
            decide
        · exact digits_lt _ c hc

theorem Parts.numeral {h : List α → List α'} (hh : Parts h) (n : Numeral) : h n.print = n.print := by
  have htext : ∀ {β : Type} [CodeUnit β], (n.print : List β) = Json.asciiText (n.print : List Char) :=
    (transcodes_asciiText.numeral n).symm
  rw [htext, hh.asciiText n.print_lt, ← htext]

end Parts

section Sorted

variable [LinearOrder κ]

theorem sortMembers_unit {β : Type} (ms : List (σ × β)) : sortMembers (fun _ => ()) ms = ms := by
  apply List.Pairwise.insertionSort_eq
  exact List.pairwise_of_forall fun _ _ => le_rfl

theorem forall₂_of_mem {A B : Type} {R S : A → B → Prop} {as : List A} {bs : List B}
    (h : List.Forall₂ R as bs) (hmem : ∀ a ∈ as, ∀ b, R a b → S a b) : List.Forall₂ S as bs := by
  induction h with
  | nil => exact .nil
  | cons hab _ ih =>
    obtain ⟨ha, has⟩ := List.forall_mem_cons.1 hmem
    exact .cons (ha _ hab) (ih has)

/-- Members matched name by name are matched when both are sorted. -/
theorem forall₂_sortMembers {key : σ → κ} {β γ : Type} {R : β → γ → Prop} {ms : List (σ × β)}
    {ts : List (σ × γ)} (h : List.Forall₂ (fun m t => m.1 = t.1 ∧ R m.2 t.2) ms ts) :
    List.Forall₂ (fun m t => m.1 = t.1 ∧ R m.2 t.2) (sortMembers key ms) (sortMembers key ts) := by
  -- The pairs, under their one name.
  obtain ⟨ps, rfl, rfl, hps⟩ : ∃ ps : List (σ × β × γ), ms = ps.map (Prod.map id Prod.fst) ∧
      ts = ps.map (Prod.map id Prod.snd) ∧ ∀ p ∈ ps, R p.2.1 p.2.2 := by
    induction h with
    | nil => exact ⟨[], rfl, rfl, by simp⟩
    | @cons m t ms ts hmt _ ih =>
      obtain ⟨ps, rfl, rfl, hps⟩ := ih
      obtain ⟨k, v⟩ := m
      obtain ⟨l, w⟩ := t
      obtain ⟨rfl, hvw⟩ := hmt
      exact ⟨(k, v, w) :: ps, rfl, rfl, List.forall_mem_cons.2 ⟨hvw, hps⟩⟩
  rw [sortMembers_map, sortMembers_map, List.forall₂_map_left_iff, List.forall₂_map_right_iff,
    List.forall₂_same]
  exact fun p hp => ⟨rfl, hps p (mem_sortMembers.1 hp)⟩

/-- The names of an object keep their order under a map. -/
def KeepsOrder [LinearOrder κ'] (key : σ → κ) (key' : σ' → κ') (f : σ → σ') (ks : List σ) : Prop :=
  ∀ k ∈ ks, ∀ l ∈ ks, key k ≤ key l → key' (f k) ≤ key' (f l)

theorem KeepsOrder.unit (key : σ → κ) (f : σ → σ') (ks : List σ) :
    KeepsOrder key (fun _ => ()) f ks :=
  fun _ _ _ _ _ => le_rfl

theorem KeepsOrder.sortMembers_map [LinearOrder κ'] {key : σ → κ} {key' : σ' → κ'} {f : σ → σ'}
    {β γ : Type} {g : β → γ} {ms : List (σ × β)} (h : KeepsOrder key key' f (ms.map Prod.fst)) :
    sortMembers key' ((sortMembers key ms).map (Prod.map f g)) =
      (sortMembers key ms).map (Prod.map f g) := by
  apply List.Pairwise.insertionSort_eq
  rw [List.pairwise_map]
  refine (sortMembers_pairwise_le ms).imp_of_mem fun {m n} hm hn hmn => ?_
  exact h _ (List.mem_map_of_mem (mem_sortMembers.1 hm)) _ (List.mem_map_of_mem (mem_sortMembers.1 hn)) hmn

theorem all_of_forall {P : σ → Prop} {Q : ν → Prop} {R : List σ → Prop} (hP : ∀ s, P s) (hQ : ∀ n, Q n)
    (hR : ∀ ks, R ks) (v : Json σ ν) : v.All P Q R := by
  induction v with
  | null => exact .null
  | bool b => exact .bool b
  | num n => exact .num (hQ n)
  | str s => exact .str (hP s)
  | arr vs ih => exact .arr ih
  | obj ms ih => exact .obj (hR _) (fun m _ => hP m.1) ih

/-- What holds of a sorted value, told of the value itself. -/
theorem all_of_sortBy {key : σ → κ} {P : σ → Prop} {Q : ν → Prop} {R : List σ → Prop} {v : Json σ ν}
    (h : (v.sortBy key).All P Q R) : v.All P Q fun ks =>
      ∃ ls, ks.Perm ls ∧ (ls.Pairwise fun k l => key k ≤ key l) ∧ R ls := by
  induction v with
  | null => exact .null
  | bool b => exact .bool b
  | num n => exact .num (all_num.1 h)
  | str s => exact .str (all_str.1 h)
  | arr vs ih =>
    rw [sortBy_arr, all_arr, List.forall_mem_map] at h
    exact .arr fun v hv => ih v hv (h v hv)
  | obj ms ih =>
    rw [sortBy_obj, all_obj] at h
    obtain ⟨hnames, hkeys, hvalues⟩ := h
    have hmem : ∀ m ∈ ms, (m.1, m.2.sortBy key) ∈ sortMembers key (ms.map (Prod.map id (sortBy key))) :=
      fun m hm => mem_sortMembers.2 (List.mem_map_of_mem (f := Prod.map id (sortBy key)) hm)
    refine .obj ⟨_, ?_, ?_, hnames⟩ (fun m hm => hkeys (m.1, m.2.sortBy key) (hmem m hm)) fun m hm =>
      ih m hm (hvalues (m.1, m.2.sortBy key) (hmem m hm))
    · rw [← @names_sortEach _ _ _ _ key ms]
      exact (names_sortMembers_perm _).symm
    · rw [List.pairwise_map]
      exact sortMembers_pairwise_le _

/-- Of names in ascending order whose images ascend strictly, a lesser one has a lesser image. -/
theorem lt_of_pairwise [LinearOrder κ'] {key : σ → κ} {key' : σ' → κ'} {f : σ → σ'} {ls : List σ}
    (hle : ls.Pairwise fun k l => key k ≤ key l)
    (hlt : (ls.map f).Pairwise fun k l => key' k < key' l) :
    ∀ k ∈ ls, ∀ l ∈ ls, key k < key l → key' (f k) < key' (f l) := by
  rw [List.pairwise_map] at hlt
  refine List.Pairwise.forall_of_forall_of_flip (fun k _ h => absurd h (lt_irrefl _)) ?_ ?_
  · refine hlt.imp fun hkl => ?_
    exact fun _ => hkl
  · refine hle.imp fun hkl => ?_
    exact fun hlk => absurd hkl (not_le.2 hlk)

theorem reorder_map {f : σ → σ'} {g : ν → ν'} {v w : Json σ ν} (h : Reorder v w) :
    Reorder (v.map f g) (w.map f g) := by
  induction h with
  | null => exact .null
  | bool b => exact .bool b
  | num n => exact .num (g n)
  | str s => exact .str (f s)
  | @arr vs ws hlength _ ih =>
    rw [map_arr, map_arr]
    refine .arr (by simpa using hlength) ?_
    rw [List.zip_map, List.forall_mem_map]
    exact ih
  | @obj ms ms' ns hperm hnames _ ih =>
    rw [map_obj, map_obj]
    refine .obj (hperm.map _) ?_ ?_
    · have hmapped := congrArg (List.map f) hnames
      rw [List.map_map, List.map_map] at hmapped ⊢
      exact hmapped
    · rw [List.zip_map, List.forall_mem_map]
      exact ih

end Sorted

section Images

variable [CodeUnit α] [CodeUnit α'] [LinearOrder κ] [LinearOrder κ']

/-- What another program writes for the image of a value, whose names keep their order, is the image of
what is written. -/
theorem Writer.append_image {w : Writer α σ ν κ} {w' : Writer α' σ' ν' κ'} {f : σ → σ'} {g : ν → ν'}
    {h : List α → List α'} (hh : Parts h) {P : ν → Prop}
    (hquote : ∀ s, w'.quote (f s) = h (w.quote s))
    (hnumber : ∀ n t, P n → w.number n = some t → w'.number (g n) = some (h t)) {v : Json σ ν}
    (hv : v.All (fun _ => True) P (KeepsOrder w.key w'.key f)) {s : List α}
    (hs : w.append v = some s) : w'.append ((v.sortBy w.key).map f g) = some (h s) := by
  induction v generalizing s with
  | null =>
    obtain rfl := Option.some.inj hs
    exact congrArg some (hh.asciiText (by simp)).symm
  | bool b =>
    cases b <;> obtain rfl := Option.some.inj hs <;> exact congrArg some (hh.asciiText (by simp)).symm
  | num n => exact hnumber n s (all_num.1 hv) hs
  | str k =>
    obtain rfl := Option.some.inj hs
    exact congrArg some (hquote k)
  | arr vs ih =>
    obtain ⟨ts, hts, rfl⟩ := Writer.append_arr hs
    have hitems : (vs.map fun v => (v.sortBy w.key).map f g).mapM w'.append = some (ts.map h) := by
      rw [mapM_eq_some_iff, List.forall₂_map_left_iff, List.forall₂_map_right_iff]
      exact forall₂_of_mem hts fun v hvs t hvt => ih v hvs (all_arr.1 hv v hvs) hvt
    rw [sortBy_arr, map_arr, List.map_map, Writer.append, Writer.appendItems_eq]
    rw [show vs.map (map f g ∘ sortBy w.key) = vs.map fun v => (v.sortBy w.key).map f g from rfl, hitems]
    rw [hh.cons (by decide), hh.part _ _ _ (by decide), hh.joinComma, hh.nil]
    rfl
  | obj ms ih =>
    obtain ⟨ts, hts, rfl⟩ := Writer.append_obj hs
    obtain ⟨hnames, -, hvalues⟩ := all_obj.1 hv
    have hnames' : ms.map Prod.fst = ts.map Prod.fst := by
      rw [← List.forall₂_eq_eq_eq, List.forall₂_map_left_iff, List.forall₂_map_right_iff]
      exact hts.imp fun _ _ hmt => hmt.1
    -- Sorting by name commutes with writing the values, as the names stay where they are.
    have hwritten : List.Forall₂ (fun m t => m.1 = t.1 ∧ w'.append (m.2.map f g) = some (h t.2))
        (sortMembers w.key (ms.map (Prod.map id (sortBy w.key)))) (sortMembers w.key ts) := by
      apply @forall₂_sortMembers σ κ _ w.key (Json σ ν) (List α)
        fun v t => w'.append (v.map f g) = some (h t)
      rw [List.forall₂_map_left_iff]
      exact forall₂_of_mem hts fun m hm t hmt => ⟨hmt.1, ih m hm (hvalues m hm) hmt.2⟩
    have hmembers : ((sortMembers w.key (ms.map (Prod.map id (sortBy w.key)))).map
        (Prod.map f (map f g))).mapM (fun m => (w'.append m.2).map fun t => (m.1, t)) =
        some ((sortMembers w.key ts).map (Prod.map f h)) := by
      rw [mapM_eq_some_iff, List.forall₂_map_left_iff, List.forall₂_map_right_iff]
      refine hwritten.imp fun m t hmt => ?_
      rw [Prod.map_snd, hmt.2, Option.map_some, Prod.map_fst, hmt.1]
      rfl
    rw [sortBy_obj, map_obj, Writer.append, Writer.appendMembers_eq, hmembers, Option.map_some,
      KeepsOrder.sortMembers_map (hnames' ▸ hnames), hh.cons (by decide), hh.part _ _ _ (by decide),
      hh.joinComma, hh.nil, List.map_map, List.map_map]
    -- A colon is ASCII, and parts the image as it parts the text.
    have hmember : ∀ m : σ × List α, w'.quote (f m.1) ++ ascii ':' :: h m.2 =
        h (w.quote m.1 ++ ascii ':' :: m.2) := by
      intro m
      rw [hh.part _ _ _ (by decide), hquote]
    simp only [Function.comp_def, Prod.map_fst, Prod.map_snd, hmember]

end Images

section Formats

variable [CodeUnit α] [LinearOrder κ] {μ : Type}

/-- The members of an object, refused when one is named twice. -/
def distinctMembers [DecidableEq σ] (ms : List (σ × Json σ ν)) : Option (List (σ × Json σ ν)) :=
  if (ms.map Prod.fst).Nodup then some ms else none

theorem distinctMembers_eq_some [DecidableEq σ] {ms ns : List (σ × Json σ ν)} :
    distinctMembers ms = some ns ↔ (ms.map Prod.fst).Nodup ∧ ms = ns := by
  rw [distinctMembers, Option.ite_none_right_eq_some, Option.some.injEq]

/-- A format with another's strings and numbers of its own, which leaves members as they stand. -/
def Format.withNumbers [DecidableEq σ] (F : Format α σ ν κ) (numeral : μ → Option Numeral)
    (ofNumeral : Numeral → Option μ) (hnumeral : ∀ n m, numeral n = some m → ofNumeral m = some n) :
    Format α σ μ Unit where
  quote := F.quote
  number n := (numeral n).map Numeral.print
  key _ := ()
  unescape := F.unescape
  ofNumeral := ofNumeral
  arrange := distinctMembers
  escape := F.escape
  quote_eq := F.quote_eq
  unescape_escape := F.unescape_escape
  numeral := numeral
  number_eq _ := rfl
  ofNumeral_numeral := hnumeral
  arrange_perm ms h := ⟨ms, if_pos h, .refl ms⟩
  nodup_of_arrange ms ns h := by
    obtain ⟨hnodup, rfl⟩ := distinctMembers_eq_some.1 h
    exact hnodup
  subset_of_arrange ms ns h := by
    obtain ⟨-, rfl⟩ := distinctMembers_eq_some.1 h
    exact List.Subset.refl _

theorem Format.escape_injective (F : Format α σ ν κ) : Function.Injective F.escape := by
  intro s t h
  have hs := F.unescape_escape s
  rw [h, F.unescape_escape t] at hs
  exact (Option.some.inj hs).symm

/-- A text that two formats of the same strings write: where the one leaves members as they stand, they
stand in the order of the other, and each of its numbers is written as one of the other's. -/
theorem Format.ascending_of_tree {F : Format α σ ν κ} {G : Format α σ μ Unit}
    (hescape : G.escape = F.escape) (hkey : G.key = fun _ => ()) (hinj : Function.Injective F.key)
    {v : Json σ ν} {u : Json σ μ} {t : Tree α} (hv : v.Distinct) (hvt : F.tree v = some t)
    (hut : G.tree u = some t) :
    u.All (fun _ => True) (fun n => ∃ m n', G.numeral n = some m ∧ F.numeral n' = some m)
      (List.Pairwise fun k l => F.key k < F.key l) := by
  -- The two values have one tree. Where it tells a different kind of the other value it is no tree
  -- of it.
  induction u generalizing v t with
  | null => exact .null
  | bool b => exact .bool b
  | num n =>
    obtain ⟨m, hm, rfl⟩ := Option.map_eq_some_iff.1 hut
    cases v with
    | num n' =>
      obtain ⟨m', hm', heq⟩ := Option.map_eq_some_iff.1 hvt
      obtain rfl := Json.num.inj heq
      exact .num ⟨m', n', hm, hm'⟩
    | arr vs =>
      obtain ⟨ts, ht, -⟩ := tree_arr.1 hvt
      cases ht
    | obj ms =>
      obtain ⟨ts, -, ht⟩ := tree_obj.1 hvt
      cases ht
    | _ => cases hvt
  | str s => exact .str trivial
  | arr us ih =>
    obtain ⟨ts, rfl, hts⟩ := tree_arr.1 hut
    cases v with
    | arr vs =>
      obtain ⟨ts', ht, hts'⟩ := tree_arr.1 hvt
      obtain rfl := Json.arr.inj ht
      refine .arr fun u hu => ?_
      obtain ⟨t, ht, hut⟩ := exists_mem_left hts.flip hu
      obtain ⟨v, hvs, hvt⟩ := exists_mem_left hts' ht
      exact ih u hu (distinct_arr.1 hv v hvs) hvt hut
    | num n =>
      obtain ⟨m, -, hm⟩ := Option.map_eq_some_iff.1 hvt
      cases hm
    | obj ms =>
      obtain ⟨ts, -, ht⟩ := tree_obj.1 hvt
      cases ht
    | _ => cases hvt
  | obj us ih =>
    obtain ⟨ts, hts, rfl⟩ := tree_obj.1 hut
    cases v with
    | obj ms =>
      obtain ⟨ts', hts', ht⟩ := tree_obj.1 hvt
      obtain ⟨hnodup, hdistinct⟩ := distinct_obj.1 hv
      rw [hkey, sortMembers_unit, hescape] at ht
      -- The one format has left the members as they stood, the other has sorted them: they stood
      -- sorted.
      have hsorted : ts = sortMembers F.key ts' := by
        refine List.map_injective_iff.2 ?_ (Json.obj.inj ht)
        exact F.escape_injective.prodMap Function.injective_id
      have hascending : ts.Pairwise fun t t' => F.key t.1 < F.key t'.1 := by
        rw [hsorted]
        exact sortMembers_pairwise_lt hinj (names_of_spells hts' ▸ hnodup)
      refine .obj ?_ (fun _ _ => trivial) fun u hu => ?_
      · rw [names_of_spells hts, List.pairwise_map]
        exact hascending
      · obtain ⟨t, ht, hut⟩ := exists_mem_left hts.flip hu
        obtain ⟨n, hn, hnt⟩ := exists_mem_left hts' (mem_sortMembers.1 (hsorted ▸ ht))
        exact ih u hu (hdistinct n hn) hnt.2 hut.2
    | num n =>
      obtain ⟨m, -, hm⟩ := Option.map_eq_some_iff.1 hvt
      cases hm
    | arr vs =>
      obtain ⟨ts, ht, -⟩ := tree_arr.1 hvt
      cases ht
    | _ => cases hvt

end Formats

end Json
