import ZolanaTvc.Json.Canonical

/-!
# Values and texts of two programs

Two programs hold one JSON value in different strings and numbers, and write it in different code
units. `Json.map` takes a value of the one to the other's; `Json.Writer.append_map` says that then the
texts correspond too.
-/

namespace Json

open CodeUnit

variable {σ ν σ' ν' : Type}

section Map

variable (f : σ → σ') (g : ν → ν')

mutual

def map : Json σ ν → Json σ' ν'
  | .null => .null
  | .bool b => .bool b
  | .num n => .num (g n)
  | .str s => .str (f s)
  | .arr items => .arr (mapItems items)
  | .obj members => .obj (mapMembers members)

def mapItems : List (Json σ ν) → List (Json σ' ν')
  | [] => []
  | v :: vs => map v :: mapItems vs

def mapMembers : List (σ × Json σ ν) → List (σ' × Json σ' ν')
  | [] => []
  | (k, v) :: ms => (f k, map v) :: mapMembers ms

end

theorem map_arr (vs : List (Json σ ν)) : (arr vs).map f g = .arr (vs.map (map f g)) := by
  have hitems : ∀ vs : List (Json σ ν), mapItems f g vs = vs.map (map f g) := by
    intro vs
    induction vs with
    | nil => rfl
    | cons v vs ih => rw [mapItems, ih, List.map_cons]
  rw [map, hitems]

theorem map_obj (ms : List (σ × Json σ ν)) :
    (obj ms).map f g = .obj (ms.map (Prod.map f (map f g))) := by
  have hmembers : ∀ ms : List (σ × Json σ ν), mapMembers f g ms = ms.map (Prod.map f (map f g)) := by
    intro ms
    induction ms with
    | nil => rfl
    | cons m ms ih =>
      rw [mapMembers, ih]
      rfl
  rw [map, hmembers]

variable {f g}

theorem all_map {P : σ' → Prop} {Q : ν' → Prop} {R : List σ' → Prop} {v : Json σ ν} :
    (v.map f g).All P Q R ↔
      v.All (fun s => P (f s)) (fun n => Q (g n)) fun ks => R (ks.map f) := by
  induction v with
  | arr vs ih =>
    rw [map_arr, all_arr, all_arr, List.forall_mem_map]
    exact forall₂_congr ih
  | obj ms ih =>
    rw [map_obj, all_obj, all_obj, List.forall_mem_map, List.forall_mem_map, List.map_map,
      List.map_map]
    exact and_congr Iff.rfl (and_congr Iff.rfl (forall₂_congr ih))
  | _ => simp [map]

theorem distinct_map (hf : Function.Injective f) {v : Json σ ν} :
    (v.map f g).Distinct ↔ v.Distinct := by
  rw [Distinct, all_map]
  have hnodup : (fun ks : List σ => (ks.map f).Nodup) = List.Nodup := by
    funext ks
    exact propext (List.nodup_map_iff hf)
  rw [hnodup]

theorem depth_map_le {v : Json σ ν} {d : ℕ} : (v.map f g).depth ≤ d ↔ v.depth ≤ d := by
  induction v generalizing d with
  | arr vs ih =>
    rw [map_arr]
    cases d with
    | zero => simp [depth]
    | succ d =>
      rw [depth_arr_le, depth_arr_le, List.forall_mem_map]
      exact forall₂_congr fun v hv => ih v hv
  | obj ms ih =>
    rw [map_obj]
    cases d with
    | zero => simp [depth]
    | succ d =>
      rw [depth_obj_le, depth_obj_le, List.forall_mem_map]
      exact forall₂_congr fun m hm => ih m hm
  | _ => exact Iff.rfl

/-- A value is one of the other program's when its strings and numbers are. -/
theorem exists_map {P : ν → Prop} {w : Json σ' ν'}
    (h : w.All (fun s => ∃ t, f t = s) (fun n => ∃ m, P m ∧ g m = n) fun _ => True) :
    ∃ v : Json σ ν, v.map f g = w ∧ v.All (fun _ => True) P fun _ => True := by
  induction w with
  | null => exact ⟨.null, rfl, .null⟩
  | bool b => exact ⟨.bool b, rfl, .bool b⟩
  | num n =>
    obtain ⟨m, hm, rfl⟩ := all_num.1 h
    exact ⟨.num m, rfl, .num hm⟩
  | str s =>
    obtain ⟨t, rfl⟩ := all_str.1 h
    exact ⟨.str t, rfl, .str trivial⟩
  | arr ws ih =>
    -- A list of images is the image of a list, taken over the values that satisfy `P`.
    obtain ⟨vs, rfl⟩ : ws ∈ Set.range (List.map fun v : {v : Json σ ν //
        v.All (fun _ => True) P fun _ => True} => v.val.map f g) := by
      rw [Set.range_list_map]
      intro w hw
      obtain ⟨v, hv, hall⟩ := ih w hw (all_arr.1 h w hw)
      exact ⟨⟨v, hall⟩, hv⟩
    refine ⟨.arr (vs.map Subtype.val), ?_, ?_⟩
    · rw [map_arr, List.map_map]
      rfl
    · rw [all_arr, List.forall_mem_map]
      exact fun v _ => v.property
  | obj ms ih =>
    obtain ⟨-, hnames, hvalues⟩ := all_obj.1 h
    obtain ⟨ns, rfl⟩ : ms ∈ Set.range (List.map fun n : {n : σ × Json σ ν //
        n.2.All (fun _ => True) P fun _ => True} => Prod.map f (map f g) n.val) := by
      rw [Set.range_list_map]
      intro m hm
      obtain ⟨k, hk⟩ := hnames m hm
      obtain ⟨v, hv, hall⟩ := ih m hm (hvalues m hm)
      exact ⟨⟨(k, v), hall⟩, Prod.ext hk hv⟩
    refine ⟨.obj (ns.map Subtype.val), ?_, ?_⟩
    · rw [map_obj, List.map_map]
      rfl
    · rw [all_obj, List.forall_mem_map, List.forall_mem_map]
      exact ⟨trivial, fun _ _ => trivial, fun n _ => n.property⟩

end Map

section Texts

variable {α α' κ : Type} [CodeUnit α] [CodeUnit α'] [LinearOrder κ]

theorem map_sortMembers {β β' : Type} {f : σ → σ'} {g : β → β'} {key : σ → κ} {key' : σ' → κ}
    (hkey : ∀ s, key' (f s) = key s) (ms : List (σ × β)) :
    sortMembers key' (ms.map (Prod.map f g)) = (sortMembers key ms).map (Prod.map f g) := by
  refine (List.map_insertionSort _ _ _ _ fun m _ n _ => ?_).symm
  rw [Prod.map_fst, Prod.map_fst, hkey, hkey]

/-- The units of the one program's texts written in those of the other. -/
structure Transcodes (h : List α → List α') : Prop where
  append : ∀ s t, h (s ++ t) = h s ++ h t
  ascii : ∀ c : Char, c.toNat < 128 → h [CodeUnit.ascii c] = [CodeUnit.ascii c]

theorem Transcodes.nil {h : List α → List α'} (hh : Transcodes h) : h [] = [] := by
  have happend := hh.append [] []
  rw [List.append_nil] at happend
  exact List.self_eq_append_left.1 happend

theorem Transcodes.cons {h : List α → List α'} (hh : Transcodes h) {c : Char} (hc : c.toNat < 128)
    (s : List α) : h (CodeUnit.ascii c :: s) = CodeUnit.ascii c :: h s := by
  rw [← List.singleton_append, hh.append, hh.ascii c hc, List.singleton_append]

theorem Transcodes.asciiText {h : List α → List α'} (hh : Transcodes h) {cs : List Char}
    (hcs : ∀ c ∈ cs, c.toNat < 128) : h (Json.asciiText cs) = Json.asciiText cs := by
  induction cs with
  | nil => exact hh.nil
  | cons c cs ih =>
    obtain ⟨hc, hcs⟩ := List.forall_mem_cons.1 hcs
    rw [Json.asciiText, List.map_cons, hh.cons hc, ← Json.asciiText, ih hcs]
    rfl

theorem Transcodes.joinComma {h : List α → List α'} (hh : Transcodes h) (ts : List (List α)) :
    h (Json.joinComma ts) = Json.joinComma (ts.map h) := by
  induction ts with
  | nil => exact hh.nil
  | cons t ts ih =>
    cases ts with
    | nil => rfl
    | cons t' ts =>
      rw [joinComma_cons_cons, hh.append, hh.cons (by decide), ih]
      rfl

theorem Transcodes.printDigits {h : List α → List α'} (hh : Transcodes h) (ds : List (Fin 10)) :
    h (Json.printDigits ds) = Json.printDigits ds := by
  induction ds with
  | nil => exact hh.nil
  | cons d ds ih =>
    rw [Json.printDigits, List.map_cons, hh.cons (digitChar_lt d), ← Json.printDigits, ih]
    rfl

theorem Transcodes.printFrac {h : List α → List α'} (hh : Transcodes h)
    (frac : Option {ds : List (Fin 10) // ds ≠ []}) :
    h (Json.printFrac frac) = Json.printFrac frac := by
  cases frac with
  | none => exact hh.nil
  | some ds => rw [Json.printFrac, hh.cons (by decide), hh.printDigits, Json.printFrac]

theorem Transcodes.printExp {h : List α → List α'} (hh : Transcodes h)
    (exp : Option (Option Bool × {ds : List (Fin 10) // ds ≠ []})) :
    h (Json.printExp exp) = Json.printExp exp := by
  have hsign : ∀ sign, h (printSign sign) = printSign sign := by
    intro sign
    rcases sign with - | _ | _
    · exact hh.nil
    · exact hh.ascii '+' (by decide)
    · exact hh.ascii '-' (by decide)
  cases exp with
  | none => exact hh.nil
  | some exp =>
    rw [Json.printExp, hh.cons (by decide), hh.append, hsign, hh.printDigits, Json.printExp]

/-- Numbers are written with ASCII characters alone. -/
theorem Transcodes.numeral {h : List α → List α'} (hh : Transcodes h) (n : Numeral) :
    h n.print = n.print := by
  have hminus : h (if n.negative then [CodeUnit.ascii '-'] else []) =
      if n.negative then [CodeUnit.ascii '-'] else [] := by
    split_ifs
    · exact hh.ascii '-' (by decide)
    · exact hh.nil
  rw [Numeral.print, hh.append, hh.append, hh.append, hminus, hh.printDigits, hh.printFrac,
    hh.printExp, Numeral.print]

/-- Programs that write strings and numbers alike write values alike. -/
theorem Writer.append_map {w : Writer α σ ν κ} {w' : Writer α' σ' ν' κ} {f : σ → σ'} {g : ν → ν'}
    {h : List α → List α'} (hh : Transcodes h) {P : ν → Prop}
    (hquote : ∀ s, w'.quote (f s) = h (w.quote s))
    (hnumber : ∀ n, P n → w'.number (g n) = (w.number n).map h)
    (hkey : ∀ s, w'.key (f s) = w.key s) {v : Json σ ν}
    (hv : v.All (fun _ => True) P fun _ => True) : w'.append (v.map f g) = (w.append v).map h := by
  induction v with
  | null =>
    have hnull : ∀ c ∈ ['n', 'u', 'l', 'l'], c.toNat < 128 := by simp
    exact congrArg some (hh.asciiText hnull).symm
  | bool b =>
    have hfalse : ∀ c ∈ ['f', 'a', 'l', 's', 'e'], c.toNat < 128 := by simp
    have htrue : ∀ c ∈ ['t', 'r', 'u', 'e'], c.toNat < 128 := by simp
    cases b
    · exact congrArg some (hh.asciiText hfalse).symm
    · exact congrArg some (hh.asciiText htrue).symm
  | num n => exact hnumber n (all_num.1 hv)
  | str s => exact congrArg some (hquote s)
  | arr vs ih =>
    -- Writing the items commutes with the change of alphabet, and so do the brackets and commas.
    have hitems : (vs.map (map f g)).mapM w'.append = (vs.mapM w.append).map (List.map h) := by
      rw [List.mapM_map, ← mapM_map_some]
      exact mapM_congr_left fun v hv' => ih v hv' (all_arr.1 hv v hv')
    rw [map_arr, Writer.append, Writer.append, Writer.appendItems_eq, Writer.appendItems_eq, hitems]
    simp only [Option.map_map, Function.comp_def, hh.cons (by decide : '['.toNat < 128), hh.append,
      hh.joinComma, hh.ascii ']' (by decide)]
  | obj ms ih =>
    obtain ⟨-, -, hvalues⟩ := all_obj.1 hv
    have hmembers : (ms.map (Prod.map f (map f g))).mapM
        (fun m => (w'.append m.2).map fun t => (m.1, t)) =
        (ms.mapM fun m => (w.append m.2).map fun t => (m.1, t)).map
          (List.map (Prod.map f h)) := by
      rw [List.mapM_map, ← mapM_map_some]
      refine mapM_congr_left fun m hm => ?_
      show Option.map _ (w'.append (m.2.map f g)) = _
      rw [ih m hm (hvalues m hm), Option.map_map, Option.map_map]
      rfl
    rw [map_obj, Writer.append, Writer.append, Writer.appendMembers_eq, Writer.appendMembers_eq,
      hmembers]
    simp only [Option.map_map, Function.comp_def, map_sortMembers hkey, List.map_map,
      hh.cons (by decide : '{'.toNat < 128), hh.append, hh.joinComma, hh.ascii '}' (by decide)]
    simp [hquote, hh.cons (by decide : ':'.toNat < 128)]

end Texts

section Trees

variable {α κ : Type} [CodeUnit α] [LinearOrder κ] {F : Format α σ ν κ}

/-- The numerals of a value's tree are those of its numbers. -/
theorem Format.all_tree {Q : Numeral → Prop} {v : Json σ ν} {t : Tree α} (ht : F.tree v = some t) :
    t.All (fun _ => True) Q (fun _ => True) ↔
      v.All (fun _ => True) (fun n => ∀ m ∈ F.numeral n, Q m) fun _ => True := by
  induction v generalizing t with
  | null =>
    obtain rfl := Option.some.inj ht
    simp
  | bool b =>
    obtain rfl := Option.some.inj ht
    simp
  | num n =>
    obtain ⟨m, hm, rfl⟩ := Option.map_eq_some_iff.1 ht
    simp [hm]
  | str s =>
    obtain rfl := Option.some.inj ht
    simp
  | arr vs ih =>
    obtain ⟨ts, rfl, hts⟩ := Format.tree_arr.1 ht
    rw [all_arr, all_arr]
    constructor
    · intro h v hv
      obtain ⟨t, ht, hvt⟩ := exists_mem_left hts.flip hv
      exact (ih v hv hvt).1 (h t ht)
    · intro h t ht
      obtain ⟨v, hv, hvt⟩ := exists_mem_left hts ht
      exact (ih v hv hvt).2 (h v hv)
  | obj ms ih =>
    obtain ⟨ts, hts, rfl⟩ := Format.tree_obj.1 ht
    simp only [all_obj, true_and, implies_true, List.forall_mem_map]
    constructor
    · intro h m hm
      obtain ⟨t, ht, hmt⟩ := exists_mem_left hts.flip hm
      exact (ih m hm hmt.2).1 (h t (mem_sortMembers.2 ht))
    · intro h t ht
      obtain ⟨m, hm, hmt⟩ := exists_mem_left hts (mem_sortMembers.1 ht)
      exact (ih m hm hmt.2).2 (h m hm)

/-- A value nests no deeper than its tree. -/
theorem Format.depth_le_of_tree {v : Json σ ν} {t : Tree α} (ht : F.tree v = some t) {d : ℕ}
    (hd : t.depth ≤ d) : v.depth ≤ d := by
  induction v generalizing t d with
  | null => obtain rfl := Option.some.inj ht; exact hd
  | bool b => obtain rfl := Option.some.inj ht; exact hd
  | num n => obtain ⟨m, -, rfl⟩ := Option.map_eq_some_iff.1 ht; exact hd
  | str s => obtain rfl := Option.some.inj ht; exact hd
  | arr vs ih =>
    obtain ⟨ts, rfl, hts⟩ := Format.tree_arr.1 ht
    obtain ⟨d, rfl⟩ : ∃ e, d = e + 1 := ⟨d - 1, by simp [depth] at hd; omega⟩
    refine depth_arr_le.2 fun v hv => ?_
    obtain ⟨t, ht, hvt⟩ := exists_mem_left hts.flip hv
    exact ih v hv hvt (depth_arr_le.1 hd t ht)
  | obj ms ih =>
    obtain ⟨ts, hts, rfl⟩ := Format.tree_obj.1 ht
    obtain ⟨d, rfl⟩ : ∃ e, d = e + 1 := ⟨d - 1, by simp [depth] at hd; omega⟩
    refine depth_obj_le.2 fun m hm => ?_
    obtain ⟨t, ht, hmt⟩ := exists_mem_left hts.flip hm
    exact ih m hm hmt.2 (depth_obj_le.1 hd _ (List.mem_map.2 ⟨t, mem_sortMembers.2 ht, rfl⟩))

theorem infix_joinComma {t : List α} {ts : List (List α)} (h : t ∈ ts) : t <:+: joinComma ts := by
  induction ts with
  | nil => simp at h
  | cons t' ts ih =>
    cases ts with
    | nil =>
      obtain rfl := List.mem_singleton.1 h
      exact List.infix_refl _
    | cons t'' ts =>
      rw [joinComma_cons_cons]
      rcases List.mem_cons.1 h with rfl | h
      · exact (List.prefix_append _ _).isInfix
      · exact (ih h).trans ((List.suffix_cons _ _).trans (List.suffix_append _ _)).isInfix

/-- The strings of a value stand in its text as they are written. -/
theorem Writer.quote_infix {w : Writer α σ ν κ} {v : Json σ ν} {s : List α}
    (h : w.append v = some s) :
    v.All (fun k => w.quote k <:+: s) (fun _ => True) fun _ => True := by
  induction v generalizing s with
  | null => exact .null
  | bool b => exact .bool b
  | num n => exact .num trivial
  | str k =>
    obtain rfl := Option.some.inj h
    exact .str (List.infix_refl _)
  | arr vs ih =>
    obtain ⟨ts, hts, rfl⟩ := Writer.append_arr h
    refine .arr fun v hv => ?_
    obtain ⟨t, ht, hvt⟩ := exists_mem_left hts.flip hv
    refine (ih v hv hvt).mono (fun k hk => ?_) (fun _ _ => trivial) fun _ _ => trivial
    exact (hk.trans (infix_joinComma ht)).trans
      ((List.prefix_append _ _).isInfix.trans (List.suffix_cons _ _).isInfix)
  | obj ms ih =>
    obtain ⟨ts, hts, rfl⟩ := Writer.append_obj h
    -- The text of a member stands between the braces.
    have hmember : ∀ t ∈ ts, w.quote t.1 ++ ascii ':' :: t.2 <:+:
        ascii '{' :: (joinComma ((sortMembers w.key ts).map fun m =>
          w.quote m.1 ++ ascii ':' :: m.2) ++ [ascii '}']) := by
      intro t ht
      have hmem : w.quote t.1 ++ ascii ':' :: t.2 ∈ (sortMembers w.key ts).map fun m =>
          w.quote m.1 ++ ascii ':' :: m.2 :=
        List.mem_map.2 ⟨t, mem_sortMembers.2 ht, rfl⟩
      refine (infix_joinComma hmem).trans ?_
      exact (List.prefix_append _ _).isInfix.trans (List.suffix_cons _ _).isInfix
    refine .obj trivial (fun m hm => ?_) fun m hm => ?_
    · obtain ⟨t, ht, hmt⟩ := exists_mem_left hts.flip hm
      rw [hmt.1]
      exact (List.prefix_append _ _).isInfix.trans (hmember t ht)
    · obtain ⟨t, ht, hmt⟩ := exists_mem_left hts.flip hm
      refine (ih m hm hmt.2).mono (fun k hk => ?_) (fun _ _ => trivial) fun _ _ => trivial
      have hvalue : t.2 <:+ w.quote t.1 ++ ascii ':' :: t.2 :=
        (List.suffix_cons _ _).trans (List.suffix_append _ _)
      exact hk.trans (hvalue.isInfix.trans (hmember t ht))

end Trees

end Json
