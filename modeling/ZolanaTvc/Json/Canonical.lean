import ZolanaTvc.Json.Order
import ZolanaTvc.Json.Text

/-!
# Canonical JSON texts

RFC 8785 writes a JSON value in one way: no whitespace, fixed escapes, and the members of an object
by the UTF-16 code units of their names. A `Json.Format` is one program's strings and numbers with
the functions that write and read them; what follows from its laws holds of every such program.

## Main results

* `Json.Format.read_write`: what is written is read back, up to the order of members.
* `Json.Format.write_eq_iff`: two values are written alike if and only if they are reorderings.
* `Json.Format.isCanonical_iff`: the texts that read and write give back unchanged.
-/

namespace Json

open CodeUnit

section Lists

variable {A B C : Type}

theorem mapM_eq_some_iff {f : A → Option B} {as : List A} {bs : List B} :
    as.mapM f = some bs ↔ List.Forall₂ (fun a b => f a = some b) as bs := by
  induction as generalizing bs with
  | nil => cases bs <;> simp
  | cons a as ih =>
    cases bs with
    | nil => cases hf : f a <;> cases hrest : as.mapM f <;> simp [hf, hrest]
    | cons b bs => cases hf : f a <;> cases hrest : as.mapM f <;> simp [hf, hrest, ← ih]

theorem mapM_map_some {f : A → Option B} (g : B → C) (as : List A) :
    (as.mapM fun a => (f a).map g) = (as.mapM f).map (List.map g) := by
  induction as with
  | nil => rfl
  | cons a as ih => cases hf : f a <;> cases hrest : as.mapM f <;> simp_all

theorem mapM_congr_left {f g : A → Option B} {as : List A} (h : ∀ a ∈ as, f a = g a) :
    as.mapM f = as.mapM g := by
  induction as with
  | nil => rfl
  | cons a as ih =>
    obtain ⟨ha, has⟩ := List.forall_mem_cons.1 h
    simp [ha, ih has]

theorem isSome_mapM {f : A → Option B} {as : List A} :
    (as.mapM f).isSome ↔ ∀ a ∈ as, (f a).isSome := by
  induction as with
  | nil => simp
  | cons a as ih => cases hf : f a <;> cases hrest : as.mapM f <;> simp_all

theorem exists_mem_left {R : A → B → Prop} {as : List A} {bs : List B}
    (h : List.Forall₂ R as bs) {b : B} (hb : b ∈ bs) : ∃ a ∈ as, R a b := by
  induction h with
  | nil => simp at hb
  | @cons a b' as bs hab _ ih =>
    rcases List.mem_cons.1 hb with rfl | hb
    · exact ⟨a, List.mem_cons_self, hab⟩
    · obtain ⟨a', ha', h⟩ := ih hb
      exact ⟨a', List.mem_cons_of_mem a ha', h⟩

theorem forall₂_trans_left {R : A → B → Prop} {S : A → C → Prop} {T : B → C → Prop}
    {as : List A} {bs : List B} {cs : List C} (hR : List.Forall₂ R as bs)
    (hS : List.Forall₂ S as cs) (h : ∀ a b c, R a b → S a c → T b c) : List.Forall₂ T bs cs := by
  induction hR generalizing cs with
  | nil => cases hS; exact .nil
  | cons hab _ ih =>
    obtain - | ⟨hac, hS⟩ := hS
    exact .cons (h _ _ _ hab hac) (ih hS)

theorem exists_forall₂ {R : A → B → Prop} {S : A → C → Prop} {T : B → C → Prop}
    {as : List A} {bs : List B} (hR : List.Forall₂ R as bs)
    (h : ∀ a ∈ as, ∀ b, R a b → ∃ c, S a c ∧ T b c) :
    ∃ cs, List.Forall₂ S as cs ∧ List.Forall₂ T bs cs := by
  induction hR with
  | nil => exact ⟨[], .nil, .nil⟩
  | cons hab _ ih =>
    obtain ⟨ha, has⟩ := List.forall_mem_cons.1 h
    obtain ⟨c, hac, hbc⟩ := ha _ hab
    obtain ⟨cs, hS, hT⟩ := ih has
    exact ⟨c :: cs, .cons hac hS, .cons hbc hT⟩

end Lists

variable {α σ ν κ : Type} [CodeUnit α] [LinearOrder κ]

/-- How a program writes the parts of a value; a number it does not write is refused. -/
structure Writer (α σ ν κ : Type) where
  quote : σ → List α
  number : ν → Option (List α)
  key : σ → κ

namespace Writer

variable (w : Writer α σ ν κ)

mutual

/-- The canonical text of a value. -/
def append : Json σ ν → Option (List α)
  | .null => some (asciiText ['n', 'u', 'l', 'l'])
  | .bool true => some (asciiText ['t', 'r', 'u', 'e'])
  | .bool false => some (asciiText ['f', 'a', 'l', 's', 'e'])
  | .num n => w.number n
  | .str s => some (w.quote s)
  | .arr items =>
    (appendItems items).map fun ts => ascii '[' :: (joinComma ts ++ [ascii ']'])
  | .obj members =>
    -- The source sorts the names and then writes each value; here each value is written first.
    (appendMembers members).map fun ts =>
      ascii '{' :: (joinComma ((sortMembers w.key ts).map fun m => w.quote m.1 ++ ascii ':' :: m.2)
        ++ [ascii '}'])

def appendItems : List (Json σ ν) → Option (List (List α))
  | [] => some []
  | v :: vs => (append v).bind fun t => (appendItems vs).map fun ts => t :: ts

def appendMembers : List (σ × Json σ ν) → Option (List (σ × List α))
  | [] => some []
  | (k, v) :: ms => (append v).bind fun t => (appendMembers ms).map fun ts => (k, t) :: ts

end

theorem appendItems_eq (vs : List (Json σ ν)) : w.appendItems vs = vs.mapM w.append := by
  induction vs with
  | nil => rfl
  | cons v vs ih => cases hv : w.append v <;> simp [appendItems, hv, ih, Option.map_eq_bind]

theorem appendMembers_eq (ms : List (σ × Json σ ν)) :
    w.appendMembers ms = ms.mapM fun m => (w.append m.2).map fun t => (m.1, t) := by
  induction ms with
  | nil => rfl
  | cons m ms ih => cases hv : w.append m.2 <;> simp [appendMembers, hv, ih, Option.map_eq_bind]

variable {w}

theorem append_arr {vs : List (Json σ ν)} {s : List α} (h : w.append (.arr vs) = some s) :
    ∃ ts, List.Forall₂ (fun v t => w.append v = some t) vs ts ∧
      s = ascii '[' :: (joinComma ts ++ [ascii ']']) := by
  rw [append, appendItems_eq] at h
  obtain ⟨ts, hts, rfl⟩ := Option.map_eq_some_iff.1 h
  exact ⟨ts, mapM_eq_some_iff.1 hts, rfl⟩

theorem append_obj {ms : List (σ × Json σ ν)} {s : List α} (h : w.append (.obj ms) = some s) :
    ∃ ts : List (σ × List α),
      List.Forall₂ (fun m t => m.1 = t.1 ∧ w.append m.2 = some t.2) ms ts ∧
      s = ascii '{' :: (joinComma ((sortMembers w.key ts).map fun m =>
        w.quote m.1 ++ ascii ':' :: m.2) ++ [ascii '}']) := by
  rw [append, appendMembers_eq] at h
  obtain ⟨ts, hts, rfl⟩ := Option.map_eq_some_iff.1 h
  refine ⟨ts, (mapM_eq_some_iff.1 hts).imp fun m t hmt => ?_, rfl⟩
  obtain ⟨u, hu, rfl⟩ := Option.map_eq_some_iff.1 hmt
  exact ⟨rfl, hu⟩

end Writer

/-- How a program reads the parts of a value: strings, numbers, and the members of an object. -/
structure Reader (α σ ν : Type) [CodeUnit α] where
  unescape : List (Piece α) → Option σ
  ofNumeral : Numeral → Option ν
  arrange : List (σ × Json σ ν) → Option (List (σ × Json σ ν))

namespace Reader

variable (r : Reader α σ ν)

mutual

/-- The value a program reads off a tree. -/
def read : Tree α → Option (Json σ ν)
  | .null => some .null
  | .bool b => some (.bool b)
  | .num n => (r.ofNumeral n).map .num
  | .str ps => (r.unescape ps).map .str
  | .arr items => (readItems items).map .arr
  | .obj members => ((readMembers members).bind r.arrange).map .obj

def readItems : List (Tree α) → Option (List (Json σ ν))
  | [] => some []
  | t :: ts => (read t).bind fun v => (readItems ts).map fun vs => v :: vs

def readMembers : List (List (Piece α) × Tree α) → Option (List (σ × Json σ ν))
  | [] => some []
  | (k, t) :: ms =>
    (r.unescape k).bind fun k => (read t).bind fun v => (readMembers ms).map fun ns => (k, v) :: ns

end

theorem readItems_eq (ts : List (Tree α)) : r.readItems ts = ts.mapM r.read := by
  induction ts with
  | nil => rfl
  | cons t ts ih => cases ht : r.read t <;> simp [readItems, ht, ih, Option.map_eq_bind]

theorem readMembers_eq (ms : List (List (Piece α) × Tree α)) :
    r.readMembers ms =
      ms.mapM fun m => (r.unescape m.1).bind fun k => (r.read m.2).map fun v => (k, v) := by
  induction ms with
  | nil => rfl
  | cons m ms ih =>
    cases hk : r.unescape m.1 <;> cases hv : r.read m.2 <;>
      simp [readMembers, hk, hv, ih, Option.map_eq_bind]

end Reader

/-- A program that writes JSON and reads what it writes. -/
structure Format (α σ ν κ : Type) [CodeUnit α] [LinearOrder κ] extends
    Writer α σ ν κ, Reader α σ ν where
  escape : σ → List (Piece α)
  quote_eq : ∀ s, quote s = ascii '"' :: printPieces (escape s)
  unescape_escape : ∀ s, unescape (escape s) = some s
  numeral : ν → Option Numeral
  number_eq : ∀ n, number n = (numeral n).map Numeral.print
  ofNumeral_numeral : ∀ n m, numeral n = some m → ofNumeral m = some n
  arrange_perm : ∀ ms, (ms.map Prod.fst).Nodup → ∃ ns, arrange ms = some ns ∧ ns.Perm ms
  nodup_of_arrange : ∀ ms ns, arrange ms = some ns → (ns.map Prod.fst).Nodup
  subset_of_arrange : ∀ ms ns, arrange ms = some ns → ns ⊆ ms

namespace Format

variable (F : Format α σ ν κ)

mutual

/-- The tree that the canonical text of a value spells. -/
def tree : Json σ ν → Option (Tree α)
  | .null => some .null
  | .bool b => some (.bool b)
  | .num n => (F.numeral n).map .num
  | .str s => some (.str (F.escape s))
  | .arr items => (treeItems items).map .arr
  | .obj members =>
    (treeMembers members).map fun ms => .obj ((sortMembers F.key ms).map (Prod.map F.escape id))

def treeItems : List (Json σ ν) → Option (List (Tree α))
  | [] => some []
  | v :: vs => (tree v).bind fun t => (treeItems vs).map fun ts => t :: ts

def treeMembers : List (σ × Json σ ν) → Option (List (σ × Tree α))
  | [] => some []
  | (k, v) :: ms => (tree v).bind fun t => (treeMembers ms).map fun ts => (k, t) :: ts

end

theorem treeItems_eq (vs : List (Json σ ν)) : F.treeItems vs = vs.mapM F.tree := by
  induction vs with
  | nil => rfl
  | cons v vs ih => cases hv : F.tree v <;> simp [treeItems, hv, ih, Option.map_eq_bind]

theorem treeMembers_eq (ms : List (σ × Json σ ν)) :
    F.treeMembers ms = ms.mapM fun m => (F.tree m.2).map fun t => (m.1, t) := by
  induction ms with
  | nil => rfl
  | cons m ms ih => cases hv : F.tree m.2 <;> simp [treeMembers, hv, ih, Option.map_eq_bind]

theorem append_eq (v : Json σ ν) : F.append v = (F.tree v).map print := by
  induction v with
  | num n => cases hn : F.numeral n <;> simp [Writer.append, tree, F.number_eq, hn, print]
  | str s => simp [Writer.append, tree, F.quote_eq, print]
  | bool b => cases b <;> rfl
  | null => rfl
  | arr vs ih =>
    rw [Writer.append, F.appendItems_eq, mapM_congr_left ih, mapM_map_some, tree, treeItems_eq]
    simp [Function.comp_def, print, printItems_eq]
  | obj ms ih =>
    have hms : (ms.mapM fun m => (F.append m.2).map fun t => (m.1, t)) =
        (F.treeMembers ms).map (List.map (Prod.map id print)) := by
      rw [treeMembers_eq, ← mapM_map_some]
      refine mapM_congr_left fun m hm => ?_
      rw [ih m hm]
      cases F.tree m.2 <;> rfl
    rw [Writer.append, F.appendMembers_eq, hms, tree]
    simp only [Option.map_map, Function.comp_def, sortMembers_map, List.map_map, print,
      printMembers_eq]
    simp [Prod.map, printMember, F.quote_eq]

variable {F}

theorem tree_arr {vs : List (Json σ ν)} {t : Tree α} :
    F.tree (.arr vs) = some t ↔
      ∃ ts, t = .arr ts ∧ List.Forall₂ (fun v t => F.tree v = some t) vs ts := by
  rw [tree, treeItems_eq, Option.map_eq_some_iff]
  simp only [mapM_eq_some_iff]
  exact ⟨fun ⟨ts, h, ht⟩ => ⟨ts, ht.symm, h⟩, fun ⟨ts, ht, h⟩ => ⟨ts, h, ht.symm⟩⟩

/-- The members of a value and of its tree, before these are put in order. -/
def Spells (F : Format α σ ν κ) (m : σ × Json σ ν) (t : σ × Tree α) : Prop :=
  m.1 = t.1 ∧ F.tree m.2 = some t.2

theorem tree_obj {ms : List (σ × Json σ ν)} {t : Tree α} :
    F.tree (.obj ms) = some t ↔
      ∃ ts, List.Forall₂ (Spells F) ms ts ∧
        t = .obj ((sortMembers F.key ts).map (Prod.map F.escape id)) := by
  have hspells : ∀ ts, F.treeMembers ms = some ts ↔ List.Forall₂ (Spells F) ms ts := by
    intro ts
    rw [treeMembers_eq, mapM_eq_some_iff]
    refine Iff.of_eq (congrArg (fun R => List.Forall₂ R ms ts) ?_)
    funext m t
    rw [Option.map_eq_some_iff, eq_iff_iff]
    exact ⟨fun ⟨u, hu, heq⟩ => heq ▸ ⟨rfl, hu⟩, fun ⟨hk, hv⟩ => ⟨t.2, hv, hk ▸ rfl⟩⟩
  rw [tree, Option.map_eq_some_iff]
  simp only [hspells, eq_comm]

theorem names_of_spells {ms : List (σ × Json σ ν)} {ts : List (σ × Tree α)}
    (h : List.Forall₂ (Spells F) ms ts) : ms.map Prod.fst = ts.map Prod.fst := by
  rw [← List.forall₂_eq_eq_eq, List.forall₂_map_left_iff, List.forall₂_map_right_iff]
  exact h.imp fun _ _ h => h.1

/-- Reorderings of one value spell the same tree. -/
theorem tree_of_reorder (hkey : Function.Injective F.key) {v w : Json σ ν} (h : Reorder v w)
    (hv : v.Distinct) {t : Tree α}
    (ht : F.tree v = some t) : F.tree w = some t := by
  induction h generalizing t with
  | arr hlength _ ih =>
    obtain ⟨ts, rfl, hts⟩ := tree_arr.1 ht
    have hreorder : List.Forall₂ (fun v w => ∀ t, F.tree v = some t → F.tree w = some t) _ _ :=
      List.forall₂_iff_zip.2 ⟨hlength, fun {v w} hvw t ht =>
        ih (v, w) hvw (all_arr.1 hv v (List.of_mem_zip hvw).1) ht⟩
    exact tree_arr.2 ⟨ts, rfl, forall₂_trans_left hreorder hts fun _ _ _ h ht => h _ ht⟩
  | @obj ms ms' ns hperm hnames _ ih =>
    obtain ⟨ts, hts, rfl⟩ := tree_obj.1 ht
    obtain ⟨hnodup, -, hmembers⟩ := all_obj.1 hv
    obtain ⟨hlength, hnames⟩ := map_eq_map_iff_zip.1 hnames
    have hreorder : List.Forall₂ (fun m n => ∀ t, Spells F m t → Spells F n t) ms' ns :=
      List.forall₂_iff_zip.2 ⟨hlength, fun {m n} hmn t ht =>
        ⟨(hnames (m, n) hmn).symm.trans ht.1, ih (m, n) hmn
          (hmembers m (hperm.mem_iff.2 (List.of_mem_zip hmn).1)) ht.2⟩⟩
    obtain ⟨ts', hts', hperm'⟩ := List.perm_comp_forall₂ hperm.symm hts
    have hns := forall₂_trans_left hreorder hts' fun _ _ _ h ht => h _ ht
    have hsort := sortMembers_eq_of_perm hkey
      (by rw [← names_of_spells hts', ← (hperm.map Prod.fst).nodup_iff]; exact hnodup) hperm'
    exact tree_obj.2 ⟨ts', hns, by rw [hsort]⟩
  | _ => exact ht

/-- The tree of a value reads as a reordering of it. -/
theorem read_tree {v : Json σ ν} (hv : v.Distinct) {t : Tree α} (ht : F.tree v = some t) :
    ∃ w, F.read t = some w ∧ Reorder v w := by
  induction v generalizing t with
  | null =>
    obtain rfl := Option.some.inj ht
    exact ⟨_, rfl, .null⟩
  | bool b =>
    obtain rfl := Option.some.inj ht
    exact ⟨_, rfl, .bool b⟩
  | num n =>
    obtain ⟨m, hm, rfl⟩ := Option.map_eq_some_iff.1 ht
    exact ⟨.num n, by rw [Reader.read, F.ofNumeral_numeral n m hm]; rfl, .num n⟩
  | str s =>
    obtain rfl := Option.some.inj ht
    exact ⟨.str s, by rw [Reader.read, F.unescape_escape]; rfl, .str s⟩
  | arr vs ih =>
    obtain ⟨ts, rfl, hts⟩ := tree_arr.1 ht
    obtain ⟨ws, hreorder, hread⟩ := exists_forall₂ hts fun v hv' t ht => by
      obtain ⟨w, hw, hvw⟩ := ih v hv' (all_arr.1 hv v hv') ht
      exact ⟨w, hvw, hw⟩
    obtain ⟨hlength, hzip⟩ := List.forall₂_iff_zip.1 hreorder
    refine ⟨.arr ws, ?_, .arr hlength fun p hp => hzip hp⟩
    rw [Reader.read, Reader.readItems_eq, mapM_eq_some_iff.2 hread]
    rfl
  | obj ms ih =>
    obtain ⟨ts, hts, rfl⟩ := tree_obj.1 ht
    obtain ⟨hnodup, -, hmembers⟩ := all_obj.1 hv
    -- The tree holds the members sorted. Reading keeps that order until `arrange`, and each of the
    -- two reorderings is one of the members of `ms`.
    obtain ⟨ms', hts', hperm⟩ :=
      List.perm_comp_forall₂ (@sortMembers_perm _ _ _ _ F.key ts) hts.flip
    obtain ⟨ns, hreorder, hread⟩ := exists_forall₂ hts'.flip (T := fun t n =>
        ((F.unescape (F.escape t.1)).bind fun k => (F.read t.2).map fun v => (k, v)) = some n)
      (S := fun m n => m.1 = n.1 ∧ Reorder m.2 n.2) fun m hm t ht => by
        obtain ⟨w, hw, hvw⟩ := ih m (hperm.mem_iff.1 hm) (hmembers m (hperm.mem_iff.1 hm)) ht.2
        exact ⟨(m.1, w), ⟨rfl, hvw⟩, by rw [F.unescape_escape, hw, ← ht.1]; rfl⟩
    have hnames : ms'.map Prod.fst = ns.map Prod.fst := by
      rw [← List.forall₂_eq_eq_eq, List.forall₂_map_left_iff, List.forall₂_map_right_iff]
      exact hreorder.imp fun _ _ h => h.1
    obtain ⟨ns', harrange, hperm'⟩ := F.arrange_perm ns
      (by rw [← hnames, (hperm.map Prod.fst).nodup_iff]; exact hnodup)
    refine ⟨.obj ns', ?_, ?_⟩
    · have hnames' : F.readMembers ((sortMembers F.key ts).map (Prod.map F.escape id)) = some ns := by
        rw [Reader.readMembers_eq, List.mapM_map, mapM_eq_some_iff]
        exact hread
      rw [Reader.read, hnames', Option.bind_some, harrange]
      rfl
    -- Carry the order in which they are arranged back to the members that were there at first.
    · obtain ⟨ms'', hreorder', hperm''⟩ := List.perm_comp_forall₂ hperm' hreorder.flip
      obtain ⟨hlength, hzip⟩ := List.forall₂_iff_zip.1 hreorder'.flip
      refine .obj (hperm''.trans hperm).symm ?_ fun p hp => (hzip hp).2
      exact map_eq_map_iff_zip.2 ⟨hlength, fun p hp => (hzip hp).1⟩

theorem depth_of_tree {v : Json σ ν} {t : Tree α} (ht : F.tree v = some t) {d : ℕ}
    (hd : v.depth ≤ d) : t.depth ≤ d := by
  induction v generalizing t d with
  | null => obtain rfl := Option.some.inj ht; exact hd
  | bool b => obtain rfl := Option.some.inj ht; exact hd
  | num n => obtain ⟨m, -, rfl⟩ := Option.map_eq_some_iff.1 ht; exact hd
  | str s => obtain rfl := Option.some.inj ht; exact hd
  | arr vs ih =>
    obtain ⟨ts, rfl, hts⟩ := tree_arr.1 ht
    obtain ⟨d, rfl⟩ : ∃ e, d = e + 1 := ⟨d - 1, by simp [depth] at hd; omega⟩
    refine depth_arr_le.2 fun t ht => ?_
    obtain ⟨v, hv, hvt⟩ := exists_mem_left hts ht
    exact ih v hv hvt (depth_arr_le.1 hd v hv)
  | obj ms ih =>
    obtain ⟨ts, hts, rfl⟩ := tree_obj.1 ht
    obtain ⟨d, rfl⟩ : ∃ e, d = e + 1 := ⟨d - 1, by simp [depth] at hd; omega⟩
    refine depth_obj_le.2 fun m hm => ?_
    obtain ⟨t, htm, rfl⟩ := List.mem_map.1 hm
    obtain ⟨n, hn, hnt⟩ := exists_mem_left hts (mem_sortMembers.1 htm)
    exact ih n hn hnt.2 (depth_obj_le.1 hd n hn)

theorem read_obj {ms : List (List (Piece α) × Tree α)} {v : Json σ ν}
    (h : F.read (.obj ms) = some v) :
    ∃ ns ns', List.Forall₂ (fun m n => F.unescape m.1 = some n.1 ∧ F.read m.2 = some n.2) ms ns ∧
      F.arrange ns = some ns' ∧ v = .obj ns' := by
  rw [Reader.read] at h
  obtain ⟨ns', hbind, rfl⟩ := Option.map_eq_some_iff.1 h
  obtain ⟨ns, hread, harrange⟩ := Option.bind_eq_some_iff.1 hbind
  rw [Reader.readMembers_eq, mapM_eq_some_iff] at hread
  refine ⟨ns, ns', hread.imp fun m n hmn => ?_, harrange, rfl⟩
  obtain ⟨k, hk, hmn⟩ := Option.bind_eq_some_iff.1 hmn
  obtain ⟨w, hw, rfl⟩ := Option.map_eq_some_iff.1 hmn
  exact ⟨hk, hw⟩

/-- What is read names no member twice and is nested no deeper than its text. -/
theorem distinct_of_read {t : Tree α} {v : Json σ ν} (h : F.read t = some v) :
    v.Distinct ∧ ∀ d, t.depth ≤ d → v.depth ≤ d := by
  induction t using induct generalizing v with
  | null => obtain rfl := Option.some.inj h; exact ⟨.null, fun _ hd => hd⟩
  | bool b => obtain rfl := Option.some.inj h; exact ⟨.bool b, fun _ hd => hd⟩
  | num n =>
    obtain ⟨m, -, rfl⟩ := Option.map_eq_some_iff.1 h
    exact ⟨.num trivial, fun _ hd => hd⟩
  | str s =>
    obtain ⟨m, -, rfl⟩ := Option.map_eq_some_iff.1 h
    exact ⟨.str trivial, fun _ hd => hd⟩
  | arr ts ih =>
    rw [Reader.read, Reader.readItems_eq] at h
    obtain ⟨vs, hvs, rfl⟩ := Option.map_eq_some_iff.1 h
    rw [mapM_eq_some_iff] at hvs
    refine ⟨.arr fun v hv => ?_, fun d hd => ?_⟩
    · obtain ⟨t, ht, htv⟩ := exists_mem_left hvs hv
      exact (ih t ht htv).1
    · obtain ⟨d, rfl⟩ : ∃ e, d = e + 1 := ⟨d - 1, by simp [depth] at hd; omega⟩
      refine depth_arr_le.2 fun v hv => ?_
      obtain ⟨t, ht, htv⟩ := exists_mem_left hvs hv
      exact (ih t ht htv).2 d (depth_arr_le.1 hd t ht)
  | obj ms ih =>
    obtain ⟨ns, ns', hread, harrange, rfl⟩ := read_obj h
    -- Arranging may drop members that were named twice, and adds none.
    have hsubset := F.subset_of_arrange ns ns' harrange
    refine ⟨.obj (F.nodup_of_arrange ns ns' harrange) (fun _ _ => trivial) fun n hn => ?_,
      fun d hd => ?_⟩
    · obtain ⟨m, hm, hmn⟩ := exists_mem_left hread (hsubset hn)
      exact (ih m hm hmn.2).1
    · obtain ⟨d, rfl⟩ : ∃ e, d = e + 1 := ⟨d - 1, by simp [depth] at hd; omega⟩
      refine depth_obj_le.2 fun n hn => ?_
      obtain ⟨m, hm, hmn⟩ := exists_mem_left hread (hsubset hn)
      exact (ih m hm hmn.2).2 d (depth_obj_le.1 hd m hm)

theorem append_eq_some_iff {v : Json σ ν} {s : List α} :
    F.append v = some s ↔ ∃ t, F.tree v = some t ∧ print t = s := by
  rw [append_eq, Option.map_eq_some_iff]

/-- The values a program writes are those whose numbers it writes. -/
theorem isSome_append {v : Json σ ν} :
    (F.append v).isSome ↔ v.All (fun _ => True) (fun n => (F.numeral n).isSome) fun _ => True := by
  rw [append_eq, Option.isSome_map]
  induction v with
  | num n => simp [tree]
  | arr vs ih =>
    rw [tree, treeItems_eq, Option.isSome_map, isSome_mapM, all_arr]
    exact forall₂_congr ih
  | obj ms ih =>
    rw [tree, treeMembers_eq, Option.isSome_map, isSome_mapM, all_obj]
    simp only [Option.isSome_map, true_and, implies_true]
    exact forall₂_congr ih
  | _ => simp [tree]

variable (F)

/-- The value a program reads off a text whose arrays and objects nest at most `d` deep. -/
def strictParse (d : ℕ) (s : List α) : Option (Json σ ν) := (parse d s).bind F.read

/-- What is written is read back, up to the order of members. -/
theorem strictParse_append {v : Json σ ν} (hv : v.Distinct) {d : ℕ} (hd : v.depth ≤ d)
    {s : List α} (h : F.append v = some s) : ∃ w, F.strictParse d s = some w ∧ Reorder v w := by
  obtain ⟨t, ht, rfl⟩ := append_eq_some_iff.1 h
  rw [strictParse, parse_print t (depth_of_tree ht hd), Option.bind_some]
  exact read_tree hv ht

theorem append_eq_iff (hkey : Function.Injective F.key) {v w : Json σ ν} (hv : v.Distinct)
    (hw : w.Distinct) {s s' : List α}
    (h : F.append v = some s) (h' : F.append w = some s') : s = s' ↔ Reorder v w := by
  obtain ⟨t, ht, rfl⟩ := append_eq_some_iff.1 h
  obtain ⟨u, hu, rfl⟩ := append_eq_some_iff.1 h'
  rw [print_injective.eq_iff]
  refine ⟨fun heq => ?_, fun hreorder => ?_⟩
  · subst heq
    obtain ⟨x, hx, hvx⟩ := read_tree hv ht
    obtain ⟨y, hy, hwy⟩ := read_tree hw hu
    obtain rfl : x = y := Option.some.inj (hx.symm.trans hy)
    exact reorder_of_sortBy_eq ((hvx.sortBy_eq hkey hv).trans
      (hwy.sortBy_eq hkey hw).symm)
  · exact Option.some.inj ((tree_of_reorder hkey hreorder hv ht).symm.trans hu)

theorem append_of_reorder (hkey : Function.Injective F.key) {v w : Json σ ν} (hv : v.Distinct)
    (h : Reorder v w) {s : List α}
    (hs : F.append v = some s) : F.append w = some s := by
  obtain ⟨t, ht, rfl⟩ := append_eq_some_iff.1 hs
  exact append_eq_some_iff.2 ⟨t, tree_of_reorder hkey h hv ht, rfl⟩

/-- Reading a text and writing its value give the text back. -/
def IsCanonical (d : ℕ) (s : List α) : Prop := (F.strictParse d s).bind F.append = some s

theorem isCanonical_iff (hkey : Function.Injective F.key) {d : ℕ} {s : List α} :
    F.IsCanonical d s ↔ ∃ v, v.Distinct ∧ v.depth ≤ d ∧ F.append v = some s := by
  refine ⟨fun h => ?_, fun ⟨v, hv, hd, h⟩ => ?_⟩
  · obtain ⟨v, hv, happend⟩ := Option.bind_eq_some_iff.1 h
    obtain ⟨t, ht, hread⟩ := Option.bind_eq_some_iff.1 hv
    obtain ⟨hdistinct, hdepth⟩ := distinct_of_read hread
    exact ⟨v, hdistinct, hdepth d (depth_parse ht), happend⟩
  · obtain ⟨w, hw, hreorder⟩ := F.strictParse_append hv hd h
    rw [IsCanonical, hw, Option.bind_some]
    exact F.append_of_reorder hkey hv hreorder h

end Format

end Json
