import Mathlib.Data.List.TakeWhile
import ZolanaTvc.Json.Text

/-!
# What a JSON text is made of

The readers of the grammar, inverted: `Json.Spelling`, `Json.Separated`, `Json.Listed` and `Json.Node`
say what a reader that succeeded went over, one case for each production. Each leaves a shorter rest,
so a text is nested less deep than it is long, and the bound on the nesting may be the length of the
text: `Json.parse_length_iff` says that nothing is lost by it.
-/

namespace Json

open CodeUnit

variable {α β : Type}

section Takes

/-- The text starts with at least `k` units, all in `P`, before the rest `r`. -/
def Takes (P : α → Prop) (k : ℕ) (s r : List α) : Prop :=
  ∃ t, s = t ++ r ∧ k ≤ t.length ∧ ∀ u ∈ t, P u

variable {P : α → Prop} {k l : ℕ} {s s' r : List α}

theorem Takes.refl : Takes P 0 s s := ⟨[], rfl, le_rfl, by simp⟩

theorem Takes.cons {u : α} (hu : P u) (h : Takes P k s r) : Takes P (k + 1) (u :: s) r := by
  obtain ⟨t, rfl, hk, ht⟩ := h
  exact ⟨u :: t, rfl, Nat.succ_le_succ hk, List.forall_mem_cons.2 ⟨hu, ht⟩⟩

theorem Takes.trans (h : Takes P k s s') (h' : Takes P l s' r) : Takes P (k + l) s r := by
  obtain ⟨t, rfl, hk, ht⟩ := h
  obtain ⟨t', rfl, hl, ht'⟩ := h'
  refine ⟨t ++ t', (List.append_assoc t t' r).symm, ?_, fun u hu => ?_⟩
  · rw [List.length_append]
    omega
  · rcases List.mem_append.1 hu with hu | hu
    · exact ht u hu
    · exact ht' u hu

theorem Takes.mono (h : Takes P l s r) (hk : k ≤ l) : Takes P k s r := by
  obtain ⟨t, hs, hl, ht⟩ := h
  exact ⟨t, hs, hk.trans hl, ht⟩

theorem Takes.length_le (h : Takes P k s r) : r.length + k ≤ s.length := by
  obtain ⟨t, rfl, hk, -⟩ := h
  rw [List.length_append]
  omega

end Takes

variable [CodeUnit α]

section Numeral

/-- The units that numbers are written with. -/
def isNumeric (u : α) : Prop :=
  (digitValue (code u)).isSome = true ∨
    isChar '-' u = true ∨ isChar '+' u = true ∨ isChar '.' u = true ∨
    isChar 'e' u = true ∨ isChar 'E' u = true

theorem takes_digits (s : List α) : Takes isNumeric (takeDigits s).1.length s (takeDigits s).2 := by
  induction s with
  | nil => exact .refl
  | cons u s ih =>
    rw [takeDigits]
    split
    · rename_i d hd
      exact .cons (.inl (by rw [hd]; rfl)) ih
    · exact .refl

theorem takes_sign (s : List α) : Takes isNumeric 0 s (takeSign s).2 := by
  cases s with
  | nil => exact .refl
  | cons u s =>
    rw [takeSign]
    split_ifs with hminus hplus
    · exact (Takes.cons (.inr (.inl hminus)) .refl).mono (Nat.zero_le _)
    · exact (Takes.cons (.inr (.inr (.inl hplus))) .refl).mono (Nat.zero_le _)
    · exact .refl

theorem takes_someDigits {s r : List α} {ds : {ds : List (Fin 10) // ds ≠ []}}
    (h : someDigits s = some (ds, r)) : Takes isNumeric 1 s r := by
  unfold someDigits at h
  split_ifs at h with hne
  obtain ⟨rfl, rfl⟩ := Prod.mk.inj (Option.some.inj h)
  exact (takes_digits s).mono (List.length_pos_iff.2 hne)

theorem takes_wholePart {s r : List α} {ds : {ds : List (Fin 10) // IsWhole ds}}
    (h : wholePart s = some (ds, r)) : Takes isNumeric 1 s r := by
  unfold wholePart at h
  split_ifs at h with hwhole
  obtain ⟨rfl, rfl⟩ := Prod.mk.inj (Option.some.inj h)
  exact (takes_digits s).mono (List.length_pos_iff.2 hwhole.1)

theorem takes_fracPart {s r : List α} {frac : Option {ds : List (Fin 10) // ds ≠ []}}
    (h : fracPart s = some (frac, r)) : Takes isNumeric 0 s r := by
  cases s with
  | nil =>
    obtain ⟨-, rfl⟩ := Prod.mk.inj (Option.some.inj h)
    exact .refl
  | cons u s =>
    rw [fracPart] at h
    split_ifs at h with hdot
    · obtain ⟨⟨ds, r'⟩, hdigits, heq⟩ := Option.map_eq_some_iff.1 h
      obtain ⟨-, rfl⟩ := Prod.mk.inj heq
      have hdot : isNumeric u := .inr (.inr (.inr (.inl hdot)))
      exact (Takes.cons hdot (takes_someDigits hdigits)).mono (Nat.zero_le _)
    · obtain ⟨-, rfl⟩ := Prod.mk.inj (Option.some.inj h)
      exact .refl

theorem takes_expPart {s r : List α}
    {exp : Option (Option Bool × {ds : List (Fin 10) // ds ≠ []})}
    (h : expPart s = some (exp, r)) : Takes isNumeric 0 s r := by
  cases s with
  | nil =>
    obtain ⟨-, rfl⟩ := Prod.mk.inj (Option.some.inj h)
    exact .refl
  | cons u s =>
    rw [expPart] at h
    split_ifs at h with hexp
    · obtain ⟨⟨ds, r'⟩, hdigits, heq⟩ := Option.map_eq_some_iff.1 h
      obtain ⟨-, rfl⟩ := Prod.mk.inj heq
      have hexp : isNumeric u := .inr (.inr (.inr (.inr (by simpa using hexp))))
      exact (Takes.cons hexp ((takes_sign s).trans (takes_someDigits hdigits))).mono (Nat.zero_le _)
    · obtain ⟨-, rfl⟩ := Prod.mk.inj (Option.some.inj h)
      exact .refl

/-- The first unit of a number is its sign or a digit. -/
theorem head_numeral {u : α} {s r : List α} {n : Numeral} (h : numeral (u :: s) = some (n, r)) :
    isChar '-' u = true ∨ (digitValue (code u)).isSome = true := by
  obtain ⟨⟨whole, s₁⟩, hwhole, -⟩ := Option.bind_eq_some_iff.1 h
  by_cases hminus : isChar '-' u = true
  · exact .inl hminus
  · right
    rw [takeMinus, if_neg hminus] at hwhole
    unfold wholePart at hwhole
    split_ifs at hwhole with hdigits
    by_contra hdigit
    rw [Bool.not_eq_true, Option.isSome_eq_false_iff, Option.isNone_iff_eq_none] at hdigit
    rw [takeDigits, hdigit] at hdigits
    exact hdigits.1 rfl

theorem takes_numeral {s r : List α} {n : Numeral} (h : numeral s = some (n, r)) :
    Takes isNumeric 1 s r := by
  obtain ⟨⟨whole, s₁⟩, hwhole, h⟩ := Option.bind_eq_some_iff.1 h
  obtain ⟨⟨frac, s₂⟩, hfrac, h⟩ := Option.bind_eq_some_iff.1 h
  obtain ⟨⟨exp, s₃⟩, hexp, h⟩ := Option.bind_eq_some_iff.1 h
  obtain ⟨-, rfl⟩ := Prod.mk.inj (Option.some.inj h)
  have hrest := (takes_wholePart hwhole).trans ((takes_fracPart hfrac).trans (takes_expPart hexp))
  cases s with
  | nil => exact hrest
  | cons u s =>
    rw [takeMinus] at hrest
    split_ifs at hrest with hminus
    · exact (Takes.cons (.inr (.inl hminus)) hrest).mono (by omega)
    · exact hrest

end Numeral

section Productions

/-- The rest of a string after its opening quote: its pieces, and what follows its closing quote. -/
inductive Spelling : List α → List (Piece α) → List α → Prop where
  | quote {u : α} {s : List α} : isChar '"' u = true → Spelling (u :: s) [] s
  | short {u e : α} {v : UInt16} {s r : List α} {ps : List (Piece α)} : isChar '\\' u = true →
      escapeValue (code e) = some v → Spelling s ps r → Spelling (u :: e :: s) (.esc v :: ps) r
  | long {u e a b c d : α} {v : UInt16} {s r : List α} {ps : List (Piece α)} :
      isChar '\\' u = true → escapeValue (code e) = none → isChar 'u' e = true →
      hexEscape a b c d = some v → Spelling s ps r →
      Spelling (u :: e :: a :: b :: c :: d :: s) (.esc v :: ps) r
  | lit {u : {u : α // IsPlain u}} {s r : List α} {ps : List (Piece α)} :
      Spelling s ps r → Spelling (u.val :: s) (.lit u :: ps) r

theorem spelling_of_pieces {s r : List α} {ps : List (Piece α)} (h : pieces s = some (ps, r)) :
    Spelling s ps r := by
  -- One case for each branch of `pieces`; those that fail are impossible.
  induction s using pieces.induct generalizing ps r with
  | case1 => simp [pieces] at h
  | case2 u s hquote =>
    rw [pieces.eq_def] at h
    simp only [hquote, if_true, Option.some.injEq, Prod.mk.injEq] at h
    obtain ⟨rfl, rfl⟩ := h
    exact .quote hquote
  | case3 u hquote hslash => simp [pieces.eq_def, hquote, hslash] at h
  | case4 u hquote hslash e s v hv ih =>
    rw [pieces.eq_def] at h
    simp only [if_neg hquote, if_pos hslash, hv] at h
    obtain ⟨⟨ps', r'⟩, hpieces, heq⟩ := Option.map_eq_some_iff.1 h
    obtain ⟨rfl, rfl⟩ := Prod.mk.inj heq
    exact .short hslash hv (ih hpieces)
  | case5 u hquote hslash e hnone hu a b c d s ih =>
    rw [pieces.eq_def] at h
    simp only [if_neg hquote, if_pos hslash, hnone, if_pos hu] at h
    obtain ⟨v, hv, h⟩ := Option.bind_eq_some_iff.1 h
    obtain ⟨⟨ps', r'⟩, hpieces, heq⟩ := Option.map_eq_some_iff.1 h
    obtain ⟨rfl, rfl⟩ := Prod.mk.inj heq
    exact .long hslash hnone hu hv (ih hpieces)
  | case6 u hquote hslash e s hnone hu hshort =>
    rw [pieces.eq_def] at h
    simp only [if_neg hquote, if_pos hslash, hnone, if_pos hu] at h
    exact absurd h (by simp)
  | case7 u hquote hslash e s hnone hu => simp [pieces.eq_def, hquote, hslash, hnone, hu] at h
  | case8 u s hquote hslash hplain ih =>
    rw [pieces.eq_def] at h
    simp only [if_neg hquote, if_neg hslash, dif_pos hplain] at h
    obtain ⟨⟨ps', r'⟩, hpieces, heq⟩ := Option.map_eq_some_iff.1 h
    obtain ⟨rfl, rfl⟩ := Prod.mk.inj heq
    exact .lit (u := ⟨u, hplain⟩) (ih hpieces)
  | case9 u s hquote hslash hplain => simp [pieces.eq_def, hquote, hslash, hplain] at h

theorem Spelling.length_lt {s r : List α} {ps : List (Piece α)} (h : Spelling s ps r) :
    r.length < s.length := by
  induction h <;> simp only [List.length_cons] <;> omega

/-- Items with a comma after each but the last, and the closing character. -/
inductive Separated (item : Parser α β) (close : Char) : List α → List β → List α → Prop where
  | last {u : α} {s s' r : List α} {x : β} : item s = some (x, s') → skipSpace s' = u :: r →
      isChar close u = true → Separated item close s [x] r
  | comma {u : α} {s s' s'' r : List α} {x : β} {xs : List β} : item s = some (x, s') →
      skipSpace s' = u :: s'' → isChar ',' u = true → Separated item close s'' xs r →
      Separated item close s (x :: xs) r

theorem separated_of_sepBy {item : Parser α β} {close : Char} {n : ℕ} {s r : List α} {xs : List β}
    (h : sepBy item close n s = some (xs, r)) : Separated item close s xs r := by
  induction n generalizing s xs with
  | zero => simp [sepBy] at h
  | succ n ih =>
    rw [sepBy] at h
    cases hitem : item s with
    | none => simp [hitem] at h
    | some p =>
      obtain ⟨x, s'⟩ := p
      simp only [hitem] at h
      split at h
      · simp at h
      · rename_i u s'' hspace
        split_ifs at h with hcomma hclose
        · obtain ⟨⟨ys, r'⟩, hys, heq⟩ := Option.map_eq_some_iff.1 h
          obtain ⟨rfl, rfl⟩ := Prod.mk.inj heq
          exact .comma hitem hspace hcomma (ih hys)
        · obtain ⟨rfl, rfl⟩ := Prod.mk.inj (Option.some.inj h)
          exact .last hitem hspace hclose

/-- The rest of an array or object after its opening character. -/
inductive Listed (item : Parser α β) (close : Char) : List α → List β → List α → Prop where
  | nil {u : α} {s r : List α} : skipSpace s = u :: r → isChar close u = true →
      Listed item close s [] r
  | items {u : α} {s s' r : List α} {xs : List β} : skipSpace s = u :: s' →
      isChar close u = false → Separated item close (u :: s') xs r → Listed item close s xs r

theorem listed_of_listOf {item : Parser α β} {close : Char} {s r : List α} {xs : List β}
    (h : listOf item close s = some (xs, r)) : Listed item close s xs r := by
  rw [listOf] at h
  split at h
  · simp at h
  · rename_i u s' hspace
    split_ifs at h with hclose
    · obtain ⟨rfl, rfl⟩ := Prod.mk.inj (Option.some.inj h)
      exact .nil hspace hclose
    · exact .items hspace (by simpa using hclose) (separated_of_sepBy h)

/-- A name, a colon and a value. -/
theorem member_eq_some {value : Parser α (Tree α)} {s r : List α} {m : List (Piece α) × Tree α}
    (h : member value s = some (m, r)) :
    ∃ u s₁ s₂ v s₃, skipSpace s = u :: s₁ ∧ isChar '"' u = true ∧ Spelling s₁ m.1 s₂ ∧
      skipSpace s₂ = v :: s₃ ∧ isChar ':' v = true ∧ value s₃ = some (m.2, r) := by
  simp only [member] at h
  split at h
  · simp at h
  · rename_i u s₁ hspace
    split_ifs at h with hquote
    split at h
    · simp at h
    · rename_i k s₂ hpieces
      split at h
      · simp at h
      · rename_i v s₃ hspace'
        split_ifs at h with hcolon
        obtain ⟨⟨t, r'⟩, hvalue, heq⟩ := Option.map_eq_some_iff.1 h
        obtain ⟨rfl, rfl⟩ := Prod.mk.inj heq
        exact ⟨u, s₁, s₂, v, s₃, hspace, hquote, spelling_of_pieces hpieces, hspace', hcolon, hvalue⟩

/-- The values that are written as words. -/
def words : List (Char × List Char × Tree α) :=
  [('n', ['u', 'l', 'l'], .null), ('t', ['r', 'u', 'e'], .bool true),
    ('f', ['a', 'l', 's', 'e'], .bool false)]

/-- A value from its first unit on; the items of arrays and objects are read by `inner`. -/
inductive Node (inner : Option (Parser α (Tree α))) : List α → Tree α → List α → Prop where
  | str {u : α} {s r : List α} {ps : List (Piece α)} : isChar '"' u = true → Spelling s ps r →
      Node inner (u :: s) (.str ps) r
  | arr {u : α} {s r : List α} {value : Parser α (Tree α)} {ts : List (Tree α)} :
      isChar '[' u = true → inner = some value → Listed value ']' s ts r →
      Node inner (u :: s) (.arr ts) r
  | obj {u : α} {s r : List α} {value : Parser α (Tree α)}
      {ms : List (List (Piece α) × Tree α)} : isChar '{' u = true → inner = some value →
      Listed (member value) '}' s ms r → Node inner (u :: s) (.obj ms) r
  | word {u : α} {s r : List α} {c : Char} {cs : List Char} {t : Tree α} : (c, cs, t) ∈ words →
      isChar c u = true → keyword cs s = some r → Node inner (u :: s) t r
  | num {u : α} {s r : List α} {n : Numeral} : numeral (u :: s) = some (n, r) →
      Node inner (u :: s) (.num n) r

theorem node_eq_some {inner : Option (Parser α (Tree α))} {s r : List α} {t : Tree α}
    (h : node inner s = some (t, r)) : Node inner (skipSpace s) t r := by
  simp only [node] at h
  split at h
  · simp at h
  · rename_i u s' hspace
    rw [hspace]
    -- The reader looks at one unit, and so does each constructor.
    split_ifs at h with hquote hbracket hbrace hn ht hf
    · obtain ⟨⟨ps, r'⟩, hpieces, heq⟩ := Option.map_eq_some_iff.1 h
      obtain ⟨rfl, rfl⟩ := Prod.mk.inj heq
      exact .str hquote (spelling_of_pieces hpieces)
    · obtain ⟨value, hinner, h⟩ := Option.bind_eq_some_iff.1 h
      obtain ⟨⟨ts, r'⟩, hlist, heq⟩ := Option.map_eq_some_iff.1 h
      obtain ⟨rfl, rfl⟩ := Prod.mk.inj heq
      exact .arr hbracket hinner (listed_of_listOf hlist)
    · obtain ⟨value, hinner, h⟩ := Option.bind_eq_some_iff.1 h
      obtain ⟨⟨ms, r'⟩, hlist, heq⟩ := Option.map_eq_some_iff.1 h
      obtain ⟨rfl, rfl⟩ := Prod.mk.inj heq
      exact .obj hbrace hinner (listed_of_listOf hlist)
    · obtain ⟨r', hword, heq⟩ := Option.map_eq_some_iff.1 h
      obtain ⟨rfl, rfl⟩ := Prod.mk.inj heq
      exact .word (by simp [words]) hn hword
    · obtain ⟨r', hword, heq⟩ := Option.map_eq_some_iff.1 h
      obtain ⟨rfl, rfl⟩ := Prod.mk.inj heq
      exact .word (by simp [words]) ht hword
    · obtain ⟨r', hword, heq⟩ := Option.map_eq_some_iff.1 h
      obtain ⟨rfl, rfl⟩ := Prod.mk.inj heq
      exact .word (by simp [words]) hf hword
    · obtain ⟨⟨n, r'⟩, hnumeral, heq⟩ := Option.map_eq_some_iff.1 h
      obtain ⟨rfl, rfl⟩ := Prod.mk.inj heq
      exact .num hnumeral

end Productions

section Shorter

theorem length_skipSpace_le (s : List α) : (skipSpace s).length ≤ s.length :=
  List.length_dropWhile_le isSpace s

/-- What follows the first unit that is no space is shorter than the text. -/
theorem length_of_skipSpace {u : α} {s s' : List α} (h : skipSpace s = u :: s') :
    s'.length < s.length := by
  have hle := length_skipSpace_le s
  rw [h, List.length_cons] at hle
  omega

theorem length_keyword {cs : List Char} {s r : List α} (h : keyword cs s = some r) :
    r.length ≤ s.length := by
  induction cs generalizing s with
  | nil =>
    obtain rfl := Option.some.inj h
    exact le_rfl
  | cons c cs ih =>
    cases s with
    | nil => simp [keyword] at h
    | cons u s =>
      rw [keyword] at h
      split_ifs at h
      have hle := ih h
      rw [List.length_cons]
      omega

/-- A reader leaves less than it is given. -/
def Shortens (item : Parser α β) : Prop :=
  ∀ s x r, item s = some (x, r) → r.length < s.length

/-- Every item was read off a part of the text. -/
theorem Separated.parts {item : Parser α β} {close : Char} (hitem : Shortens item)
    {s r : List α} {xs : List β} (h : Separated item close s xs r) :
    r.length < s.length ∧
      ∀ x ∈ xs, ∃ s' r', item s' = some (x, r') ∧ s'.length ≤ s.length ∧ r.length < r'.length := by
  induction h with
  | last hread hspace _ =>
    have hlt := hitem _ _ _ hread
    have hspace := length_of_skipSpace hspace
    exact ⟨by omega, List.forall_mem_singleton.2 ⟨_, _, hread, le_rfl, hspace⟩⟩
  | comma hread hspace _ _ ih =>
    obtain ⟨hrest, hparts⟩ := ih
    have hlt := hitem _ _ _ hread
    have hspace := length_of_skipSpace hspace
    refine ⟨by omega, List.forall_mem_cons.2 ⟨⟨_, _, hread, le_rfl, by omega⟩, fun x hx => ?_⟩⟩
    obtain ⟨s', r', hread', hle, hr⟩ := hparts x hx
    exact ⟨s', r', hread', by omega, hr⟩

theorem Listed.parts {item : Parser α β} {close : Char} (hitem : Shortens item) {s r : List α}
    {xs : List β} (h : Listed item close s xs r) :
    r.length < s.length ∧
      ∀ x ∈ xs, ∃ s' r', item s' = some (x, r') ∧ s'.length ≤ s.length ∧ r.length < r'.length := by
  cases h with
  | nil hspace _ => exact ⟨length_of_skipSpace hspace, by simp⟩
  | items hspace _ h =>
    obtain ⟨hrest, hparts⟩ := h.parts hitem
    have hle := length_skipSpace_le s
    rw [← hspace] at hrest hparts
    refine ⟨by omega, fun x hx => ?_⟩
    obtain ⟨s', r', hread, hs', hr⟩ := hparts x hx
    exact ⟨s', r', hread, hs'.trans hle, hr⟩

/-- The value of a member was read off a part of the member. -/
theorem member_parts {value : Parser α (Tree α)} {s r : List α} {m : List (Piece α) × Tree α}
    (h : member value s = some (m, r)) :
    ∃ s', value s' = some (m.2, r) ∧ s'.length < s.length := by
  obtain ⟨u, s₁, s₂, v, s₃, hspace, -, hname, hspace', -, hvalue⟩ := member_eq_some h
  have h₁ := length_of_skipSpace hspace
  have h₂ := hname.length_lt
  have h₃ := length_of_skipSpace hspace'
  exact ⟨s₃, hvalue, by omega⟩

theorem shortens_member {value : Parser α (Tree α)} (h : Shortens value) :
    Shortens (member value) := by
  intro s m r hmember
  obtain ⟨s', hvalue, hlt⟩ := member_parts hmember
  exact (h _ _ _ hvalue).trans hlt

/-- How deep a value nests and how long its rest is add up to less than its text. -/
theorem Node.depth_lt {inner : Option (Parser α (Tree α))}
    (hinner : ∀ value ∈ inner, ∀ s t r, value s = some (t, r) → t.depth + r.length < s.length)
    {s r : List α} {t : Tree α} (h : Node inner s t r) : t.depth + r.length < s.length := by
  -- A reader that pays for depth with its text shortens it in particular.
  have hshort : ∀ value ∈ inner, Shortens value := by
    intro value hvalue s t r hread
    have hlt := hinner value hvalue s t r hread
    omega
  cases h with
  | @str u s _ _ _ hname =>
    have hlt := hname.length_lt
    show 0 + r.length < s.length + 1
    omega
  | @arr u s _ value ts _ hvalue hlist =>
    obtain ⟨hrest, hparts⟩ := hlist.parts (hshort value hvalue)
    -- Each part is read within the brackets, which take two characters.
    have hdepth : (Json.arr ts).depth ≤ (s.length - r.length - 1) + 1 := by
      refine depth_arr_le.2 fun t ht => ?_
      obtain ⟨s', r', hread, hs', hr⟩ := hparts t ht
      have hlt := hinner value hvalue _ _ _ hread
      omega
    rw [List.length_cons]
    omega
  | @obj u s _ value ms _ hvalue hlist =>
    obtain ⟨hrest, hparts⟩ := hlist.parts (shortens_member (hshort value hvalue))
    have hdepth : (Json.obj ms).depth ≤ (s.length - r.length - 1) + 1 := by
      refine depth_obj_le.2 fun m hm => ?_
      obtain ⟨s', r', hread, hs', hr⟩ := hparts m hm
      obtain ⟨s₁, hvalue', hlt₁⟩ := member_parts hread
      have hlt := hinner value hvalue _ _ _ hvalue'
      omega
    rw [List.length_cons]
    omega
  | @word u s _ c cs t hmem _ hword =>
    have hle := length_keyword hword
    have hdepth : ∀ w ∈ (words : List (Char × List Char × Tree α)), w.2.2.depth = 0 := by
      simp [words, depth]
    rw [hdepth _ hmem, List.length_cons]
    omega
  | @num u s _ n h =>
    have hle := (takes_numeral h).length_le
    show 0 + r.length < (u :: s).length
    omega

theorem depth_lt_of_value {d : ℕ} {s r : List α} {t : Tree α} (h : value d s = some (t, r)) :
    t.depth + r.length < s.length := by
  have hskip := length_skipSpace_le s
  induction d generalizing s r t with
  | zero =>
    have hnode := (node_eq_some h).depth_lt (by simp)
    omega
  | succ d ih =>
    have hnode := (node_eq_some h).depth_lt (by
      rintro value hvalue s t r hread
      obtain rfl := Option.some.inj hvalue
      exact ih hread (length_skipSpace_le s))
    omega

end Shorter

section Depth

theorem sepBy_congr {item item' : Parser α β} {close : Char} {n : ℕ} {s r : List α} {xs : List β}
    (h : sepBy item close n s = some (xs, r))
    (hitem : ∀ x ∈ xs, ∀ s r, item s = some (x, r) → item' s = some (x, r)) :
    sepBy item' close n s = some (xs, r) := by
  induction n generalizing s xs with
  | zero => simp [sepBy] at h
  | succ n ih =>
    rw [sepBy] at h ⊢
    cases hread : item s with
    | none => simp [hread] at h
    | some p =>
      obtain ⟨x, s'⟩ := p
      simp only [hread] at h
      split at h
      · simp at h
      · rename_i u s'' hspace
        split_ifs at h with hcomma hclose
        · obtain ⟨⟨ys, r'⟩, hys, heq⟩ := Option.map_eq_some_iff.1 h
          obtain ⟨rfl, rfl⟩ := Prod.mk.inj heq
          obtain ⟨hx, hrest⟩ := List.forall_mem_cons.1 hitem
          simp only [hx _ _ hread, hspace, if_pos hcomma, ih hys hrest]
          rfl
        · obtain ⟨rfl, rfl⟩ := Prod.mk.inj (Option.some.inj h)
          simp only [hitem x (List.mem_singleton_self x) _ _ hread, hspace, if_neg hcomma,
            if_pos hclose]

theorem listOf_congr {item item' : Parser α β} {close : Char} {s r : List α} {xs : List β}
    (h : listOf item close s = some (xs, r))
    (hitem : ∀ x ∈ xs, ∀ s r, item s = some (x, r) → item' s = some (x, r)) :
    listOf item' close s = some (xs, r) := by
  rw [listOf] at h ⊢
  split at h
  · simp at h
  · split_ifs at h ⊢ with hclose
    · exact h
    · exact sepBy_congr h hitem

theorem member_congr {value value' : Parser α (Tree α)} {s r : List α}
    {m : List (Piece α) × Tree α} (h : member value s = some (m, r))
    (hvalue : ∀ s r, value s = some (m.2, r) → value' s = some (m.2, r)) :
    member value' s = some (m, r) := by
  simp only [member] at h ⊢
  split at h
  · simp at h
  · split_ifs at h with hquote
    split at h
    · simp at h
    · split at h
      · simp at h
      · split_ifs at h with hcolon
        obtain ⟨⟨t, r'⟩, hread, heq⟩ := Option.map_eq_some_iff.1 h
        obtain ⟨rfl, rfl⟩ := Prod.mk.inj heq
        simp only [if_pos hquote, if_pos hcolon, hvalue _ _ hread]
        rfl

/-- A value is read alike by readers of its parts that agree on what is nested less deep. -/
theorem node_congr {inner inner' : Option (Parser α (Tree α))} {s r : List α} {t : Tree α}
    (h : node inner s = some (t, r))
    (hinner : ∀ value, inner = some value → 0 < t.depth → ∃ value', inner' = some value' ∧
      ∀ v, v.depth < t.depth → ∀ s r, value s = some (v, r) → value' s = some (v, r)) :
    node inner' s = some (t, r) := by
  simp only [node] at h ⊢
  split at h
  · simp at h
  · split_ifs at h ⊢ with hquote hbracket hbrace
    · exact h
    · obtain ⟨value, hvalue, h⟩ := Option.bind_eq_some_iff.1 h
      obtain ⟨⟨ts, r'⟩, hlist, heq⟩ := Option.map_eq_some_iff.1 h
      obtain ⟨rfl, rfl⟩ := Prod.mk.inj heq
      -- The parts of a list nest less deep than the list, so both readers of the parts agree on
      -- them.
      obtain ⟨value', rfl, hsame⟩ := hinner value hvalue (Nat.succ_pos _)
      have hitems : ∀ v ∈ ts, v.depth < (arr ts).depth := fun v hv =>
        Nat.lt_succ_of_le (depth_arr_le.1 le_rfl v hv)
      rw [Option.bind_some, listOf_congr hlist fun v hv => hsame v (hitems v hv)]
      rfl
    · obtain ⟨value, hvalue, h⟩ := Option.bind_eq_some_iff.1 h
      obtain ⟨⟨ms, r'⟩, hlist, heq⟩ := Option.map_eq_some_iff.1 h
      obtain ⟨rfl, rfl⟩ := Prod.mk.inj heq
      obtain ⟨value', rfl, hsame⟩ := hinner value hvalue (Nat.succ_pos _)
      have hmembers : ∀ m ∈ ms, m.2.depth < (obj ms).depth := fun m hm =>
        Nat.lt_succ_of_le (depth_obj_le.1 le_rfl m hm)
      rw [Option.bind_some, listOf_congr hlist fun m hm s r hread =>
        member_congr hread (hsame m.2 (hmembers m hm))]
      rfl
    all_goals exact h

/-- What a value is read as does not depend on the bound it is within. -/
theorem value_of_depth_le {d e : ℕ} {s r : List α} {t : Tree α} (h : value d s = some (t, r))
    (hdepth : t.depth ≤ e) : value e s = some (t, r) := by
  induction d generalizing e s r t with
  | zero =>
    cases e with
    | zero => exact h
    | succ e => exact node_congr h (by simp)
  | succ d ih =>
    cases e with
    | zero => exact node_congr h fun _ _ hpos => absurd hpos (by omega)
    | succ e =>
      refine node_congr h fun _ heq hpos => ?_
      obtain rfl := Option.some.inj heq
      exact ⟨value e, rfl, fun v hv s r hread => ih hread (by omega)⟩

/-- A JSON text is read within a bound of its length. -/
theorem parse_length_iff {s : List α} {t : Tree α} :
    parse s.length s = some t ↔ ∃ d, parse d s = some t := by
  refine ⟨fun h => ⟨_, h⟩, fun ⟨d, h⟩ => ?_⟩
  rw [parse] at h
  split at h
  · simp at h
  · rename_i t' r hvalue
    split_ifs at h with hend
    obtain rfl := Option.some.inj h
    have hlt := depth_lt_of_value hvalue
    have hdepth : t'.depth ≤ s.length := by omega
    simp only [parse, value_of_depth_le hvalue hdepth, if_pos hend]

end Depth

end Json
