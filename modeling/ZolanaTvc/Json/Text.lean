import ZolanaTvc.Json.Value
import Mathlib.Data.Fintype.Basic
import Mathlib.Tactic.FinCases

/-!
# JSON texts

The grammar of RFC 8259 over any code units, as a parser that keeps what a reader may still need:
the escapes of a string and the digits of a number. Both the text of a Rust `str` and that of a
JavaScript string are lists of code units, so one grammar and one round trip serve both.

## Main definitions

* `Json.Tree`: a JSON value whose strings and numbers are kept as they were written.
* `Json.print`: a tree as text without whitespace.
* `Json.parse`: the tree a text is.
-/

/-- The units a text is made of: each has a number, and the ASCII characters have their own. -/
class CodeUnit (α : Type) where
  code : α → ℕ
  code_injective : Function.Injective code
  ascii : Char → α
  code_ascii : ∀ c : Char, c.toNat < 128 → code (ascii c) = c.toNat

instance : CodeUnit Char where
  code := Char.toNat
  code_injective _ _ h := Char.toNat_inj.1 h
  ascii c := c
  code_ascii _ _ := rfl

instance : CodeUnit UInt16 where
  code := UInt16.toNat
  code_injective _ _ h := UInt16.toNat_inj.1 h
  ascii c := UInt16.ofNat c.toNat
  code_ascii c hc := by
    rw [UInt16.toNat_ofNat', Nat.mod_eq_of_lt (by omega)]

namespace Json

open CodeUnit

section Units

variable {α : Type} [CodeUnit α]

def isChar (c : Char) (u : α) : Bool := code u == c.toNat

@[simp] theorem isChar_ascii {c d : Char} (hd : d.toNat < 128) :
    isChar c (ascii d : α) = decide (c = d) := by
  have hcode : (code (ascii d : α) == c.toNat) = decide (d.toNat = c.toNat) := by
    rw [code_ascii d hd]
    rfl
  rw [isChar, hcode, decide_eq_decide]
  exact ⟨fun h => (Char.toNat_inj.1 h).symm, fun h => h ▸ rfl⟩

def asciiText (cs : List Char) : List α := cs.map ascii

/-- The character of a hexadecimal digit. -/
def hexChar (d : Fin 16) : Char := Char.ofNat (if d.val < 10 then 48 + d.val else 87 + d.val)

/-- The hexadecimal digit a code unit stands for, in either case. -/
def hexValue (n : ℕ) : Option (Fin 16) :=
  if h : 48 ≤ n ∧ n ≤ 57 then some ⟨n - 48, by omega⟩
  else if h : 97 ≤ n ∧ n ≤ 102 then some ⟨n - 87, by omega⟩
  else if h : 65 ≤ n ∧ n ≤ 70 then some ⟨n - 55, by omega⟩
  else none

theorem hexChar_lt (d : Fin 16) : (hexChar d).toNat < 128 := by
  revert d
  decide

theorem hexValue_hexChar (d : Fin 16) : hexValue (hexChar d).toNat = some d := by
  revert d
  decide

def digitChar (d : Fin 10) : Char := Char.ofNat (48 + d.val)

def digitValue (n : ℕ) : Option (Fin 10) :=
  if h : 48 ≤ n ∧ n ≤ 57 then some ⟨n - 48, by omega⟩ else none

theorem digitChar_lt (d : Fin 10) : (digitChar d).toNat < 128 := by
  revert d
  decide

theorem digitValue_digitChar (d : Fin 10) : digitValue (digitChar d).toNat = some d := by
  revert d
  decide

theorem isChar_digitChar (c : Char) (hc : digitValue c.toNat = none) (d : Fin 10) :
    isChar c (ascii (digitChar d) : α) = false := by
  rw [isChar_ascii (digitChar_lt d), decide_eq_false_iff_not]
  rintro rfl
  rw [digitValue_digitChar] at hc
  exact absurd hc (by simp)

end Units

section Numeral

/-- The last decimal digit of a number. -/
abbrev digitOf (n : ℕ) : Fin 10 := Fin.ofNat 10 n

/-- The digits of an integer part: some, and no zero before another digit. -/
def IsWhole (ds : List (Fin 10)) : Prop :=
  ds ≠ [] ∧ (ds.head? = some 0 → ds.length = 1)

instance : DecidablePred IsWhole := fun _ => inferInstanceAs (Decidable (_ ∧ _))

/-- A number as it is written. -/
structure Numeral where
  negative : Bool
  whole : {ds : List (Fin 10) // IsWhole ds}
  frac : Option {ds : List (Fin 10) // ds ≠ []}
  /-- The exponent: its sign where one is written (`true` for a minus) and its digits. -/
  exp : Option (Option Bool × {ds : List (Fin 10) // ds ≠ []})
deriving DecidableEq

variable {α : Type} [CodeUnit α]

def printDigits (ds : List (Fin 10)) : List α := ds.map fun d => ascii (digitChar d)

def printSign : Option Bool → List α
  | none => []
  | some true => [ascii '-']
  | some false => [ascii '+']

def printFrac : Option {ds : List (Fin 10) // ds ≠ []} → List α
  | none => []
  | some ds => ascii '.' :: printDigits ds.val

def printExp : Option (Option Bool × {ds : List (Fin 10) // ds ≠ []}) → List α
  | none => []
  | some (sign, ds) => ascii 'e' :: (printSign sign ++ printDigits ds.val)

def Numeral.print (n : Numeral) : List α :=
  (if n.negative then [ascii '-'] else []) ++
    (printDigits n.whole.val ++ (printFrac n.frac ++ printExp n.exp))

/-- The digits a text starts with, and the rest. -/
def takeDigits : List α → List (Fin 10) × List α
  | [] => ([], [])
  | u :: s =>
    match digitValue (code u) with
    | some d => (d :: (takeDigits s).1, (takeDigits s).2)
    | none => ([], u :: s)

def takeMinus : List α → Bool × List α
  | [] => (false, [])
  | u :: s => if isChar '-' u then (true, s) else (false, u :: s)

def takeSign : List α → Option Bool × List α
  | [] => (none, [])
  | u :: s =>
    if isChar '-' u then (some true, s)
    else if isChar '+' u then (some false, s)
    else (none, u :: s)

def wholePart (s : List α) : Option ({ds : List (Fin 10) // IsWhole ds} × List α) :=
  if h : IsWhole (takeDigits s).1 then some (⟨_, h⟩, (takeDigits s).2) else none

def someDigits (s : List α) : Option ({ds : List (Fin 10) // ds ≠ []} × List α) :=
  if h : (takeDigits s).1 ≠ [] then some (⟨_, h⟩, (takeDigits s).2) else none

def fracPart : List α → Option (Option {ds : List (Fin 10) // ds ≠ []} × List α)
  | [] => some (none, [])
  | u :: s =>
    if isChar '.' u then (someDigits s).map (Prod.map some id) else some (none, u :: s)

def expPart : List α → Option (Option (Option Bool × {ds : List (Fin 10) // ds ≠ []}) × List α)
  | [] => some (none, [])
  | u :: s =>
    if isChar 'e' u || isChar 'E' u then
      (someDigits (takeSign s).2).map fun r => (some ((takeSign s).1, r.1), r.2)
    else some (none, u :: s)

def numeral (s : List α) : Option (Numeral × List α) := do
  let (whole, s') ← wholePart (takeMinus s).2
  let (frac, s') ← fracPart s'
  let (exp, s') ← expPart s'
  some (⟨(takeMinus s).1, whole, frac, exp⟩, s')

/-- The code units that go on with a number. -/
def goesOn (u : α) : Bool :=
  (digitValue (code u)).isSome || isChar '.' u || isChar 'e' u || isChar 'E' u

/-- What follows does not go on with a number. -/
def Stops (s : List α) : Prop := ∀ u ∈ s.head?, goesOn u = false

theorem takeDigits_of_stop {s : List α} (h : ∀ u ∈ s.head?, digitValue (code u) = none) :
    takeDigits s = ([], s) := by
  cases s with
  | nil => rfl
  | cons u s => rw [takeDigits, h u rfl]

theorem takeDigits_printDigits (ds : List (Fin 10)) {s : List α}
    (h : ∀ u ∈ s.head?, digitValue (code u) = none) :
    takeDigits (printDigits ds ++ s) = (ds, s) := by
  induction ds with
  | nil => exact takeDigits_of_stop h
  | cons d ds ih =>
    rw [printDigits, List.map_cons, List.cons_append, takeDigits, code_ascii _ (digitChar_lt d),
      digitValue_digitChar]
    change (d :: (takeDigits (printDigits ds ++ s)).1, (takeDigits (printDigits ds ++ s)).2) = _
    rw [ih]

theorem Stops.digitValue {s : List α} (h : Stops s) :
    ∀ u ∈ s.head?, Json.digitValue (code u) = none := by
  intro u hu
  have hgoes := h u hu
  simp only [goesOn, Bool.or_eq_false_iff] at hgoes
  simpa using hgoes.1.1.1

theorem someDigits_printDigits (ds : {ds : List (Fin 10) // ds ≠ []}) {s : List α}
    (h : ∀ u ∈ s.head?, digitValue (code u) = none) :
    someDigits (printDigits ds.val ++ s) = some (ds, s) := by
  have htake := takeDigits_printDigits ds.val h
  simp only [someDigits, htake, ne_eq, ds.property, not_false_eq_true, dite_true]

theorem wholePart_printDigits (ds : {ds : List (Fin 10) // IsWhole ds}) {s : List α}
    (h : ∀ u ∈ s.head?, digitValue (code u) = none) :
    wholePart (printDigits ds.val ++ s) = some (ds, s) := by
  have htake := takeDigits_printDigits ds.val h
  simp only [wholePart, htake, ds.property, dite_true]

theorem expPart_printExp (exp : Option (Option Bool × {ds : List (Fin 10) // ds ≠ []}))
    {s : List α} (h : Stops s) : expPart (printExp exp ++ s) = some (exp, s) := by
  cases exp with
  | none =>
    cases s with
    | nil => rfl
    | cons u s =>
      have hgoes := h u rfl
      simp only [goesOn, Bool.or_eq_false_iff] at hgoes
      simp [printExp, expPart, hgoes]
  | some exp =>
    obtain ⟨sign, ds⟩ := exp
    have hsign : takeSign (printSign sign ++ (printDigits ds.val ++ s) : List α) =
        (sign, printDigits ds.val ++ s) := by
      obtain ⟨d, ds', hds⟩ := List.exists_cons_of_ne_nil ds.property
      rcases sign with - | _ | _
      · simp [printSign, hds, printDigits, takeSign, isChar_digitChar '-' (by decide),
          isChar_digitChar '+' (by decide)]
      · simp [printSign, takeSign]
      · simp [printSign, takeSign]
    simp only [printExp, List.cons_append, List.append_assoc, expPart, hsign,
      someDigits_printDigits ds h.digitValue]
    simp

theorem fracPart_printFrac (frac : Option {ds : List (Fin 10) // ds ≠ []}) {s : List α}
    (hdot : ∀ u ∈ s.head?, isChar '.' u = false)
    (hdigit : ∀ u ∈ s.head?, digitValue (code u) = none) :
    fracPart (printFrac frac ++ s) = some (frac, s) := by
  cases frac with
  | none =>
    cases s with
    | nil => rfl
    | cons u s => simp [printFrac, fracPart, hdot u rfl]
  | some ds =>
    simp only [printFrac, List.cons_append, fracPart, someDigits_printDigits ds hdigit]
    simp

/-- What follows the fraction of a number starts neither with a digit nor with a point. -/
theorem head_printExp {exp : Option (Option Bool × {ds : List (Fin 10) // ds ≠ []})}
    {s : List α} (h : Stops s) {u : α} (hu : u ∈ (printExp exp ++ s).head?) :
    digitValue (code u) = none ∧ isChar '.' u = false := by
  cases exp with
  | none =>
    have hgoes := h u hu
    simp only [goesOn, Bool.or_eq_false_iff] at hgoes
    exact ⟨by simpa using hgoes.1.1.1, hgoes.1.1.2⟩
  | some exp =>
    obtain rfl : ascii 'e' = u := by simpa [printExp] using hu
    exact ⟨by rw [code_ascii _ (by decide)]; decide, by simp⟩

theorem head_printFrac {frac : Option {ds : List (Fin 10) // ds ≠ []}}
    {s : List α} (h : ∀ u ∈ s.head?, digitValue (code u) = none) {u : α}
    (hu : u ∈ (printFrac frac ++ s).head?) : digitValue (code u) = none := by
  cases frac with
  | none => exact h u hu
  | some ds =>
    obtain rfl : ascii '.' = u := by simpa [printFrac] using hu
    rw [code_ascii _ (by decide)]
    decide

theorem takeMinus_print (negative : Bool) (whole : {ds : List (Fin 10) // IsWhole ds})
    (s : List α) :
    takeMinus ((if negative then [ascii '-'] else []) ++ (printDigits whole.val ++ s)) =
      (negative, printDigits whole.val ++ s) := by
  obtain ⟨d, ds', hds⟩ := List.exists_cons_of_ne_nil whole.property.1
  cases negative with
  | true => simp [takeMinus]
  | false =>
    simp [hds, printDigits, takeMinus, isChar_digitChar '-' (by decide)]

theorem numeral_print (n : Numeral) {s : List α} (h : Stops s) :
    numeral (n.print ++ s) = some (n, s) := by
  obtain ⟨negative, whole, frac, exp⟩ := n
  have hexp : ∀ u ∈ (printExp exp ++ s).head?, digitValue (code u) = none :=
    fun u hu => (head_printExp h hu).1
  have hfrac : ∀ u ∈ (printFrac frac ++ (printExp exp ++ s)).head?, digitValue (code u) = none :=
    fun u hu => head_printFrac hexp hu
  simp only [Numeral.print, List.append_assoc, numeral, takeMinus_print]
  rw [wholePart_printDigits whole hfrac, Option.bind_eq_bind, Option.bind_some]
  simp only []
  rw [fracPart_printFrac frac (fun u hu => (head_printExp h hu).2) hexp]
  simp only [Option.bind_eq_bind, Option.bind_some, expPart_printExp exp h]

end Numeral

section Strings

/-- The code units that a string holds as they are. -/
def IsPlain {α : Type} [CodeUnit α] (u : α) : Prop :=
  32 ≤ code u ∧ isChar '"' u = false ∧ isChar '\\' u = false

instance {α : Type} [CodeUnit α] : DecidablePred (IsPlain : α → Prop) := fun _ =>
  inferInstanceAs (Decidable (_ ∧ _))

/-- One character of a string as it is written. -/
inductive Piece (α : Type) [CodeUnit α] where
  | lit (u : {u : α // IsPlain u})
  | esc (v : UInt16)
deriving DecidableEq

/-- The character after the backslash in the short escape of a code unit. -/
def shortEscape (v : UInt16) : Option Char :=
  if v = 0x22 then some '"'
  else if v = 0x5c then some '\\'
  else if v = 0x08 then some 'b'
  else if v = 0x0c then some 'f'
  else if v = 0x0a then some 'n'
  else if v = 0x0d then some 'r'
  else if v = 0x09 then some 't'
  else none

/-- The code unit a short escape stands for, by the character after the backslash. -/
def escapeValue (n : ℕ) : Option UInt16 :=
  if n = '"'.toNat then some 0x22
  else if n = '\\'.toNat then some 0x5c
  else if n = '/'.toNat then some 0x2f
  else if n = 'b'.toNat then some 0x08
  else if n = 'f'.toNat then some 0x0c
  else if n = 'n'.toNat then some 0x0a
  else if n = 'r'.toNat then some 0x0d
  else if n = 't'.toNat then some 0x09
  else none

/-- The `i`-th hexadecimal digit of a code unit, from the lowest. -/
def nibble (v : UInt16) (i : ℕ) : Fin 16 := ⟨v.toNat / 16 ^ i % 16, Nat.mod_lt _ (by decide)⟩

def ofNibbles (a b c d : Fin 16) : UInt16 :=
  UInt16.ofNat (((a.val * 16 + b.val) * 16 + c.val) * 16 + d.val)

theorem ofNibbles_nibble (v : UInt16) :
    ofNibbles (nibble v 3) (nibble v 2) (nibble v 1) (nibble v 0) = v := by
  apply UInt16.toNat_inj.1
  have hv := v.toNat_lt
  simp only [ofNibbles, nibble, UInt16.toNat_ofNat']
  omega

theorem escapeValue_shortEscape {v : UInt16} {c : Char} (h : shortEscape v = some c) :
    c.toNat < 128 ∧ escapeValue c.toNat = some v := by
  simp only [shortEscape] at h
  split_ifs at h <;> obtain rfl := Option.some.inj h <;> subst v <;> decide

variable {α : Type} [CodeUnit α]

def Piece.print : Piece α → List α
  | .lit u => [u.val]
  | .esc v =>
    match shortEscape v with
    | some c => [ascii '\\', ascii c]
    | none => [ascii '\\', ascii 'u', ascii (hexChar (nibble v 3)), ascii (hexChar (nibble v 2)),
        ascii (hexChar (nibble v 1)), ascii (hexChar (nibble v 0))]

/-- A string with its closing quote. -/
def printPieces : List (Piece α) → List α
  | [] => [ascii '"']
  | p :: ps => p.print ++ printPieces ps

/-- The code unit that four hexadecimal digits name. -/
def hexEscape (a b c d : α) : Option UInt16 := do
  let a ← hexValue (code a)
  let b ← hexValue (code b)
  let c ← hexValue (code c)
  let d ← hexValue (code d)
  some (ofNibbles a b c d)

/-- The rest of a string after its opening quote. -/
def pieces : List α → Option (List (Piece α) × List α)
  | [] => none
  | u :: s =>
    if isChar '"' u then some ([], s)
    else if isChar '\\' u then
      match s with
      | [] => none
      | e :: s =>
        match escapeValue (code e) with
        | some v => (pieces s).map fun r => (.esc v :: r.1, r.2)
        | none =>
          if isChar 'u' e then
            match s with
            | a :: b :: c :: d :: s =>
              (hexEscape a b c d).bind fun v => (pieces s).map fun r => (.esc v :: r.1, r.2)
            | _ => none
          else none
    else if h : IsPlain u then (pieces s).map fun r => (.lit ⟨u, h⟩ :: r.1, r.2)
    else none

theorem hexEscape_nibble (v : UInt16) :
    hexEscape (ascii (hexChar (nibble v 3)) : α) (ascii (hexChar (nibble v 2)))
      (ascii (hexChar (nibble v 1))) (ascii (hexChar (nibble v 0))) = some v := by
  simp only [hexEscape, code_ascii _ (hexChar_lt _), hexValue_hexChar, Option.bind_eq_bind,
    Option.bind_some, ofNibbles_nibble]

theorem pieces_esc (v : UInt16) (s : List α) :
    pieces ((Piece.esc v : Piece α).print ++ s) =
      (pieces s).map fun r => (.esc v :: r.1, r.2) := by
  rw [Piece.print]
  cases hshort : shortEscape v with
  | some c =>
    obtain ⟨hc, hvalue⟩ := escapeValue_shortEscape hshort
    change pieces (ascii '\\' :: ascii c :: s) = _
    rw [pieces.eq_def]
    simp [code_ascii c hc, hvalue]
  | none =>
    have hu : escapeValue (code (ascii 'u' : α)) = none := by
      rw [code_ascii _ (by decide)]
      decide
    change pieces (ascii '\\' :: ascii 'u' :: _) = _
    rw [pieces.eq_def]
    simp [hu, hexEscape_nibble]

theorem pieces_lit (u : {u : α // IsPlain u}) (s : List α) :
    pieces ((Piece.lit u).print ++ s) = (pieces s).map fun r => (.lit u :: r.1, r.2) := by
  obtain ⟨-, hquote, hslash⟩ := u.property
  change pieces (u.val :: s) = _
  rw [pieces.eq_def]
  simp [hquote, hslash, u.property]

theorem pieces_print (ps : List (Piece α)) (s : List α) :
    pieces (printPieces ps ++ s) = some (ps, s) := by
  induction ps with
  | nil =>
    change pieces (ascii '"' :: s) = _
    rw [pieces.eq_def]
    simp
  | cons p ps ih =>
    rw [printPieces, List.append_assoc]
    cases p with
    | lit u => rw [pieces_lit, ih]; rfl
    | esc v => rw [pieces_esc, ih]; rfl

end Strings

/-- A JSON value as it is written, whitespace apart. -/
abbrev Tree (α : Type) [CodeUnit α] := Json (List (Piece α)) Numeral

section Printing

variable {α : Type} [CodeUnit α]

def joinComma : List (List α) → List α
  | [] => []
  | [t] => t
  | t :: ts => t ++ ascii ',' :: joinComma ts

theorem joinComma_cons_cons (t t' : List α) (ts : List (List α)) :
    joinComma (t :: t' :: ts) = t ++ ascii ',' :: joinComma (t' :: ts) :=
  rfl

mutual

/-- The text of a tree, without whitespace. -/
def print : Tree α → List α
  | .null => asciiText ['n', 'u', 'l', 'l']
  | .bool true => asciiText ['t', 'r', 'u', 'e']
  | .bool false => asciiText ['f', 'a', 'l', 's', 'e']
  | .num n => n.print
  | .str ps => ascii '"' :: printPieces ps
  | .arr items => ascii '[' :: (joinComma (printItems items) ++ [ascii ']'])
  | .obj members => ascii '{' :: (joinComma (printMembers members) ++ [ascii '}'])

def printItems : List (Tree α) → List (List α)
  | [] => []
  | v :: vs => print v :: printItems vs

def printMembers : List (List (Piece α) × Tree α) → List (List α)
  | [] => []
  | (k, v) :: ms => (ascii '"' :: (printPieces k ++ ascii ':' :: print v)) :: printMembers ms

end

def printMember (m : List (Piece α) × Tree α) : List α :=
  ascii '"' :: (printPieces m.1 ++ ascii ':' :: print m.2)

theorem printItems_eq (vs : List (Tree α)) : printItems vs = vs.map print := by
  induction vs with
  | nil => rfl
  | cons v vs ih => rw [printItems, ih, List.map_cons]

theorem printMembers_eq (ms : List (List (Piece α) × Tree α)) :
    printMembers ms = ms.map printMember := by
  induction ms with
  | nil => rfl
  | cons m ms ih => rw [printMembers, ih, List.map_cons, printMember]

end Printing

section Parsing

variable {α β : Type} [CodeUnit α]

abbrev Parser (α β : Type) := List α → Option (β × List α)

def isSpace (u : α) : Bool := isChar ' ' u || isChar '\t' u || isChar '\n' u || isChar '\r' u

def skipSpace : List α → List α := List.dropWhile isSpace

def keyword : List Char → List α → Option (List α)
  | [], s => some s
  | c :: cs, u :: s => if isChar c u then keyword cs s else none
  | _ :: _, [] => none

/-- Some items, with a comma after each but the last, and the closing character. -/
def sepBy (item : Parser α β) (close : Char) : ℕ → Parser α (List β)
  | 0, _ => none
  | n + 1, s =>
    match item s with
    | none => none
    | some (x, s) =>
      match skipSpace s with
      | [] => none
      | u :: s =>
        if isChar ',' u then (sepBy item close n s).map fun r => (x :: r.1, r.2)
        else if isChar close u then some ([x], s)
        else none

/-- The rest of an array or object after its opening character. -/
def listOf (item : Parser α β) (close : Char) (s : List α) : Option (List β × List α) :=
  match skipSpace s with
  | [] => none
  | u :: s => if isChar close u then some ([], s) else sepBy item close (s.length + 1) (u :: s)

def member (value : Parser α (Tree α)) : Parser α (List (Piece α) × Tree α) := fun s =>
  match skipSpace s with
  | [] => none
  | u :: s =>
    if isChar '"' u then
      match pieces s with
      | none => none
      | some (k, s) =>
        match skipSpace s with
        | [] => none
        | u :: s => if isChar ':' u then (value s).map fun r => ((k, r.1), r.2) else none
    else none

/-- A value whose items and members are read by `inner`; without it there may be none. -/
def node (inner : Option (Parser α (Tree α))) : Parser α (Tree α) := fun s =>
  match skipSpace s with
  | [] => none
  | u :: s =>
    if isChar '"' u then (pieces s).map fun r => (.str r.1, r.2)
    else if isChar '[' u then
      inner.bind fun value => (listOf value ']' s).map fun r => (.arr r.1, r.2)
    else if isChar '{' u then
      inner.bind fun value => (listOf (member value) '}' s).map fun r => (.obj r.1, r.2)
    else if isChar 'n' u then (keyword ['u', 'l', 'l'] s).map fun s => (.null, s)
    else if isChar 't' u then (keyword ['r', 'u', 'e'] s).map fun s => (.bool true, s)
    else if isChar 'f' u then (keyword ['a', 'l', 's', 'e'] s).map fun s => (.bool false, s)
    else (numeral (u :: s)).map fun r => (.num r.1, r.2)

/-- A value in which arrays and objects nest at most `d` deep. -/
def value : ℕ → Parser α (Tree α)
  | 0 => node none
  | d + 1 => node (some (value d))

/-- The tree of a text that is one JSON value, nested at most `d` deep. -/
def parse (d : ℕ) (s : List α) : Option (Tree α) :=
  match value d s with
  | none => none
  | some (t, s) => if (skipSpace s).isEmpty then some t else none

theorem skipSpace_cons {u : α} (hu : isSpace u = false) (s : List α) :
    skipSpace (u :: s) = u :: s :=
  List.dropWhile_cons_of_neg (by simp [hu])

theorem keyword_append {cs : List Char} (hcs : (cs.all fun c => c.toNat < 128) = true)
    (s : List α) : keyword cs (asciiText cs ++ s) = some s := by
  induction cs with
  | nil => rfl
  | cons c cs ih =>
    obtain ⟨hc, hcs⟩ := Bool.and_eq_true_iff.1 hcs
    replace hc := of_decide_eq_true hc
    simp only [asciiText, List.map_cons, List.cons_append, keyword, isChar_ascii hc, decide_true,
      if_true]
    exact ih hcs

/-- The parser reads `x` off the text `t` wherever a comma or the closing character follows. -/
def Reads (item : Parser α β) (close : Char) (t : List α) (x : β) : Prop :=
  ∀ s, (∃ c r, s = ascii c :: r ∧ (c = ',' ∨ c = close)) → item (t ++ s) = some (x, s)

/-- The closing characters of arrays and objects. -/
def Closes (close : Char) : Prop := close = ']' ∨ close = '}'

theorem sepBy_joinComma {item : Parser α β} {close : Char} (hclose : Closes close)
    {ts : List (List α)} {xs : List β} (h : List.Forall₂ (Reads item close) ts xs)
    (hne : ts ≠ []) {n : ℕ} (hn : ts.length ≤ n) (s : List α) :
    sepBy item close n (joinComma ts ++ ascii close :: s) = some (xs, s) := by
  induction h generalizing n with
  | nil => exact absurd rfl hne
  | @cons t x ts xs hread hrest ih =>
    obtain ⟨n, rfl⟩ : ∃ m, n = m + 1 := ⟨n - 1, by simp at hn; omega⟩
    cases ts with
    | nil =>
      obtain rfl : xs = [] := by simpa using hrest
      rw [joinComma, sepBy, hread _ ⟨close, s, rfl, .inr rfl⟩]
      rcases hclose with rfl | rfl <;> simp [skipSpace_cons, isSpace]
    | cons t' ts =>
      have hcomma : isSpace (ascii ',' : α) = false := by simp [isSpace]
      rw [joinComma_cons_cons, List.append_assoc, List.cons_append, sepBy,
        hread _ ⟨',', _, rfl, .inl rfl⟩]
      simp only [skipSpace_cons hcomma, isChar_ascii (by decide : ','.toNat < 128), decide_true,
        if_true]
      rw [ih (by simp) (by simpa using hn)]
      rfl

theorem length_le_joinComma {ts : List (List α)} (h : ∀ t ∈ ts, t ≠ []) :
    ts.length ≤ (joinComma ts).length := by
  induction ts with
  | nil => simp
  | cons t ts ih =>
    obtain ⟨ht, hts⟩ := List.forall_mem_cons.1 h
    have hlength : 1 ≤ t.length := List.length_pos_iff.2 ht
    cases ts with
    | nil => simpa [joinComma] using hlength
    | cons t' ts =>
      have := ih hts
      simp only [joinComma, List.length_append, List.length_cons] at this ⊢
      omega

/-- The text starts as an item may: not with a space, and not as if the list were over. -/
def Opens (t : List α) : Prop :=
  ∃ u s, t = u :: s ∧ isSpace u = false ∧ isChar ']' u = false ∧ isChar '}' u = false

theorem Opens.ne_nil {t : List α} (h : Opens t) : t ≠ [] := by
  obtain ⟨u, s, rfl, -⟩ := h
  simp

theorem listOf_joinComma {item : Parser α β} {close : Char} (hclose : Closes close)
    {ts : List (List α)} {xs : List β} (h : List.Forall₂ (Reads item close) ts xs)
    (hopens : ∀ t ∈ ts, Opens t) (s : List α) :
    listOf item close (joinComma ts ++ ascii close :: s) = some (xs, s) := by
  cases h with
  | nil =>
    rcases hclose with rfl | rfl <;> simp [joinComma, listOf, skipSpace_cons, isSpace]
  | @cons t x ts xs hread hrest =>
    obtain ⟨u, r, rfl, hspace, hbracket, hbrace⟩ := hopens t List.mem_cons_self
    obtain ⟨r', hr'⟩ : ∃ r', joinComma ((u :: r) :: ts) = u :: r' := by
      cases ts <;> exact ⟨_, rfl⟩
    have hlength := length_le_joinComma fun t ht => (hopens t ht).ne_nil
    have hsep := sepBy_joinComma hclose (.cons hread hrest) (by simp)
      (n := (r' ++ ascii close :: s).length + 1) (by rw [hr'] at hlength; simp at hlength ⊢; omega) s
    rw [hr', List.cons_append] at hsep ⊢
    have hopen : isChar close u = false := by rcases hclose with rfl | rfl <;> assumption
    simp only [listOf, skipSpace_cons hspace, hopen, Bool.false_eq_true, if_false, hsep]

end Parsing

section RoundTrip

variable {α : Type} [CodeUnit α]

theorem numeral_opens (n : Numeral) :
    ∃ u s, (n.print : List α) = u :: s ∧ (u = ascii '-' ∨ ∃ d, u = ascii (digitChar d)) := by
  obtain ⟨negative, whole, frac, exp⟩ := n
  obtain ⟨d, ds, hds⟩ := List.exists_cons_of_ne_nil whole.property.1
  cases negative with
  | true => exact ⟨_, _, rfl, .inl rfl⟩
  | false => exact ⟨ascii (digitChar d), _, by simp [Numeral.print, printDigits, hds]; rfl,
      .inr ⟨d, rfl⟩⟩

theorem isChar_numeral {c : Char} (hc : digitValue c.toNat = none) (hminus : c ≠ '-') {u : α}
    (hu : u = ascii '-' ∨ ∃ d, u = ascii (digitChar d)) : isChar c u = false := by
  rcases hu with rfl | ⟨d, rfl⟩
  · simpa using hminus
  · exact isChar_digitChar c hc d

theorem node_numeral (inner : Option (Parser α (Tree α))) (n : Numeral) {s : List α}
    (h : Stops s) : node inner (n.print ++ s) = some (.num n, s) := by
  have hread := @numeral_print α _ n _ h
  obtain ⟨u, r, hu, hstart⟩ := @numeral_opens α _ n
  have hne : ∀ c : Char, digitValue c.toNat = none → c ≠ '-' → isChar c u = false :=
    fun c hc hminus => isChar_numeral hc hminus hstart
  have hspace : isSpace u = false := by
    simp [isSpace, hne ' ' (by decide) (by decide), hne '\t' (by decide) (by decide),
      hne '\n' (by decide) (by decide), hne '\r' (by decide) (by decide)]
  rw [hu, List.cons_append] at hread ⊢
  simp [node, skipSpace_cons hspace, hne '"' (by decide) (by decide),
    hne '[' (by decide) (by decide), hne '{' (by decide) (by decide),
    hne 'n' (by decide) (by decide), hne 't' (by decide) (by decide),
    hne 'f' (by decide) (by decide), hread]

theorem print_opens (t : Tree α) : Opens (print t) := by
  cases t with
  | num n =>
    obtain ⟨u, r, hu, hstart⟩ := @numeral_opens α _ n
    have hne : ∀ c : Char, digitValue c.toNat = none → c ≠ '-' → isChar c u = false :=
      fun c hc hminus => isChar_numeral hc hminus hstart
    refine ⟨u, r, hu, ?_, hne ']' (by decide) (by decide), hne '}' (by decide) (by decide)⟩
    simp [isSpace, hne ' ' (by decide) (by decide), hne '\t' (by decide) (by decide),
      hne '\n' (by decide) (by decide), hne '\r' (by decide) (by decide)]
  | bool b => cases b <;> exact ⟨_, _, rfl, by simp [isSpace], by simp, by simp⟩
  | _ => exact ⟨_, _, rfl, by simp [isSpace], by simp, by simp⟩

theorem printMember_opens (m : List (Piece α) × Tree α) : Opens (printMember m) :=
  ⟨_, _, rfl, by simp [isSpace], by simp, by simp⟩

theorem stops_of_ends {s : List α} {close : Char} (hclose : Closes close)
    (h : ∃ c r, s = ascii c :: r ∧ (c = ',' ∨ c = close)) : Stops s := by
  obtain ⟨c, r, rfl, hc⟩ := h
  intro u hu
  obtain rfl : ascii c = u := by simpa using hu
  have hdigit : ∀ {c : Char}, c.toNat < 128 → digitValue c.toNat = none →
      digitValue (code (ascii c : α)) = none := fun hc h => by rw [code_ascii _ hc, h]
  rcases hc with rfl | rfl
  · simp [goesOn, hdigit (by decide : ','.toNat < 128) (by decide)]
  · rcases hclose with rfl | rfl
    · simp [goesOn, hdigit (by decide : ']'.toNat < 128) (by decide)]
    · simp [goesOn, hdigit (by decide : '}'.toNat < 128) (by decide)]

theorem member_printMember {value : Parser α (Tree α)} {m : List (Piece α) × Tree α} {s : List α}
    (h : value (print m.2 ++ s) = some (m.2, s)) :
    member value (printMember m ++ s) = some (m, s) := by
  have hquote : isSpace (ascii '"' : α) = false := by simp [isSpace]
  have hcolon : isSpace (ascii ':' : α) = false := by simp [isSpace]
  simp only [printMember, List.cons_append, List.append_assoc, member, skipSpace_cons hquote,
    isChar_ascii (by decide : '"'.toNat < 128), decide_true, if_true, pieces_print,
    skipSpace_cons hcolon, isChar_ascii (by decide : ':'.toNat < 128), h]
  rfl

/-- What is printed is read back, whatever follows that does not go on with a number. -/
theorem value_print (t : Tree α) {d : ℕ} (hd : t.depth ≤ d) {s : List α} (hs : Stops s) :
    value d (print t ++ s) = some (t, s) := by
  induction t using induct generalizing d s with
  | null =>
    have hword := @keyword_append α _ ['u', 'l', 'l'] rfl s
    cases d <;> simp_all [value, print, node, asciiText, skipSpace_cons, isSpace]
  | bool b =>
    have htrue := @keyword_append α _ ['r', 'u', 'e'] rfl s
    have hfalse := @keyword_append α _ ['a', 'l', 's', 'e'] rfl s
    cases d <;> cases b <;>
      simp_all [value, print, node, asciiText, skipSpace_cons, isSpace]
  | num n => cases d <;> exact node_numeral _ n hs
  | str ps =>
    have hpieces := pieces_print ps s
    cases d <;> simp [value, print, node, skipSpace_cons, isSpace, hpieces]
  | arr ts ih =>
    obtain ⟨d, rfl⟩ : ∃ e, d = e + 1 := ⟨d - 1, by simp [depth] at hd; omega⟩
    have hitems := depth_arr_le.1 hd
    -- What ends a list or parts its items does not go on with a number, so the items may be read
    -- one by one.
    have hreads : List.Forall₂ (Reads (value d) ']') (ts.map print) ts := by
      rw [List.forall₂_map_left_iff, List.forall₂_same]
      exact fun t ht r hr => ih t ht (hitems t ht) (stops_of_ends (.inl rfl) hr)
    have hlist := listOf_joinComma (.inl rfl) hreads
      (fun t ht => by obtain ⟨t, -, rfl⟩ := List.mem_map.1 ht; exact print_opens t) s
    simp [value, print, printItems_eq, node, skipSpace_cons, isSpace, hlist]
  | obj ms ih =>
    obtain ⟨d, rfl⟩ : ∃ e, d = e + 1 := ⟨d - 1, by simp [depth] at hd; omega⟩
    have hmembers := depth_obj_le.1 hd
    have hreads : List.Forall₂ (Reads (member (value d)) '}') (ms.map printMember) ms := by
      rw [List.forall₂_map_left_iff, List.forall₂_same]
      exact fun m hm r hr =>
        member_printMember (ih m hm (hmembers m hm) (stops_of_ends (.inr rfl) hr))
    have hlist := listOf_joinComma (.inr rfl) hreads
      (fun t ht => by obtain ⟨m, -, rfl⟩ := List.mem_map.1 ht; exact printMember_opens m) s
    simp [value, print, printMembers_eq, node, skipSpace_cons, isSpace, hlist]

theorem parse_print (t : Tree α) {d : ℕ} (hd : t.depth ≤ d) : parse d (print t) = some t := by
  have hvalue := value_print t hd (s := ([] : List α)) (by simp [Stops])
  rw [List.append_nil] at hvalue
  simp [parse, hvalue, skipSpace]

theorem print_injective : Function.Injective (print : Tree α → List α) := by
  intro t u h
  have ht := parse_print t (le_max_left t.depth u.depth)
  have hu := parse_print u (le_max_right t.depth u.depth)
  rw [h, hu] at ht
  exact (Option.some.inj ht).symm

end RoundTrip

section Depth

variable {α β : Type} [CodeUnit α]

theorem sepBy_items {item : Parser α β} {close : Char} {n : ℕ} {s r : List α} {xs : List β}
    (h : sepBy item close n s = some (xs, r)) : ∀ x ∈ xs, ∃ s r, item s = some (x, r) := by
  induction n generalizing s xs with
  | zero => simp [sepBy] at h
  | succ n ih =>
    rw [sepBy] at h
    cases hitem : item s with
    | none => simp [hitem] at h
    | some p =>
      obtain ⟨y, s'⟩ := p
      simp only [hitem] at h
      split at h
      · simp at h
      · split_ifs at h with hcomma hclose
        · obtain ⟨⟨ys, r'⟩, hys, heq⟩ := Option.map_eq_some_iff.1 h
          obtain ⟨rfl, rfl⟩ := Prod.mk.inj heq
          exact List.forall_mem_cons.2 ⟨⟨s, s', hitem⟩, ih hys⟩
        · obtain ⟨rfl, rfl⟩ := Prod.mk.inj (Option.some.inj h)
          exact List.forall_mem_singleton.2 ⟨s, s', hitem⟩

theorem listOf_items {item : Parser α β} {close : Char} {s r : List α} {xs : List β}
    (h : listOf item close s = some (xs, r)) : ∀ x ∈ xs, ∃ s r, item s = some (x, r) := by
  rw [listOf] at h
  split at h
  · simp at h
  · split_ifs at h with hclose
    · obtain ⟨rfl, -⟩ := Prod.mk.inj (Option.some.inj h)
      simp
    · exact sepBy_items h

theorem member_value {value : Parser α (Tree α)} {s r : List α} {m : List (Piece α) × Tree α}
    (h : member value s = some (m, r)) : ∃ s r, value s = some (m.2, r) := by
  simp only [member] at h
  repeat' split at h
  any_goals simp at h
  obtain ⟨v, hvalue, rfl⟩ := h
  exact ⟨_, _, hvalue⟩

/-- A reader that is given no items reads only scalars. -/
theorem node_cases {inner : Option (Parser α (Tree α))} {s r : List α} {t : Tree α}
    (h : node inner s = some (t, r)) :
    t.depth = 0 ∨ ∃ value, inner = some value ∧
      ((∃ ts, t = .arr ts ∧ ∀ t ∈ ts, ∃ s r, value s = some (t, r)) ∨
        ∃ ms, t = .obj ms ∧ ∀ m ∈ ms, ∃ s r, value s = some (m.2, r)) := by
  simp only [node] at h
  split at h
  · simp at h
  · split_ifs at h
    · obtain ⟨x, -, heq⟩ := Option.map_eq_some_iff.1 h
      obtain ⟨rfl, -⟩ := Prod.mk.inj heq
      exact .inl rfl
    · obtain ⟨value, rfl, h⟩ := Option.bind_eq_some_iff.1 h
      obtain ⟨⟨ts, r'⟩, hlist, heq⟩ := Option.map_eq_some_iff.1 h
      obtain ⟨rfl, -⟩ := Prod.mk.inj heq
      exact .inr ⟨value, rfl, .inl ⟨ts, rfl, listOf_items hlist⟩⟩
    · obtain ⟨value, rfl, h⟩ := Option.bind_eq_some_iff.1 h
      obtain ⟨⟨ms, r'⟩, hlist, heq⟩ := Option.map_eq_some_iff.1 h
      obtain ⟨rfl, -⟩ := Prod.mk.inj heq
      refine .inr ⟨value, rfl, .inr ⟨ms, rfl, fun m hm => ?_⟩⟩
      obtain ⟨s', r'', hmember⟩ := listOf_items hlist m hm
      exact member_value hmember
    all_goals
      obtain ⟨x, -, heq⟩ := Option.map_eq_some_iff.1 h
      obtain ⟨rfl, -⟩ := Prod.mk.inj heq
      exact .inl rfl

theorem depth_value {d : ℕ} {s r : List α} {t : Tree α} (h : value d s = some (t, r)) :
    t.depth ≤ d := by
  induction d generalizing s r t with
  | zero =>
    rcases node_cases h with hscalar | ⟨value, hnone, -⟩
    · exact hscalar.le
    · simp at hnone
  | succ d ih =>
    rcases node_cases h with hscalar | ⟨inner, hinner, ⟨ts, rfl, hts⟩ | ⟨ms, rfl, hms⟩⟩
    · omega
    · obtain rfl := Option.some.inj hinner
      exact depth_arr_le.2 fun t ht => by obtain ⟨s, r, h⟩ := hts t ht; exact ih h
    · obtain rfl := Option.some.inj hinner
      exact depth_obj_le.2 fun m hm => by obtain ⟨s, r, h⟩ := hms m hm; exact ih h

theorem depth_parse {d : ℕ} {s : List α} {t : Tree α} (h : parse d s = some t) :
    t.depth ≤ d := by
  rw [parse] at h
  split at h
  · simp at h
  · split_ifs at h
    obtain rfl := Option.some.inj h
    exact depth_value ‹_›

end Depth

end Json
