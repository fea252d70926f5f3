import ZolanaTvc.Json.Shortest
import ZolanaTvc.Json.Transfer
import ZolanaTvc.Wallet.JsonParse

/-!
# The canonicalizer of the client

`canonicalizeJsonValue` writes a value by the rules of RFC 8785, and `isRfc8785` compares a text with
what is written for the value `JSON.parse` makes of it.
-/

namespace ZolanaTvc.Wallet

open Except Json Protocol

section Numbers

/-- The numeral of `String(value)`, for the numbers that are not refused. -/
def JsNumber.numeral : JsNumber → Option Numeral
  | .finite x => if x.value.den = 1 then some (.ofInteger x.shortest) else none
  | .infinite _ => none

theorem JsNumber.ofNumeral_numeral (n : JsNumber) (m : Numeral) (h : n.numeral = some m) :
    ofNumeral m = n := by
  cases n with
  | infinite _ => simp [numeral] at h
  | finite x =>
    rw [numeral] at h
    split_ifs at h with hden
    obtain rfl := Option.some.inj h
    rw [ofNumeral, Numeral.value_ofInteger, Binary64.round_shortest hden]

end Numbers

section Strings

/-- One code unit of a string, as `appendJsonString` writes it; the code points it goes over by are
escaped only where they are single units. -/
def jsonUnit (ch : UInt16) : JsString :=
  if ch = 0x22 then asciiText ['\\', '"']
  else if ch = 0x5c then asciiText ['\\', '\\']
  else if ch = 0x08 then asciiText ['\\', 'b']
  else if ch = 0x0c then asciiText ['\\', 'f']
  else if ch = 0x0a then asciiText ['\\', 'n']
  else if ch = 0x0d then asciiText ['\\', 'r']
  else if ch = 0x09 then asciiText ['\\', 't']
  else if ch.toNat < 0x20 then
    asciiText ['\\', 'u', hexChar (nibble ch 3), hexChar (nibble ch 2), hexChar (nibble ch 1),
      hexChar (nibble ch 0)]
  else [ch]

def appendJsonString (value : JsString) : JsString :=
  asciiText ['"'] ++ (value.flatMap jsonUnit ++ asciiText ['"'])

/-- The code unit as a piece of a string literal. -/
def pieceOf (ch : UInt16) : Piece UInt16 := if h : IsPlain ch then .lit ⟨ch, h⟩ else .esc ch

theorem isPlain_iff {ch : UInt16} :
    IsPlain ch ↔ 32 ≤ ch.toNat ∧ ch.toNat ≠ 34 ∧ ch.toNat ≠ 92 := by
  have hquote : isChar '"' ch = false ↔ ch.toNat ≠ 34 := by simp [isChar, CodeUnit.code]
  have hslash : isChar '\\' ch = false ↔ ch.toNat ≠ 92 := by simp [isChar, CodeUnit.code]
  rw [IsPlain, hquote, hslash]
  rfl

theorem print_pieceOf_escaped : ∀ n : Fin 93, n.val < 32 ∨ n.val = 34 ∨ n.val = 92 →
    (pieceOf (UInt16.ofNat n.val)).print = jsonUnit (UInt16.ofNat n.val) := by
  decide +kernel

theorem print_pieceOf (ch : UInt16) : (pieceOf ch).print = jsonUnit ch := by
  by_cases hplain : IsPlain ch
  · obtain ⟨hlow, hquote, hslash⟩ := isPlain_iff.1 hplain
    have hne : ∀ d : UInt16, d.toNat < 32 ∨ d.toNat = 34 ∨ d.toNat = 92 → ch ≠ d := by
      rintro d hd rfl
      omega
    simp only [pieceOf, hplain, dite_true, Piece.print, jsonUnit, hne 0x22 (by decide),
      hne 0x5c (by decide), hne 0x08 (by decide), hne 0x0c (by decide), hne 0x0a (by decide),
      hne 0x0d (by decide), hne 0x09 (by decide), if_false, if_neg (Nat.not_lt.2 hlow)]
  · have hescaped : ch.toNat < 32 ∨ ch.toNat = 34 ∨ ch.toNat = 92 := by
      rw [isPlain_iff] at hplain
      omega
    have hprint := print_pieceOf_escaped ⟨ch.toNat, by omega⟩ hescaped
    rwa [UInt16.ofNat_toNat] at hprint

theorem appendJsonString_eq (value : JsString) :
    appendJsonString value = CodeUnit.ascii '"' :: printPieces (value.map pieceOf) := by
  have hpieces : value.flatMap jsonUnit ++ asciiText ['"'] = printPieces (value.map pieceOf) := by
    induction value with
    | nil => rfl
    | cons ch value ih =>
      rw [List.flatMap_cons, List.append_assoc, ih, List.map_cons, printPieces, print_pieceOf]
  rw [appendJsonString, hpieces]
  rfl

theorem unescape_pieces (value : JsString) : unescape (value.map pieceOf) = value := by
  rw [unescape, List.map_map]
  refine (List.map_congr_left fun ch _ => ?_).trans (List.map_id value)
  by_cases hplain : IsPlain ch <;> simp [pieceOf, hplain]

end Strings

/-- The writer and the reader of the client's JSON, with the laws they obey. -/
def jcs : Format UInt16 JsString JsNumber (List UInt16) where
  quote := appendJsonString
  number n := n.numeral.map Numeral.print
  -- `utf16Cmp`
  key k := k
  toReader := jsReader
  escape value := value.map pieceOf
  quote_eq := appendJsonString_eq
  unescape_escape value := congrArg some (unescape_pieces value)
  numeral := JsNumber.numeral
  number_eq _ := rfl
  ofNumeral_numeral n m h := congrArg some (JsNumber.ofNumeral_numeral n m h)
  arrange_perm ms h := ⟨_, rfl, ofMembers_perm h⟩
  nodup_of_arrange ms ns h := by
    obtain rfl := Option.some.inj h
    exact nodup_ofMembers ms
  subset_of_arrange ms ns h := by
    obtain rfl := Option.some.inj h
    exact ofMembers_subset ms

def canonicalizeJsonValue (value : JsValue) : Except Thrown JsString :=
  ofOption (jcs.append value) (spr "InvalidCanonicalJson")

def isRfc8785 (input : JsString) : Bool :=
  match jsonParse input with
  | none => false
  | some value => decide (canonicalizeJsonValue value = .ok input)

theorem canonicalizeJsonValue_eq_ok {value : JsValue} {text : JsString} :
    canonicalizeJsonValue value = .ok text ↔ jcs.append value = some text :=
  ofOption_eq_ok

/-- The texts accepted are those that are written for values. -/
theorem isRfc8785_iff {input : JsString} : isRfc8785 input = true ↔
    ∃ v : JsValue, v.Distinct ∧ canonicalizeJsonValue v = .ok input := by
  have hcanonical : isRfc8785 input = true ↔ jcs.IsCanonical input.length input := by
    have hparse : jsonParse input = jcs.strictParse input.length input := rfl
    rw [isRfc8785, Format.IsCanonical, hparse]
    cases jcs.strictParse input.length input with
    | none => simp
    | some v => simpa using canonicalizeJsonValue_eq_ok
  rw [hcanonical, jcs.isCanonical_iff Function.injective_id]
  constructor
  · rintro ⟨v, hdistinct, -, h⟩
    exact ⟨v, hdistinct, canonicalizeJsonValue_eq_ok.2 h⟩
  · rintro ⟨v, hdistinct, h⟩
    rw [canonicalizeJsonValue_eq_ok] at h
    obtain ⟨t, ht, rfl⟩ := Format.append_eq_some_iff.1 h
    -- A text is at least as long as it nests deep.
    have hlength := parse_length_iff.2 ⟨t.depth, parse_print t le_rfl⟩
    exact ⟨v, hdistinct, Format.depth_le_of_tree ht (depth_parse hlength), h⟩

end ZolanaTvc.Wallet
