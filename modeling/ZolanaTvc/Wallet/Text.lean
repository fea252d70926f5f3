import ZolanaTvc.Control.Except
import ZolanaTvc.Protocol.Encoding

/-!
# Strings of the client

The client is written in TypeScript. Its strings are lists of UTF-16 code units; hex and decimal texts
are read by the platform and compared with what the value is written as.
-/

namespace ZolanaTvc.Wallet

open Except Json Protocol

abbrev JsString := List UInt16

/-- What a function throws: an `SprEmbeddedWalletError` with its code, or an error of the platform. -/
inductive Thrown where
  | sprEmbeddedWalletError (code : String)
  | platform
deriving DecidableEq

/-- A throw of the client's own error. -/
abbrev spr (code : String) : Thrown := .sprEmbeddedWalletError code

/-- The code units that `\s` matches, which are those `BigInt` skips. -/
def isWhite (u : UInt16) : Bool :=
  decide (9 ≤ u.toNat ∧ u.toNat ≤ 13 ∨ u.toNat = 0x20 ∨ u.toNat = 0xa0 ∨ u.toNat = 0x1680 ∨
    0x2000 ≤ u.toNat ∧ u.toNat ≤ 0x200a ∨ u.toNat = 0x2028 ∨ u.toNat = 0x2029 ∨
    u.toNat = 0x202f ∨ u.toNat = 0x205f ∨ u.toNat = 0x3000 ∨ u.toNat = 0xfeff)

section TextDecoder

/-- U+FEFF, which `TextDecoder` takes for a byte order mark at the front of a text. -/
def byteOrderMark : Char := Char.ofNat 0xfeff

/-- The text without a byte order mark. -/
def withoutMark : List Char → List Char
  | c :: cs => if c = byteOrderMark then cs else c :: cs
  | [] => []

/-- `new TextDecoder("utf-8", { fatal: true }).decode`; `none` is its `TypeError`. -/
def textDecode (bytes : Bytes) : Option JsString :=
  (fromUtf8 bytes).map fun s => Utf16.encode (withoutMark s.toList)

/-- The bytes are UTF-8 that begins with a byte order mark. -/
def hasMark (bytes : Bytes) : Bool :=
  (fromUtf8 bytes).any fun s => decide (s.toList.head? = some byteOrderMark)

theorem withoutMark_inj {cs ds : List Char} (h : withoutMark cs = withoutMark ds)
    (hmark : cs.head? = some byteOrderMark ↔ ds.head? = some byteOrderMark) : cs = ds := by
  cases cs with
  | nil =>
    cases ds with
    | nil => rfl
    | cons d ds =>
      have hd : d ≠ byteOrderMark := fun hd => by simp [hd] at hmark
      simp [withoutMark, hd] at h
  | cons c cs =>
    cases ds with
    | nil =>
      have hc : c ≠ byteOrderMark := fun hc => by simp [hc] at hmark
      simp [withoutMark, hc] at h
    | cons d ds =>
      by_cases hc : c = byteOrderMark
      · have hd : d = byteOrderMark := by simpa [hc] using hmark
        simpa [withoutMark, hc, hd] using h
      · have hd : d ≠ byteOrderMark := fun hd => hc (by simpa [hd] using hmark)
        simpa [withoutMark, hc, hd] using h

/-- A text and whether it began with a mark tell the bytes. -/
theorem textDecode_inj {b c : Bytes} {s : JsString} (hb : textDecode b = some s)
    (hc : textDecode c = some s) (hmark : hasMark b = hasMark c) : b = c := by
  obtain ⟨t, ht, hs⟩ := Option.map_eq_some_iff.1 hb
  obtain ⟨u, hu, hs'⟩ := Option.map_eq_some_iff.1 hc
  rw [hasMark, hasMark, ht, hu, Option.any_some, Option.any_some, decide_eq_decide] at hmark
  have hchars := withoutMark_inj (Utf16.encode_injective (hs.trans hs'.symm)) hmark
  rw [← utf8_of_fromUtf8 ht, ← utf8_of_fromUtf8 hu, String.toList_inj.1 hchars]

end TextDecoder

section Hex

/-- The characters of a text of ASCII code units. -/
def characters (s : JsString) : List Char := s.map fun u => Char.ofNat u.toNat

def hexToBytes (input : JsString) : Option Bytes := hexDecode (characters input)

def bytesToHex (bytes : Bytes) : JsString := utf16Units (Protocol.encodeLowerHex bytes)

def decodeLowerHex (input : JsString) : Except Thrown Bytes := do
  let decoded ← ofOption (hexToBytes input) (spr "InvalidHex")
  refuse (bytesToHex decoded ≠ input) (spr "InvalidHex")
  return decoded

end Hex

section BigInt

/-- The number that digits of a base denote. -/
def ofDigits (base : ℕ) (ds : List ℕ) : ℕ := ds.foldl (fun n d => base * n + d) 0

/-- The digits of a nonempty text in a base of at most 16. -/
def digitsIn (base : ℕ) (s : JsString) : Option (List ℕ) :=
  if s = [] then none
  else s.mapM fun u => (hexValue u.toNat).bind fun d => if d.val < base then some d.val else none

def natIn (base : ℕ) (s : JsString) : Option ℤ :=
  (digitsIn base s).map fun ds => (ofDigits base ds : ℤ)

/-- The text without white space at its ends. -/
def trim (s : JsString) : JsString :=
  ((s.dropWhile isWhite).reverse.dropWhile isWhite).reverse

/-- `BigInt` of a string; `none` is its `SyntaxError`. -/
def bigInt (s : JsString) : Option ℤ :=
  match trim s with
  -- A blank text is zero.
  | [] => some 0
  | u :: ds =>
    if isChar '-' u then (natIn 10 ds).map fun n => -n
    else if isChar '+' u then natIn 10 ds
    else
      match ds with
      | x :: rest =>
        if isChar '0' u && (isChar 'x' x || isChar 'X' x) then natIn 16 rest
        else if isChar '0' u && (isChar 'o' x || isChar 'O' x) then natIn 8 rest
        else if isChar '0' u && (isChar 'b' x || isChar 'B' x) then natIn 2 rest
        else natIn 10 (u :: ds)
      | [] => natIn 10 [u]

def decodeDecimalU64 (input : JsString) : Except Thrown ℤ := do
  let value ← ofOption (bigInt input) (spr "InvalidDecimal")
  refuse (value < 0 ∨ 0xffffffffffffffff < value ∨ printDigits (digitsOf value.toNat) ≠ input)
    (spr "InvalidDecimal")
  return value

end BigInt

section Ascii

/-- A text of ASCII characters has one code unit for each. -/
theorem encode_ascii {cs : List Char} (h : ∀ c ∈ cs, c.toNat < 128) :
    Utf16.encode cs = asciiText cs := by
  induction cs with
  | nil => rfl
  | cons c cs ih =>
    obtain ⟨hc, hcs⟩ := List.forall_mem_cons.1 h
    rw [Utf16.encode, List.flatMap_cons, Utf16.units, if_pos (by omega), ← Utf16.encode, ih hcs]
    rfl

theorem characters_ascii {cs : List Char} (h : ∀ c ∈ cs, c.toNat < 128) :
    characters (asciiText cs) = cs := by
  rw [characters, asciiText, List.map_map]
  refine (List.map_congr_left fun c hc => ?_).trans (List.map_id _)
  show Char.ofNat (CodeUnit.code (CodeUnit.ascii c : UInt16)) = c
  rw [CodeUnit.code_ascii c (h c hc), Char.ofNat_toNat]

theorem hexEncode_ascii (bytes : Bytes) : ∀ c ∈ hexEncode bytes, c.toNat < 128 := by
  intro c hc
  obtain ⟨b, -, hc⟩ := List.mem_flatMap.1 hc
  rw [hexPair, List.mem_cons, List.mem_singleton] at hc
  rcases hc with rfl | rfl <;> exact hexChar_lt _

theorem hexToBytes_bytesToHex (bytes : Bytes) : hexToBytes (bytesToHex bytes) = some bytes := by
  have hascii := hexEncode_ascii bytes
  rw [hexToBytes, bytesToHex, Protocol.encodeLowerHex, utf16Units, String.toList_ofList,
    encode_ascii hascii, characters_ascii hascii, hexDecode_hexEncode]

/-- The client reads as hex exactly what it writes. -/
theorem decodeLowerHex_eq_ok {input : JsString} {bytes : Bytes} :
    decodeLowerHex input = .ok bytes ↔ input = bytesToHex bytes := by
  simp only [decodeLowerHex, bind_eq_ok, ofOption_eq_ok, refuse_eq_ok, exists_const, pure_eq_ok,
    not_not]
  constructor
  · rintro ⟨decoded, -, heq, rfl⟩
    exact heq.symm
  · rintro rfl
    exact ⟨bytes, hexToBytes_bytesToHex bytes, rfl, rfl⟩

theorem printDigits_eq (ds : List (Fin 10)) :
    (printDigits ds : JsString) = asciiText (ds.map digitChar) := by
  rw [asciiText, List.map_map]
  rfl

theorem utf16Units_encodeDecimalU64 (value : UInt64) :
    utf16Units (Protocol.encodeDecimalU64 value) = printDigits (digitsOf value.toNat) := by
  rw [printDigits_eq, utf16Units, Protocol.encodeDecimalU64, String.toList_ofList, printDigits,
    ← encode_ascii]
  · rfl
  · intro c hc
    obtain ⟨d, -, rfl⟩ := List.mem_map.1 hc
    exact digitChar_lt d

theorem digitsIn_printDigits {ds : List (Fin 10)} (hds : ds ≠ []) :
    digitsIn 10 (printDigits ds) = some (ds.map Fin.val) := by
  have hvalue : ∀ d : Fin 10, ((hexValue (CodeUnit.code (CodeUnit.ascii (digitChar d) : UInt16))).bind
      fun e => if e.val < 10 then some e.val else none) = some d.val := by decide
  rw [digitsIn, if_neg (by simpa [printDigits] using hds), printDigits, List.mapM_map,
    mapM_eq_some_iff, List.forall₂_map_right_iff]
  exact List.forall₂_same.2 fun d _ => hvalue d

theorem natIn_printDigits {ds : List (Fin 10)} (hds : ds ≠ []) :
    natIn 10 (printDigits ds) = some (natOfDigits ds : ℤ) := by
  rw [natIn, digitsIn_printDigits hds, Option.map_some, ofDigits, List.foldl_map]
  rfl

theorem trim_printDigits (ds : List (Fin 10)) :
    trim (printDigits ds) = (printDigits ds : JsString) := by
  have hwhite : ∀ d, isWhite (CodeUnit.ascii (digitChar d)) = false := by decide
  have hdrop : ∀ es : List (Fin 10), (printDigits es : JsString).dropWhile isWhite =
      printDigits es := by
    intro es
    cases es with
    | nil => rfl
    | cons e es => rw [printDigits, List.map_cons, List.dropWhile_cons, hwhite, if_neg (by simp)]
  have hreverse : (printDigits ds : JsString).reverse = printDigits ds.reverse := by
    rw [printDigits, printDigits, List.map_reverse]
  rw [trim, hdrop, hreverse, hdrop, ← hreverse, List.reverse_reverse]

/-- `BigInt` of a decimal text is its number. -/
theorem bigInt_printDigits (n : ℕ) : bigInt (printDigits (digitsOf n)) = some (n : ℤ) := by
  rw [bigInt, trim_printDigits]
  have hds := (digitsOf_isWhole n).1
  have hnat := natIn_printDigits hds
  rw [natOfDigits_digitsOf] at hnat
  generalize digitsOf n = ds at hds hnat ⊢
  have hminus := @isChar_digitChar UInt16 _ '-' (by decide)
  have hplus := @isChar_digitChar UInt16 _ '+' (by decide)
  match ds, hds with
  | [d], _ => simpa [printDigits, hminus, hplus] using hnat
  | d :: e :: ds, _ =>
    -- No second digit is the letter of another base.
    simpa [printDigits, hminus, hplus, isChar_digitChar 'x' (by decide),
      isChar_digitChar 'X' (by decide), isChar_digitChar 'o' (by decide),
      isChar_digitChar 'O' (by decide), isChar_digitChar 'b' (by decide),
      isChar_digitChar 'B' (by decide)] using hnat

theorem bigInt_encodeDecimalU64 (value : UInt64) :
    bigInt (utf16Units (Protocol.encodeDecimalU64 value)) = some (value.toNat : ℤ) := by
  rw [utf16Units_encodeDecimalU64, bigInt_printDigits]

/-- The client reads the decimals that the enclave writes. -/
theorem decodeDecimalU64_encode (value : UInt64) :
    decodeDecimalU64 (utf16Units (Protocol.encodeDecimalU64 value)) = .ok (value.toNat : ℤ) := by
  have hlt := value.toNat_lt
  simp only [decodeDecimalU64, bigInt_encodeDecimalU64, bind_eq_ok, ofOption_eq_ok, refuse_eq_ok,
    exists_const, pure_eq_ok]
  refine ⟨_, rfl, ?_, rfl⟩
  rw [Int.toNat_natCast, utf16Units_encodeDecimalU64]
  simp only [ne_eq, not_true_eq_false, or_false]
  omega

end Ascii

end ZolanaTvc.Wallet
