import ZolanaTvc.Serde.Tagged

/-!
# Strict JSON, RFC 8785 JCS, lowercase hex, and canonical decimal `u64`

What a parse refuses is `none`: every caller modelled here answers all refusals of a text alike.
-/

namespace ZolanaTvc.Protocol

open Json Serde

abbrev Bytes := List UInt8

/-- A byte array of fixed length. -/
abbrev ByteArrayOf (n : ℕ) := {b : Bytes // b.length = n}

section Utf8

/-- `str::as_bytes` -/
def utf8 (s : String) : Bytes := s.toByteArray.data.toList

/-- `str::from_utf8` -/
def fromUtf8 (bytes : Bytes) : Option String := String.fromUTF8? ⟨bytes.toArray⟩

theorem utf8_injective : Function.Injective utf8 := by
  intro s t h
  refine String.toByteArray_inj.1 (ByteArray.ext ?_)
  exact Array.toList_inj.1 h

theorem utf8_append (s t : String) : utf8 (s ++ t) = utf8 s ++ utf8 t := by
  simp [utf8]

theorem fromUtf8_utf8 (s : String) : fromUtf8 (utf8 s) = some s := by
  simp [fromUtf8, utf8, String.fromUTF8?, s.isValidUTF8, String.fromUTF8]

theorem utf8_of_fromUtf8 {bytes : Bytes} {s : String} (h : fromUtf8 bytes = some s) :
    utf8 s = bytes := by
  simp only [fromUtf8, String.fromUTF8?, Option.dite_none_right_eq_some, Option.some.injEq] at h
  obtain ⟨_, rfl⟩ := h
  rfl

end Utf8

section Hex

def hexPair (b : UInt8) : List Char :=
  [hexChar ⟨b.toNat / 16, by have := b.toNat_lt; omega⟩,
    hexChar ⟨b.toNat % 16, Nat.mod_lt _ (by decide)⟩]

/-- `hex::encode` -/
def hexEncode (bytes : Bytes) : List Char := bytes.flatMap hexPair

/-- `hex::decode`, which takes digits of either case. -/
def hexDecode : List Char → Option Bytes
  | [] => some []
  | [_] => none
  | a :: b :: s => do
    let a ← hexValue a.toNat
    let b ← hexValue b.toNat
    let bytes ← hexDecode s
    some (UInt8.ofNat (a.val * 16 + b.val) :: bytes)

def encodeLowerHex (bytes : Bytes) : String := String.ofList (hexEncode bytes)

def decodeLowerHex (input : String) : Option Bytes :=
  (hexDecode input.toList).bind fun decoded =>
    if encodeLowerHex decoded = input then some decoded else none

def decodeLowerHexArray (n : ℕ) (input : String) : Option (ByteArrayOf n) :=
  (decodeLowerHex input).bind fun bytes => if h : bytes.length = n then some ⟨bytes, h⟩ else none

theorem hexDecode_hexPair (b : UInt8) (s : List Char) :
    hexDecode (hexPair b ++ s) = (hexDecode s).map (b :: ·) := by
  have hb := b.toNat_lt
  have hbyte : UInt8.ofNat (b.toNat / 16 * 16 + b.toNat % 16) = b := by
    rw [Nat.div_add_mod', UInt8.ofNat_toNat]
  simp only [hexPair, List.cons_append, List.nil_append, hexDecode, hexValue_hexChar,
    Option.bind_eq_bind, Option.bind_some, hbyte]
  rw [Option.map_eq_bind]
  rfl

theorem hexDecode_hexEncode (bytes : Bytes) : hexDecode (hexEncode bytes) = some bytes := by
  induction bytes with
  | nil => rfl
  | cons b bytes ih => rw [hexEncode, List.flatMap_cons, hexDecode_hexPair, ← hexEncode, ih]; rfl

theorem decodeLowerHex_encodeLowerHex (bytes : Bytes) :
    decodeLowerHex (encodeLowerHex bytes) = some bytes := by
  have htext : (encodeLowerHex bytes).toList = hexEncode bytes := String.toList_ofList
  rw [decodeLowerHex, htext, hexDecode_hexEncode, Option.bind_some, if_pos rfl]

theorem encodeLowerHex_of_decode {input : String} {bytes : Bytes}
    (h : decodeLowerHex input = some bytes) : encodeLowerHex bytes = input := by
  obtain ⟨decoded, -, h⟩ := Option.bind_eq_some_iff.1 h
  split_ifs at h with heq
  obtain rfl := Option.some.inj h
  exact heq

theorem encodeLowerHex_injective : Function.Injective encodeLowerHex := by
  intro a b h
  exact Option.some.inj ((decodeLowerHex_encodeLowerHex a).symm.trans
    ((congrArg decodeLowerHex h).trans (decodeLowerHex_encodeLowerHex b)))

theorem decodeLowerHexArray_encode {n : ℕ} (bytes : ByteArrayOf n) :
    decodeLowerHexArray n (encodeLowerHex bytes.val) = some bytes := by
  rw [decodeLowerHexArray, decodeLowerHex_encodeLowerHex, Option.bind_some, dif_pos bytes.property]

theorem encodeLowerHex_of_decodeArray {n : ℕ} {input : String} {bytes : ByteArrayOf n}
    (h : decodeLowerHexArray n input = some bytes) : encodeLowerHex bytes.val = input := by
  obtain ⟨decoded, hdecoded, h⟩ := Option.bind_eq_some_iff.1 h
  split_ifs at h
  obtain rfl := Option.some.inj h
  exact encodeLowerHex_of_decode hdecoded

end Hex

section Decimal

/-- The digits of characters that are all digits. -/
def decimalDigits (cs : List Char) : Option (List (Fin 10)) := cs.mapM fun c => digitValue c.toNat

def encodeDecimalU64 (value : UInt64) : String :=
  String.ofList (printDigits (digitsOf value.toNat))

def decodeDecimalU64 (input : String) : Option UInt64 :=
  let cs := input.toList
  if cs = [] then none
  else if cs.head? = some '+' ∨ cs.head? = some '-' then none
  else if 1 < cs.length ∧ cs.head? = some '0' then none
  else
    (decimalDigits cs).bind fun ds =>
      if natOfDigits ds < 2 ^ 64 then some (UInt64.ofNat (natOfDigits ds)) else none

theorem decimalDigits_printDigits (ds : List (Fin 10)) :
    decimalDigits (printDigits ds) = some ds := by
  rw [decimalDigits, printDigits, List.mapM_map, mapM_eq_some_iff]
  exact List.forall₂_same.2 fun d _ => digitValue_digitChar d

theorem digitChar_of_digitValue {c : Char} {d : Fin 10} (h : digitValue c.toNat = some d) :
    digitChar d = c := by
  unfold digitValue at h
  split_ifs at h with hc
  obtain rfl := Option.some.inj h
  refine Char.toNat_inj.1 ?_
  rw [digitChar, Utf16.toNat_charOfNat (.inl (by simp only; omega))]
  simp only
  omega

theorem printDigits_of_decimalDigits {cs : List Char} {ds : List (Fin 10)}
    (h : decimalDigits cs = some ds) : (printDigits ds : List Char) = cs := by
  rw [decimalDigits, mapM_eq_some_iff] at h
  rw [printDigits, ← List.forall₂_eq_eq_eq, List.forall₂_map_left_iff]
  exact h.flip.imp fun _ _ hdc => digitChar_of_digitValue hdc

theorem decodeDecimalU64_eq (input : String) :
    decodeDecimalU64 input = (decimalDigits input.toList).bind fun ds =>
      if IsWhole ds ∧ natOfDigits ds < 2 ^ 64 then some (UInt64.ofNat (natOfDigits ds))
      else none := by
  cases hds : decimalDigits input.toList with
  | none => simp [decodeDecimalU64, hds]
  | some ds =>
    have hcs := printDigits_of_decimalDigits hds
    cases ds with
    | nil => simp [decodeDecimalU64, ← hcs, printDigits, IsWhole]
    | cons d ds =>
      have hplus : ∀ d, digitChar d ≠ '+' := by decide
      have hminus : ∀ d, digitChar d ≠ '-' := by decide
      have hzero : ∀ d, digitChar d = '0' ↔ d = 0 := by decide
      have hlength : input.toList.length = ds.length + 1 := by
        rw [← hcs, printDigits, List.length_map, List.length_cons]
      have hhead : input.toList.head? = some (digitChar d) := by rw [← hcs]; rfl
      have hsome : input.toList ≠ [] := by rw [← hcs]; simp [printDigits]
      -- A text of digits alone has no sign.
      have hsign : ¬(input.toList.head? = some '+' ∨ input.toList.head? = some '-') := by
        simp [hhead, hplus, hminus]
      -- The two ways to refuse a leading zero.
      have hwhole : IsWhole (d :: ds) ↔
          ¬(1 < input.toList.length ∧ input.toList.head? = some '0') := by
        simp only [IsWhole, ne_eq, reduceCtorEq, not_false_eq_true, true_and, List.head?_cons,
          Option.some.injEq, List.length_cons, hlength, hhead, hzero]
        omega
      simp only [decodeDecimalU64, hds, if_neg hsome, if_neg hsign, Option.bind_some, hwhole]
      by_cases hlead : 1 < input.toList.length ∧ input.toList.head? = some '0'
      · simp only [hlead, and_self, not_true_eq_false, false_and, if_true, if_false]
      · simp only [hlead, not_false_eq_true, true_and, if_false]

theorem decodeDecimalU64_encode (value : UInt64) :
    decodeDecimalU64 (encodeDecimalU64 value) = some value := by
  have hvalue := value.toNat_lt
  rw [decodeDecimalU64_eq, encodeDecimalU64, String.toList_ofList, decimalDigits_printDigits,
    Option.bind_some, natOfDigits_digitsOf, if_pos ⟨digitsOf_isWhole _, hvalue⟩,
    UInt64.ofNat_toNat]

theorem encodeDecimalU64_of_decode {input : String} {value : UInt64}
    (h : decodeDecimalU64 input = some value) : encodeDecimalU64 value = input := by
  rw [decodeDecimalU64_eq] at h
  obtain ⟨ds, hds, h⟩ := Option.bind_eq_some_iff.1 h
  split_ifs at h with hwhole
  obtain rfl := Option.some.inj h
  have hnat : (UInt64.ofNat (natOfDigits ds)).toNat = natOfDigits ds := by
    rw [UInt64.toNat_ofNat', Nat.mod_eq_of_lt hwhole.2]
  rw [encodeDecimalU64, hnat, digitsOf_natOfDigits hwhole.1, printDigits_of_decimalDigits hds,
    String.ofList_toList]

end Decimal

section Canonical

/-- The UTF-16 code units by which the names of members are ordered. -/
def utf16Units (s : String) : List UInt16 := Utf16.encode s.toList

theorem utf16Units_injective : Function.Injective utf16Units :=
  Utf16.encode_injective.comp toList_injective

/-- One character of a string, as `append_json_string` writes it. -/
def jsonChar (ch : Char) : List Char :=
  if ch = '"' then ['\\', '"']
  else if ch = '\\' then ['\\', '\\']
  else if ch = Char.ofNat 0x08 then ['\\', 'b']
  else if ch = Char.ofNat 0x0c then ['\\', 'f']
  else if ch = '\n' then ['\\', 'n']
  else if ch = '\r' then ['\\', 'r']
  else if ch = '\t' then ['\\', 't']
  else if ch.toNat < 0x20 then
    ['\\', 'u', '0', '0', hexChar ⟨ch.toNat / 16 % 16, Nat.mod_lt _ (by decide)⟩,
      hexChar ⟨ch.toNat % 16, Nat.mod_lt _ (by decide)⟩]
  else [ch]

def appendJsonString (s : String) : List Char := '"' :: (s.toList.flatMap jsonChar ++ ['"'])

/-- `append_jcs`, which refuses binary64 numbers. -/
def jcsWriter : Writer Char String Number (List UInt16) where
  quote := appendJsonString
  number
    | .int n _ => some (Numeral.ofInt n).print
    | .float _ => none
  key := utf16Units

/-- The members of an object, refused when one is named twice, in the order of a `BTreeMap`. -/
def strictObject (members : List (String × Value)) : Option (List (String × Value)) :=
  if (members.map Prod.fst).Nodup then some (sortMembers String.toList members) else none

/-- `StrictValue` -/
def strictReader : Reader Char String Number where
  unescape := Serde.unescape
  ofNumeral := Number.ofNumeral
  arrange := strictObject

/-- The character as a piece of a string literal. -/
def pieceOf (ch : Char) : Piece Char :=
  if h : IsPlain ch then .lit ⟨ch, h⟩ else .esc (UInt16.ofNat ch.toNat)

theorem print_escaped : ∀ n : Fin 93, n.val < 32 ∨ n.val = 34 ∨ n.val = 92 →
    (pieceOf (Char.ofNat n.val)).print = jsonChar (Char.ofNat n.val) := by
  decide +kernel

theorem isPlain_iff {ch : Char} :
    IsPlain ch ↔ 32 ≤ ch.toNat ∧ ch.toNat ≠ 34 ∧ ch.toNat ≠ 92 := by
  have hquote : isChar '"' ch = false ↔ ch.toNat ≠ 34 := by simp [isChar, CodeUnit.code]
  have hslash : isChar '\\' ch = false ↔ ch.toNat ≠ 92 := by simp [isChar, CodeUnit.code]
  rw [IsPlain, hquote, hslash]
  rfl

theorem print_pieceOf (ch : Char) : (pieceOf ch).print = jsonChar ch := by
  by_cases hplain : IsPlain ch
  · obtain ⟨hlow, hquote, hslash⟩ := isPlain_iff.1 hplain
    have hne : ∀ d : Char, d.toNat < 32 ∨ d.toNat = 34 ∨ d.toNat = 92 → ch ≠ d := by
      rintro d hd rfl
      omega
    simp only [pieceOf, hplain, dite_true, Piece.print, jsonChar, hne '"' (by decide),
      hne '\\' (by decide), hne (Char.ofNat 8) (by decide), hne (Char.ofNat 12) (by decide),
      hne '\n' (by decide), hne '\r' (by decide), hne '\t' (by decide), if_false,
      if_neg (Nat.not_lt.2 hlow)]
  · have hescaped : ch.toNat < 32 ∨ ch.toNat = 34 ∨ ch.toNat = 92 := by
      rw [isPlain_iff] at hplain
      omega
    have hprint := print_escaped ⟨ch.toNat, by omega⟩ hescaped
    rwa [Char.ofNat_toNat] at hprint

theorem appendJsonString_eq (s : String) :
    appendJsonString s = '"' :: printPieces (s.toList.map pieceOf) := by
  have hpieces : ∀ cs : List Char,
      cs.flatMap jsonChar ++ ['"'] = printPieces (cs.map pieceOf) := by
    intro cs
    induction cs with
    | nil => rfl
    | cons c cs ih =>
      rw [List.flatMap_cons, List.append_assoc, ih, List.map_cons, printPieces, print_pieceOf]
  rw [appendJsonString, hpieces]

theorem unescapeChars_pieces (cs : List Char) :
    unescapeChars (cs.map pieceOf) = some cs := by
  induction cs with
  | nil => rfl
  | cons c cs ih =>
    rw [List.map_cons]
    by_cases hplain : IsPlain c
    · rw [pieceOf, dif_pos hplain, unescapeChars, ih]
      rfl
    · have hlow : c.toNat < 93 := by
        rw [isPlain_iff] at hplain
        omega
      have hnat : (UInt16.ofNat c.toNat).toNat = c.toNat := Utf16.toNat_ofNat (by omega)
      have hhigh : Utf16.isHigh (UInt16.ofNat c.toNat) = false := by
        rw [Bool.eq_false_iff, ne_eq, Utf16.isHigh_iff, hnat]
        omega
      have hlower : Utf16.isLow (UInt16.ofNat c.toNat) = false := by
        rw [Bool.eq_false_iff, ne_eq, Utf16.isLow_iff, hnat]
        omega
      rw [pieceOf, dif_neg hplain, unescapeChars.eq_def]
      simp only [hhigh, hlower, Bool.false_eq_true, if_false, ih, hnat, Char.ofNat_toNat]
      rfl

theorem strictObject_perm (ms : List (String × Value)) (h : (ms.map Prod.fst).Nodup) :
    ∃ ns, strictObject ms = some ns ∧ ns.Perm ms :=
  ⟨_, if_pos h, sortMembers_perm ms⟩

theorem strictObject_eq_some {ms ns : List (String × Value)} (h : strictObject ms = some ns) :
    (ms.map Prod.fst).Nodup ∧ ns = sortMembers String.toList ms := by
  unfold strictObject at h
  split_ifs at h with hnodup
  exact ⟨hnodup, (Option.some.inj h).symm⟩

/-- The writer and the reader of canonical JSON, with the laws they obey. -/
def jcs : Format Char String Number (List UInt16) where
  toWriter := jcsWriter
  toReader := strictReader
  escape s := s.toList.map pieceOf
  quote_eq := appendJsonString_eq
  unescape_escape s := by
    change (unescapeChars (s.toList.map pieceOf)).map String.ofList = some s
    rw [unescapeChars_pieces, Option.map_some, String.ofList_toList]
  numeral := Number.numeral
  number_eq n := by cases n <;> rfl
  ofNumeral_numeral := Number.ofNumeral_numeral
  arrange_perm := strictObject_perm
  nodup_of_arrange ms ns h := by
    obtain ⟨hnodup, rfl⟩ := strictObject_eq_some h
    exact nodup_names_sortMembers.2 hnodup
  subset_of_arrange ms ns h := by
    obtain ⟨-, rfl⟩ := strictObject_eq_some h
    exact fun m hm => mem_sortMembers.1 hm

/-- `canonicalize_json_value` -/
def canonicalizeJsonValue (value : Value) : Option String :=
  (jcsWriter.append value).map String.ofList

/-- `StrictValue::deserialize` and `end`, on a `serde_json` reader of the text. -/
def strictValue (input : String) : Option Value :=
  (parse recursionLimit input.toList).bind strictReader.read

def canonicalizeJsonStr (input : String) : Option String :=
  (strictValue input).bind canonicalizeJsonValue

def isRfc8785 (input : String) : Bool :=
  match canonicalizeJsonStr input with
  | some canonical => canonical == input
  | none => false

/-- `serde_json`'s serializer, which writes members in the order of the struct or the map. It is given
no binary64 numbers. -/
def serdeJson : Format Char String Number Unit where
  toWriter := { quote := appendJsonString, number := jcsWriter.number, key := fun _ => () }
  toReader := strictReader
  escape := jcs.escape
  quote_eq := jcs.quote_eq
  unescape_escape := jcs.unescape_escape
  numeral := jcs.numeral
  number_eq := jcs.number_eq
  ofNumeral_numeral := jcs.ofNumeral_numeral
  arrange_perm := jcs.arrange_perm
  nodup_of_arrange := jcs.nodup_of_arrange
  subset_of_arrange := jcs.subset_of_arrange

/-- `serde_json::to_string` -/
def serdeToString (value : Value) : Option String := (serdeJson.append value).map String.ofList

/-- `parse_strict_json` for a type -/
def parseStrictJson {T : Type} (c : Codec T) (input : String) : Option T :=
  (strictValue input).bind (c.decode .value)

/-- `jcs_serialize` for a type -/
def jcsSerialize {T : Type} (c : Codec T) (value : T) : Option String :=
  canonicalizeJsonValue (c.encode value)

end Canonical

end ZolanaTvc.Protocol
