import ZolanaTvc.Json.Size
import ZolanaTvc.Protocol.Wire

/-!
# The size of what `serde_json` writes

`serde_json::to_vec` writes the members of an object in the order of the fields, with no blanks. How
many bytes it writes does not depend on that order.
-/

namespace ZolanaTvc.Protocol

open Json Serde

section Utf8

theorem utf8_ascii {cs : List Char} (h : ∀ c ∈ cs, c.toNat < 128) :
    utf8 (String.ofList cs) = cs.map fun c => UInt8.ofNat c.toNat := by
  induction cs with
  | nil => rfl
  | cons c cs ih =>
    obtain ⟨hc, hcs⟩ := List.forall_mem_cons.1 h
    have hsize : c.utf8Size = 1 :=
      Char.utf8Size_eq_one_iff.2 (UInt32.le_iff_toNat_le.2 (Nat.le_of_lt_succ hc))
    have hchar : utf8 (String.ofList [c]) = [UInt8.ofNat c.toNat] := by
      rw [← String.singleton_eq_ofList, utf8, String.toByteArray_singleton, List.utf8Encode_singleton,
        String.utf8EncodeChar_eq_singleton hsize]
      rfl
    rw [← List.singleton_append, String.ofList_append, utf8_append, hchar, ih hcs]
    rfl

/-- How long a text is in UTF-8. -/
def utf8Length : Measure Char where
  of s := (utf8 (String.ofList s)).length
  nil := rfl
  split a b c hc := by
    have hone : (utf8 (String.ofList [c])).length = 1 := by
      rw [utf8_ascii (by simpa using hc)]
      rfl
    show (utf8 (String.ofList (a ++ c :: b))).length = _
    rw [← List.singleton_append, String.ofList_append, String.ofList_append, utf8_append, utf8_append,
      List.length_append, List.length_append, hone, add_assoc]

end Utf8

section Writer

/-- `serde_json::to_vec` -/
def toVec {T : Type} (c : Codec T) (x : T) : Option Bytes := (serdeToString (c.encode x)).map utf8

theorem length_toVec {T : Type} {c : Codec T} {x : T} {bytes : Bytes} (h : toVec c x = some bytes) :
    bytes.length = serdeJson.size utf8Length (c.encode x) := by
  obtain ⟨t, ht, rfl⟩ := Option.map_eq_some_iff.1 h
  obtain ⟨s, hs, rfl⟩ := Option.map_eq_some_iff.1 ht
  exact @Writer.of_append _ _ _ _ _ _ _ utf8Length _ _ hs

/-- The characters that a string literal holds as they are, each in one byte. -/
def IsUnescaped (c : Char) : Prop := 0x20 ≤ c.toNat ∧ c.toNat < 128 ∧ c ≠ '"' ∧ c ≠ '\\'

instance isUnescaped.decidable : DecidablePred IsUnescaped := fun _ =>
  inferInstanceAs (Decidable (_ ∧ _))

theorem jsonChar_unescaped {c : Char} (hc : IsUnescaped c) : jsonChar c = [c] := by
  obtain ⟨hlow, -, hquote, hslash⟩ := hc
  have hne : ∀ d : Char, d.toNat < 0x20 → c ≠ d := by
    rintro d hd rfl
    omega
  simp only [jsonChar, hquote, hslash, hne (Char.ofNat 8) (by decide), hne (Char.ofNat 12) (by decide),
    hne '\n' (by decide), hne '\r' (by decide), hne '\t' (by decide), if_false, Nat.not_lt.2 hlow]

theorem unescaped_of_all {s : String} (h : s.toList.all (fun c => decide (IsUnescaped c)) = true) :
    ∀ c ∈ s.toList, IsUnescaped c :=
  fun c hc => of_decide_eq_true (List.all_eq_true.1 h c hc)

/-- Such a string is written between quotes. -/
theorem quote_unescaped {s : String} (hs : ∀ c ∈ s.toList, IsUnescaped c) :
    utf8Length.of (appendJsonString s) = s.length + 2 := by
  have hchars : s.toList.flatMap jsonChar = s.toList := by
    refine (List.flatMap_congr fun c hc => jsonChar_unescaped (hs c hc)).trans ?_
    rw [List.flatMap_singleton']
  have hascii : ∀ c ∈ '"' :: (s.toList ++ ['"']), c.toNat < 128 := by
    intro c hc
    simp only [List.mem_cons, List.mem_append, List.not_mem_nil, or_false] at hc
    obtain rfl | hc | rfl := hc
    · decide
    · exact (hs c hc).2.1
    · decide
  have hself : asciiText ('"' :: (s.toList ++ ['"'])) = '"' :: (s.toList ++ ['"']) := List.map_id _
  have hlength := utf8Length.asciiText _ hascii
  rw [hself] at hlength
  rw [appendJsonString, hchars, hlength, List.length_cons, List.length_append, String.length_toList]
  rfl

theorem unescaped_hex (bytes : Bytes) : ∀ c ∈ (encodeLowerHex bytes).toList, IsUnescaped c := by
  have hdigit : ∀ d : Fin 16, IsUnescaped (hexChar d) := by decide
  intro c hc
  rw [encodeLowerHex, String.toList_ofList, hexEncode, List.mem_flatMap] at hc
  obtain ⟨b, -, hc⟩ := hc
  rw [hexPair, List.mem_cons, List.mem_singleton] at hc
  obtain rfl | rfl := hc <;> exact hdigit _

theorem length_hex (bytes : Bytes) : (encodeLowerHex bytes).length = 2 * bytes.length := by
  rw [encodeLowerHex, String.length_ofList, hexEncode, List.length_flatMap]
  simp [hexPair, mul_comm]

theorem unescaped_decimal (x : UInt64) : ∀ c ∈ (encodeDecimalU64 x).toList, IsUnescaped c := by
  have hdigit : ∀ d : Fin 10, IsUnescaped (digitChar d) := by decide
  intro c hc
  rw [encodeDecimalU64, String.toList_ofList, printDigits, List.mem_map] at hc
  obtain ⟨d, -, rfl⟩ := hc
  exact hdigit d

theorem length_decimal (x : UInt64) : (encodeDecimalU64 x).length ≤ 20 := by
  have hx := x.toNat_lt
  rw [encodeDecimalU64, String.length_ofList, printDigits, List.length_map, digitsOf]
  split_ifs
  · decide
  · rw [List.length_reverse, List.length_map]
    exact (Nat.digits_length_le_iff (by norm_num) _).2 (lt_trans hx (by norm_num))

/-- A member whose name and value are written as they are. -/
theorem sizeMembers_str {name s : String} {ms : List (String × Value)}
    (hname : ∀ c ∈ name.toList, IsUnescaped c) (hs : ∀ c ∈ s.toList, IsUnescaped c) :
    serdeJson.sizeMembers utf8Length ((name, .str s) :: ms) =
      name.length + s.length + 6 + serdeJson.sizeMembers utf8Length ms := by
  have hquote : ∀ t, utf8Length.of (serdeJson.quote t) = utf8Length.of (appendJsonString t) :=
    fun _ => rfl
  rw [Writer.sizeMembers, Writer.size, hquote, hquote, quote_unescaped hname, quote_unescaped hs]
  omega

end Writer

end ZolanaTvc.Protocol
