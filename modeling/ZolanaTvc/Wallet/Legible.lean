import ZolanaTvc.Json.Image
import ZolanaTvc.Wallet.RequestSize

/-!
# What the enclave reads of the client's values

What the client writes is encoded to UTF-8, where U+FFFD stands for each surrogate alone, and the enclave
parses numbers of 64 bits.

## Main results

* `isRfc8785_lossy_iff`: the enclave takes the text of a value for canonical if and only if the value is
  legible and nests no deeper than its reader goes.
* `canonicalDigest_image`: both sides then compute one digest.
* `decodeNamed_of_image`: how a struct is read of an object of the client.
-/

namespace ZolanaTvc.Wallet

open Except Json Protocol Serde

section Legible

/-- The integer that `String(n)` writes is one of 64 bits. -/
def LegibleNumber (n : JsNumber) : Prop :=
  ∃ k : ℤ, n.numeral = some (.ofInt k) ∧ -2 ^ 63 ≤ k ∧ k < 2 ^ 64

/-- The names stay apart and in order when U+FFFD stands for each surrogate alone. -/
def LegibleNames (ks : List JsString) : Prop :=
  ∀ k ∈ ks, ∀ l ∈ ks, k < l → utf16Units (lossy k) < utf16Units (lossy l)

def Legible (w : JsValue) : Prop := w.All (fun _ => True) LegibleNumber LegibleNames

theorem zero_range : -2 ^ 63 ≤ (0 : ℤ) ∧ (0 : ℤ) < 2 ^ 64 := by decide

/-- What the enclave parses of `String(n)`. -/
def JsNumber.toNumber (n : JsNumber) : Serde.Number :=
  (n.numeral.bind Number.ofNumeral).getD (.int 0 zero_range)

/-- What the enclave holds of a value. -/
def image (w : JsValue) : Value := w.map lossy JsNumber.toNumber

theorem LegibleNumber.toNumber {n : JsNumber} (h : LegibleNumber n) :
    ∃ k hk, n.toNumber = .int k hk ∧ n.numeral = some (.ofInt k) := by
  obtain ⟨k, hnumeral, hk⟩ := h
  refine ⟨k, hk, ?_, hnumeral⟩
  rw [JsNumber.toNumber, hnumeral, Option.bind_some, Number.ofNumeral_numeral (.int k hk) _ rfl]
  rfl

theorem LegibleNames.perm {ks ls : List JsString} (hperm : ks.Perm ls) (h : LegibleNames ks) :
    LegibleNames ls :=
  fun k hk l hl => h k (hperm.mem_iff.2 hk) l (hperm.mem_iff.2 hl)

theorem LegibleNames.nodup {ks : List JsString} (h : LegibleNames ks) (hnodup : ks.Nodup) :
    (ks.map lossy).Nodup := by
  refine hnodup.map_on fun k hk l hl heq => ?_
  obtain hlt | rfl | hgt := lt_trichotomy k l
  · have himage := h k hk l hl hlt
    rw [heq] at himage
    exact absurd himage (lt_irrefl _)
  · rfl
  · have himage := h l hl k hk hgt
    rw [heq] at himage
    exact absurd himage (lt_irrefl _)

theorem LegibleNames.keepsOrder {ks : List JsString} (h : LegibleNames ks) :
    KeepsOrder jcs.key Protocol.jcs.key lossy ks := by
  intro k hk l hl hkl
  obtain rfl | hlt := eq_or_lt_of_le (show k ≤ l from hkl)
  · exact le_rfl
  · exact (h k hk l hl hlt).le

theorem distinct_image {w : JsValue} (hdistinct : w.Distinct) (hw : Legible w) : (image w).Distinct := by
  rw [image, Json.Distinct, all_map]
  exact (hdistinct.and hw).mono (fun _ _ => trivial) (fun _ _ => trivial) fun ks hks => hks.2.nodup hks.1

theorem floatFree_image {w : JsValue} (hw : Legible w) : FloatFree (image w) := by
  rw [image, FloatFree, all_map]
  refine hw.mono (fun _ _ => trivial) (fun n hn => ?_) fun _ _ => trivial
  obtain ⟨k, hk, htoNumber, -⟩ := hn.toNumber
  rw [htoNumber]
  rfl

end Legible

section Texts

theorem parts_decodeLossy : Parts Utf16.decodeLossy where
  nil := rfl
  part s c t hc := by
    have hunit : (CodeUnit.ascii c : UInt16).toNat = c.toNat :=
      show CodeUnit.code (CodeUnit.ascii c : UInt16) = c.toNat from CodeUnit.code_ascii c hc
    have hhigh : Utf16.isHigh (CodeUnit.ascii c) = false := by
      rw [Bool.eq_false_iff, ne_eq, Utf16.isHigh_iff, hunit]
      omega
    have hlow : Utf16.isLow (CodeUnit.ascii c) = false := by
      rw [Bool.eq_false_iff, ne_eq, Utf16.isLow_iff, hunit]
      omega
    rw [Utf16.decodeLossy_append hhigh hlow, hunit, Char.ofNat_toNat]
    rfl

/-- The values of the client in the order in which it writes them. -/
def written (w : JsValue) : JsValue := w.sortBy jcs.key

theorem reorder_written {w : JsValue} (hdistinct : w.Distinct) : Reorder (written w) w :=
  reorder_of_sortBy_eq (sortBy_sortBy Function.injective_id hdistinct)

/-- The enclave writes the image of a legible value as the client's text reaches it. -/
theorem append_image {w : JsValue} (hdistinct : w.Distinct) (hw : Legible w) {s : JsString}
    (hs : jcs.append w = some s) : Protocol.jcs.append (image w) = some (Utf16.decodeLossy s) := by
  have hnumber : ∀ n t, LegibleNumber n → jcs.number n = some t →
      Protocol.jcs.number n.toNumber = some (Utf16.decodeLossy t) := by
    intro n t hn ht
    obtain ⟨k, hk, htoNumber, hnumeral⟩ := hn.toNumber
    rw [jcs.number_eq] at ht
    obtain ⟨m, hm, rfl⟩ := Option.map_eq_some_iff.1 ht
    obtain rfl := Option.some.inj (hm.symm.trans hnumeral)
    rw [htoNumber, parts_decodeLossy.numeral]
    rfl
  have hordered : Protocol.jcs.append ((written w).map lossy JsNumber.toNumber) =
      some (Utf16.decodeLossy s) :=
    Writer.append_image parts_decodeLossy (fun k => (decodeLossy_appendJsonString k).symm) hnumber
      (hw.mono (fun _ _ => trivial) (fun _ h => h) fun _ h => h.keepsOrder) hs
  have hlegible : Legible (written w) := hw.sortBy fun _ _ => LegibleNames.perm
  exact Protocol.jcs.append_of_reorder utf16Units_injective (distinct_image hdistinct.sortBy hlegible)
    (reorder_map (reorder_written hdistinct)) hordered

theorem canonicalize_image {w : JsValue} (hdistinct : w.Distinct) (hw : Legible w) {s : JsString}
    (hs : canonicalizeJsonValue w = .ok s) :
    Protocol.canonicalizeJsonValue (image w) = some (lossy s) := by
  rw [Protocol.canonicalizeJsonValue_eq_some, lossy, String.toList_ofList]
  exact append_image hdistinct hw (canonicalizeJsonValue_eq_ok.1 hs)

/-- `JSON.parse` takes every number. -/
def anyNumeral (m : Numeral) : Option JsNumber := some (ofNumeral m)

theorem anyNumeral_numeral (n : JsNumber) (m : Numeral) (h : n.numeral = some m) : anyNumeral m = some n :=
  congrArg some (JsNumber.ofNumeral_numeral n m h)

/-- The strings of the enclave with the numbers of the client, in whatever order they stand. -/
def lossyFormat : Format Char String JsNumber Unit :=
  Protocol.jcs.withNumbers JsNumber.numeral anyNumeral anyNumeral_numeral

theorem append_lossyFormat {w : JsValue} {s : JsString} (hs : jcs.append w = some s) :
    lossyFormat.append ((written w).map lossy id) = some (Utf16.decodeLossy s) := by
  have hnumber : ∀ n t, True → jcs.number n = some t →
      lossyFormat.number (id n) = some (Utf16.decodeLossy t) := by
    intro n t _ ht
    rw [jcs.number_eq] at ht
    obtain ⟨m, hm, rfl⟩ := Option.map_eq_some_iff.1 ht
    have hnumeral : lossyFormat.numeral (id n) = some m := hm
    rw [lossyFormat.number_eq, hnumeral, parts_decodeLossy.numeral]
    rfl
  have hall : w.All (fun _ => True) (fun _ => True) (KeepsOrder jcs.key lossyFormat.key lossy) :=
    all_of_forall (fun _ => trivial) (fun _ => trivial) (KeepsOrder.unit jcs.key lossy) w
  exact Writer.append_image parts_decodeLossy (fun k => (decodeLossy_appendJsonString k).symm) hnumber
    hall hs

/-- A value whose text the enclave takes for canonical is legible. -/
theorem legible_of_isRfc8785 {w : JsValue} {s : JsString} (hs : canonicalizeJsonValue w = .ok s)
    (h : Protocol.isRfc8785 (lossy s) = true) : Legible w ∧ w.depth ≤ recursionLimit := by
  obtain ⟨v, hdistinct, -, hdepth, hv⟩ := Protocol.isRfc8785_iff.1 h
  rw [Protocol.canonicalizeJsonValue_eq_some, lossy, String.toList_ofList] at hv
  have hlossy := append_lossyFormat (canonicalizeJsonValue_eq_ok.1 hs)
  obtain ⟨t, ht, hprint⟩ := Format.append_eq_some_iff.1 hv
  obtain ⟨t', ht', hprint'⟩ := Format.append_eq_some_iff.1 hlossy
  -- The two write one text, so that they spell one tree.
  obtain rfl := print_injective (hprint.trans hprint'.symm)
  constructor
  · have hall := Format.ascending_of_tree (F := Protocol.jcs) (G := lossyFormat) rfl rfl
      utf16Units_injective hdistinct ht ht'
    rw [all_map] at hall
    refine (all_of_sortBy hall).mono (fun _ _ => trivial) ?_ ?_
    · rintro n ⟨m, n', hm, hn'⟩
      cases n' with
      | float x => cases hn'
      | int k hk =>
        obtain rfl := Option.some.inj hn'
        exact ⟨k, hm, hk⟩
    · rintro ks ⟨ls, hperm, hle, hlt⟩
      have hnames : LegibleNames ls := lt_of_pairwise hle hlt
      exact hnames.perm hperm.symm
  · have htree := Format.depth_of_tree ht hdepth
    exact depth_sortBy_le.1 (depth_map_le.1 (Format.depth_le_of_tree ht' htree))

/-- The enclave takes the text of a value for canonical if and only if the value is legible and nests no
deeper than its reader goes. -/
theorem isRfc8785_lossy_iff {w : JsValue} (hdistinct : w.Distinct) {s : JsString}
    (hs : canonicalizeJsonValue w = .ok s) :
    Protocol.isRfc8785 (lossy s) = true ↔ Legible w ∧ w.depth ≤ recursionLimit := by
  constructor
  · exact legible_of_isRfc8785 hs
  · rintro ⟨hw, hdepth⟩
    exact Protocol.isRfc8785_iff.2 ⟨image w, distinct_image hdistinct hw, floatFree_image hw,
      depth_map_le.2 hdepth, canonicalize_image hdistinct hw hs⟩

/-- What the enclave reads is the image of what the client wrote. -/
theorem strictValue_image {w : JsValue} (hdistinct : w.Distinct) (hw : Legible w)
    (hdepth : w.depth ≤ recursionLimit) {s : JsString} (hs : canonicalizeJsonValue w = .ok s) :
    strictValue (lossy s) = some ((image w).sortBy String.toList) :=
  strictValue_of_canonicalize (distinct_image hdistinct hw) (depth_map_le.2 hdepth)
    (canonicalize_image hdistinct hw hs)

/-- Both sides hash one byte string. -/
theorem canonicalDigest_image {sha256 : Bytes → ByteArrayOf 32} {domain : String} {w : JsValue}
    (hdistinct : w.Distinct) (hw : Legible w) {digest : ByteArrayOf 32}
    (h : canonicalDigest sha256 domain w = .ok digest) :
    (canonicalInput (utf8 domain) (image w)).map sha256 = some digest := by
  obtain ⟨s, hs, hdigest⟩ := bind_eq_ok.1 h
  rw [canonicalInput, canonicalize_image hdistinct hw hs]
  exact congrArg some (Except.ok.inj hdigest)

end Texts

section Strings

/-- Only one string of the client reaches the enclave as a text without U+FFFD. -/
theorem lossy_eq_iff {s : JsString} {t : String} (ht : Char.ofNat 0xfffd ∉ t.toList) :
    lossy s = t ↔ s = utf16Units t := by
  constructor
  · rintro rfl
    rw [lossy, String.toList_ofList] at ht
    rw [utf16Units, lossy, String.toList_ofList, Utf16.encode_decodeLossy ht]
  · rintro rfl
    exact lossy_units t

theorem notMem_of_unescaped {t : String} (ht : ∀ c ∈ t.toList, IsUnescaped c) :
    Char.ofNat 0xfffd ∉ t.toList :=
  fun h => absurd (ht _ h) (by decide)

theorem lossy_eq_hex {s : JsString} {bytes : Bytes} :
    lossy s = encodeLowerHex bytes ↔ s = bytesToHex bytes :=
  lossy_eq_iff (notMem_of_unescaped (unescaped_hex bytes))

theorem decode_hex {source : Source} {s : JsString} {bytes : Bytes} :
    Protocol.hex.decode source (.str (lossy s)) = some bytes ↔ s = bytesToHex bytes := by
  rw [← lossy_eq_hex]
  constructor
  · exact fun h => (encodeLowerHex_of_decode h).symm
  · intro h
    rw [h]
    exact decodeLowerHex_encodeLowerHex bytes

theorem decode_hexArray {source : Source} {n : ℕ} {s : JsString} {b : ByteArrayOf n} :
    (hexArray n).decode source (.str (lossy s)) = some b ↔ s = bytesToHex b.val := by
  rw [← lossy_eq_hex]
  constructor
  · exact fun h => (encodeLowerHex_of_decodeArray h).symm
  · intro h
    rw [h]
    exact decodeLowerHexArray_encode b

theorem decode_decimalU64 {source : Source} {s : JsString} {n : UInt64} :
    decimalU64.decode source (.str (lossy s)) = some n ↔
      s = utf16Units (Protocol.encodeDecimalU64 n) := by
  rw [← lossy_eq_iff (notMem_of_unescaped (unescaped_decimal n))]
  constructor
  · exact fun h => (encodeDecimalU64_of_decode h).symm
  · intro h
    rw [h]
    exact Protocol.decodeDecimalU64_encode n

/-- A variant without fields is read of its name. -/
theorem decode_unitEnum {T : Type} {name : T → String} {all : List T} {hall : ∀ x, x ∈ all}
    {hname : Function.Injective name} {source : Source} {s : JsString} {x : T}
    (hascii : ∀ c ∈ (name x).toList, IsUnescaped c) :
    (Codec.unitEnum name all hall hname).decode source (.str (lossy s)) = some x ↔
      s = utf16Units (name x) := by
  rw [← lossy_eq_iff (notMem_of_unescaped hascii)]
  constructor
  · intro h
    have hfind := List.find?_some h
    exact (of_decide_eq_true hfind).symm
  · intro h
    obtain ⟨y, hy, hnorm⟩ := (Codec.unitEnum name all hall hname).decode_of_reorder source x
      (.str (name x)) (.str trivial) (.str _)
    obtain rfl := hnorm
    rw [h]
    exact hy

theorem decode_network {source : Source} {s : JsString} {n : Network} :
    Network.codec.decode source (.str (lossy s)) = some n ↔ s = utf16Units n.asStr :=
  decode_unitEnum (unescaped_of_all (by cases n <;> decide))

theorem decode_operationKind {source : Source} {s : JsString} {k : OperationKind} :
    OperationKind.codec.decode source (.str (lossy s)) = some k ↔ s = utf16Units k.asStr :=
  decode_unitEnum (unescaped_of_all (by cases k <;> decide))

end Strings

section Objects

theorem image_object (members : List (String × JsValue)) :
    image (object members) = .obj (members.map (Prod.map id image)) := by
  rw [image, object, map_obj, List.map_map]
  apply congrArg
  apply List.map_congr_left
  intro m _
  exact Prod.ext (lossy_units m.1) rfl

theorem image_arr (ws : List JsValue) : image (.arr ws) = .arr (ws.map image) := map_arr lossy _ ws

theorem nodup_object {members : List (String × JsValue)} (h : (members.map Prod.fst).Nodup) :
    ((members.map (Prod.map utf16Units (id : JsValue → JsValue))).map Prod.fst).Nodup := by
  rw [List.map_map]
  have hnames : (members.map Prod.fst).map utf16Units =
      members.map (Prod.fst ∘ Prod.map utf16Units id) := by
    rw [List.map_map]
    rfl
  rw [← hnames]
  exact h.map utf16Units_injective

theorem distinct_of_object {members : List (String × JsValue)} (h : (object members).Distinct) :
    ∀ m ∈ members, m.2.Distinct := by
  rw [object, distinct_obj, List.forall_mem_map] at h
  exact h.2

theorem distinct_object {members : List (String × JsValue)} (hnodup : (members.map Prod.fst).Nodup)
    (h : ∀ m ∈ members, m.2.Distinct) : (object members).Distinct := by
  rw [object, distinct_obj, List.forall_mem_map]
  exact ⟨nodup_object hnodup, h⟩

/-- The names that the client itself writes stay apart and in order. -/
theorem legibleNames_units (ks : List String) : LegibleNames (ks.map utf16Units) := by
  intro k hk l hl hkl
  obtain ⟨s, -, rfl⟩ := List.mem_map.1 hk
  obtain ⟨t, -, rfl⟩ := List.mem_map.1 hl
  rwa [lossy_units, lossy_units]

theorem legible_object {members : List (String × JsValue)} :
    Legible (object members) ↔ ∀ m ∈ members, Legible m.2 := by
  have hnames : LegibleNames ((members.map (Prod.map utf16Units (id : JsValue → JsValue))).map Prod.fst) := by
    have hkeys := legibleNames_units (members.map Prod.fst)
    rw [List.map_map] at hkeys ⊢
    exact hkeys
  rw [Legible, object, all_obj, List.forall_mem_map, List.forall_mem_map]
  constructor
  · exact fun h => h.2.2
  · exact fun h => ⟨hnames, fun _ _ => trivial, h⟩

theorem depth_object {members : List (String × JsValue)} {d : ℕ} :
    (object members).depth ≤ d + 1 ↔ ∀ m ∈ members, m.2.depth ≤ d := by
  rw [object, depth_obj_le, List.forall_mem_map]
  rfl

theorem lookup_image (members : List (String × JsValue)) (k : String) :
    (members.map (Prod.map id image)).lookup k = (members.lookup k).map image := by
  induction members with
  | nil => rfl
  | cons m members ih =>
    obtain ⟨l, w⟩ := m
    rw [List.map_cons, Prod.map_apply, List.lookup_cons, List.lookup_cons]
    cases hkl : k == id l with
    | true => rw [show (k == l) = true from hkl]; rfl
    | false => rw [show (k == l) = false from hkl]; exact ih

/-- A struct that is read of an object of the client is read of its members. -/
theorem decodeNamed_of_image {A T : Type} {fs : Fields A} {e : T ≃ A} {source : Source}
    {members : List (String × JsValue)} (hnames : members.map Prod.fst = fs.names) {x : T}
    (h : (fs.struct e).decode source ((image (object members)).sortBy String.toList) = some x) :
    fs.decodeNamed source
      (fun k => (members.lookup k).map fun w => (image w).sortBy String.toList) = some (e x) := by
  rw [image_object, sortBy_obj] at h
  obtain ⟨ns, hns, -, hdecode⟩ | ⟨_, harr, -⟩ := Fields.struct_decode_eq_some.1 h
  · obtain rfl := Json.obj.inj hns
    rw [← hdecode]
    apply congrArg
    funext k
    have hsorted : (sortMembers String.toList (sortValues (members.map (Prod.map id image)))).lookup k =
        (sortValues (members.map (Prod.map id image))).lookup k := by
      apply lookup_eq_of_perm _ (sortMembers_perm _)
      rw [nodup_names_sortMembers, names_sortValues, List.map_map]
      exact hnames.symm ▸ fs.nodup
    refine Eq.trans ?_ hsorted.symm
    rw [lookup_sortValues, lookup_image, Option.map_map]
    rfl
  · cases harr

end Objects

section Lists

variable {T : Type} {c : Codec T}

theorem exists_encode_list {S : Type} {f : S → JsValue} {ss : List S}
    (h : ∀ s ∈ ss, ∃ x, c.encode x = image (f s)) : ∃ xs, c.list.encode xs = image (.arr (ss.map f)) := by
  obtain ⟨xs, hxs⟩ : ∃ xs : List T, xs.map c.encode = ss.map fun s => image (f s) := by
    induction ss with
    | nil => exact ⟨[], rfl⟩
    | cons s ss ih =>
      obtain ⟨hs, hss⟩ := List.forall_mem_cons.1 h
      obtain ⟨x, hx⟩ := hs
      obtain ⟨xs, hxs⟩ := ih hss
      exact ⟨x :: xs, by rw [List.map_cons, List.map_cons, hx, hxs]⟩
  refine ⟨xs, ?_⟩
  rw [image_arr, List.map_map]
  exact congrArg Json.arr hxs

theorem forall_of_decode_list {source : Source} {ws : List JsValue} {xs : List T}
    (h : c.list.decode source ((image (.arr ws)).sortBy String.toList) = some xs) :
    ∀ w ∈ ws, ∃ x, c.decode source ((image w).sortBy String.toList) = some x := by
  rw [image_arr, sortBy_arr, List.map_map] at h
  intro w hw
  have hread := mapM_eq_some_iff.1 h
  rw [List.forall₂_map_left_iff] at hread
  obtain ⟨x, -, hx⟩ := exists_mem_left hread.flip hw
  exact ⟨x, hx⟩

end Lists

end ZolanaTvc.Wallet
