import ZolanaTvc.Cbor.Item
import ZolanaTvc.Wallet.JsonParse

/-!
# The client's CBOR reader

`decodeCbor` reads the narrow subset of CBOR that attestation documents use. `valueOf` says what an
item of that subset denotes.

## Main results

* `exists_item_of_decodeCbor`: a document accepted is the deterministic encoding of an item of the
  subset.
* `decodeCbor_unique_iff`: documents of one value are equal exactly when their texts begin alike with
  a byte order mark.
-/

namespace ZolanaTvc.Wallet.CborReader

open Cbor Except Protocol

def MAJOR_UNSIGNED : ℕ := 0

def MAJOR_NEGATIVE : ℕ := 1

def MAJOR_BYTES : ℕ := 2

def MAJOR_TEXT : ℕ := 3

def MAJOR_ARRAY : ℕ := 4

def MAJOR_MAP : ℕ := 5

def MAJOR_TAG : ℕ := 6

def MAJOR_SIMPLE : ℕ := 7

def COSE_SIGN1_TAG : ℕ := 18

def MAX_DEPTH : ℕ := 16

def MAX_INDEFINITE_ROOT_MAP_ENTRIES : ℕ := 32

/-- `Number.MAX_SAFE_INTEGER` -/
def MAX_SAFE_INTEGER : ℕ := 2 ^ 53 - 1

/-- A key of a map. -/
inductive CborKey where
  | string (s : JsString)
  | number (x : JsNumber)
deriving DecidableEq

inductive CborValue where
  | null
  | boolean (b : Bool)
  | number (x : JsNumber)
  | bytes (b : Bytes)
  | string (s : JsString)
  | array (items : List CborValue)
  | map (entries : List (CborKey × CborValue))

/-- What the reader throws: a `CborError` with its message, or an error of the platform. -/
inductive CborThrown where
  | cborError (message : String)
  | platform
deriving DecidableEq

/-- The number that an arithmetic expression with an integral result has. -/
def toNumber (z : ℤ) : JsNumber :=
  match Binary64.round z with
  | some x => .finite x
  | none => .infinite (z < 0)

/-- The key that a value read is. -/
def CborValue.asKey : CborValue → Option CborKey
  | .string s => some (.string s)
  | .number x => some (.number x)
  | _ => none

section Reader

/-- A reader at an offset is the bytes it has still to read. -/
abbrev Reader (T : Type) := Bytes → Except CborThrown (T × Bytes)

def take (length : ℕ) : Reader Bytes := fun s => do
  refuse (s.length < length) (.cborError "truncated CBOR item")
  return (s.take length, s.drop length)

def byte : Reader UInt8
  | [] => throw (.cborError "truncated CBOR item")
  | value :: s => return (value, s)

def nextIsBreak (s : Bytes) : Bool := s.head? = some 0xff

/-- An argument of `width` bytes. -/
def wideArgument (width minimum : ℕ) : Reader ℕ := fun s => do
  let (bytes, s) ← take width s
  let value := bytes.foldl (fun value byte => value * 256 + byte.toNat) 0
  refuse (value < minimum) (.cborError "non-minimal CBOR argument")
  refuse (value > MAX_SAFE_INTEGER) (.cborError "CBOR argument too large")
  return (value, s)

/-- Reads the argument, rejecting any non-shortest encoding of it. -/
def argument (additional : ℕ) : Reader ℕ := fun s =>
  if additional < 24 then return (additional, s)
  else if additional = 24 then do
    let (value, s) ← byte s
    refuse (value.toNat < 24) (.cborError "non-minimal CBOR argument")
    return (value.toNat, s)
  else if additional = 25 then wideArgument 2 0x100 s
  else if additional = 26 then wideArgument 4 0x10000 s
  else if additional = 27 then wideArgument 8 0x100000000 s
  -- 28-30 are reserved; 31 is the indefinite-length marker.
  else throw (.cborError "unsupported CBOR argument encoding")

variable (read : Reader CborValue)

/-- The items of an array, each read one level deeper. -/
def readItems : ℕ → Reader (List CborValue)
  | 0 => fun s => return ([], s)
  | length + 1 => fun s => do
    let (item, s) ← read s
    let (items, s) ← readItems length s
    return (item :: items, s)

/-- The entries of a map, after those it already has. -/
def readEntries : ℕ → List (CborKey × CborValue) → Reader (List (CborKey × CborValue))
  | 0, entries => fun s => return (entries, s)
  | length + 1, entries => fun s => do
    let (key, s) ← read s
    let key ← ofOption key.asKey (.cborError "unsupported CBOR map key")
    refuse (key ∈ entries.map Prod.fst) (.cborError "duplicate CBOR map key")
    let (value, s) ← read s
    readEntries length (entries ++ [(key, value)]) s

/-- The entries of a map of indefinite length, which has room for so many more. -/
def indefiniteRootMap : ℕ → List (CborKey × CborValue) → Reader (List (CborKey × CborValue))
  | 0, entries => fun s => do
    refuse (nextIsBreak s = false) (.cborError "indefinite root map has too many entries")
    let (_, s) ← byte s
    return (entries, s)
  | room + 1, entries => fun s => do
    if nextIsBreak s then
      let (_, s) ← byte s
      return (entries, s)
    else
      let (key, s) ← read s
      let key ← ofOption key.asKey (.cborError "unsupported CBOR map key")
      refuse (nextIsBreak s = true) (.cborError "indefinite root map is missing a value")
      refuse (key ∈ entries.map Prod.fst) (.cborError "duplicate CBOR map key")
      let (value, s) ← read s
      indefiniteRootMap room (entries ++ [(key, value)]) s

/-- `Reader.read`, whose calls to itself are `read`. -/
def readWith (allowIndefiniteRootMap root : Bool) : Reader CborValue := fun s => do
  let (initial, s) ← byte s
  let major := initial.toNat / 32
  let additional := initial.toNat % 32
  if major = MAJOR_SIMPLE then
    if additional = 20 then return (.boolean false, s)
    else if additional = 21 then return (.boolean true, s)
    else if additional = 22 then return (.null, s)
    else throw (.cborError "unsupported CBOR simple value")
  else if additional = 31 ∧ major = MAJOR_MAP ∧ root = true ∧ allowIndefiniteRootMap = true then
    let (entries, s) ← indefiniteRootMap read MAX_INDEFINITE_ROOT_MAP_ENTRIES [] s
    return (.map entries, s)
  else
    let (argument, s) ← argument additional s
    if major = MAJOR_UNSIGNED then return (.number (toNumber argument), s)
    else if major = MAJOR_NEGATIVE then return (.number (toNumber (-1 - argument)), s)
    else if major = MAJOR_BYTES then
      let (bytes, s) ← take argument s
      return (.bytes bytes, s)
    else if major = MAJOR_TEXT then
      let (bytes, s) ← take argument s
      -- `TextDecoder` drops a byte order mark at the start, as nobody tells it not to.
      let text ← ofOption (textDecode bytes) .platform
      return (.string text, s)
    else if major = MAJOR_ARRAY then
      let (items, s) ← readItems read argument s
      return (.array items, s)
    else if major = MAJOR_MAP then
      let (entries, s) ← readEntries read argument [] s
      return (.map entries, s)
    else if major = MAJOR_TAG then
      -- The tag leaves no trace in the value.
      refuse (argument ≠ COSE_SIGN1_TAG ∨ root = false) (.cborError "unsupported CBOR tag")
      read s
    else throw (.cborError "unsupported CBOR major type")

end Reader

/-- `Reader.read`, with so many levels left. -/
def read (allowIndefiniteRootMap : Bool) : ℕ → Bool → Reader CborValue
  | 0, _ => fun _ => throw (.cborError "CBOR nesting too deep")
  | room + 1, root =>
    readWith (read allowIndefiniteRootMap room false) allowIndefiniteRootMap root

def decodeDocument (allowIndefiniteRootMap : Bool) (bytes : Bytes) :
    Except CborThrown CborValue := do
  let (value, s) ← read allowIndefiniteRootMap (MAX_DEPTH + 1) true bytes
  refuse (s ≠ []) (.cborError "trailing bytes after CBOR item")
  return value

/-- Decodes one deterministic CBOR item and rejects trailing bytes. -/
def decodeCbor (bytes : Bytes) : Except CborThrown CborValue := decodeDocument false bytes

/-- Decodes the one non-deterministic container NSM emits around an attestation. -/
def decodeAwsNitroAttestationCbor (bytes : Bytes) : Except CborThrown CborValue :=
  decodeDocument true bytes

section Values

/-- What `false`, `true` and `null` denote. -/
def simpleValue (n : ℕ) : Option CborValue :=
  if n = 20 then some (.boolean false)
  else if n = 21 then some (.boolean true)
  else if n = 22 then some .null
  else none

mutual

/-- What an item of the subset denotes. -/
def valueOf : Item → Option CborValue
  | .unsigned n => if n ≤ MAX_SAFE_INTEGER then some (.number (toNumber n)) else none
  | .negative n => if n ≤ MAX_SAFE_INTEGER then some (.number (toNumber (-1 - n))) else none
  | .bytes b => if b.length ≤ MAX_SAFE_INTEGER then some (.bytes b) else none
  | .text b => if b.length ≤ MAX_SAFE_INTEGER then (textDecode b).map .string else none
  | .array items => if items.length ≤ MAX_SAFE_INTEGER then (valuesOf items).map .array else none
  | .map entries =>
    if entries.length ≤ MAX_SAFE_INTEGER then
      (entriesOf entries).bind fun es => if (es.map Prod.fst).Nodup then some (.map es) else none
    else none
  | .tag _ _ => none
  | .simple n => simpleValue n

def valuesOf : List Item → Option (List CborValue)
  | [] => some []
  | i :: items => (valueOf i).bind fun v => (valuesOf items).map fun vs => v :: vs

def entriesOf : List (Item × Item) → Option (List (CborKey × CborValue))
  | [] => some []
  | (k, v) :: entries =>
    ((valueOf k).bind CborValue.asKey).bind fun key => (valueOf v).bind fun value =>
      (entriesOf entries).map fun es => (key, value) :: es

end

theorem toNumber_eq {z : ℤ} (h : |z| ≤ 2 ^ 53) : toNumber z = .finite (Binary64.ofInt z h) := by
  rw [toNumber, Binary64.round_intCast h]

theorem unsigned_bound {n : ℕ} (h : n ≤ MAX_SAFE_INTEGER) : |(n : ℤ)| ≤ 2 ^ 53 := by
  rw [Nat.abs_cast]
  unfold MAX_SAFE_INTEGER at h
  omega

theorem negative_bound {n : ℕ} (h : n ≤ MAX_SAFE_INTEGER) : |(-1 - n : ℤ)| ≤ 2 ^ 53 := by
  unfold MAX_SAFE_INTEGER at h
  rw [abs_le]
  omega

theorem toNumber_inj {y z : ℤ} (hy : |y| ≤ 2 ^ 53) (hz : |z| ≤ 2 ^ 53)
    (h : toNumber y = toNumber z) : y = z := by
  rw [toNumber_eq hy, toNumber_eq hz] at h
  have hvalue : (y : ℚ) = z := congrArg Binary64.value (JsNumber.finite.inj h)
  exact_mod_cast hvalue

end Values

section Soundness

/-- Whatever the reader accepts is the encoding of an item that denotes what it returns. -/
def Sound (read : Reader CborValue) : Prop :=
  ∀ s v r, read s = .ok (v, r) → ∃ i : Item, s = i.encode ++ r ∧ i.Fits ∧ valueOf i = some v

theorem byte_eq_ok {s r : Bytes} {b : UInt8} : byte s = .ok (b, r) ↔ s = b :: r := by
  cases s with
  | nil => simp [byte]
  | cons c s => simp [byte]

theorem take_eq_ok {n : ℕ} {s b r : Bytes} :
    take n s = .ok (b, r) ↔ b.length = n ∧ s = b ++ r := by
  simp only [take, bind_eq_ok, refuse_eq_ok, exists_const, pure_eq_ok, Prod.mk.injEq, not_lt]
  constructor
  · rintro ⟨hle, rfl, rfl⟩
    exact ⟨List.length_take_of_le hle, (List.take_append_drop n s).symm⟩
  · rintro ⟨rfl, rfl⟩
    exact ⟨by simp, by simp, by simp⟩

theorem wideArgument_eq_ok {w minimum n : ℕ} {s r : Bytes} :
    wideArgument w minimum s = .ok (n, r) ↔ ∃ b : Bytes, b.length = w ∧ s = b ++ r ∧
      ofBigEndian b = n ∧ minimum ≤ n ∧ n ≤ MAX_SAFE_INTEGER := by
  simp only [wideArgument, bind_eq_ok, refuse_eq_ok, exists_const, pure_eq_ok, Prod.mk.injEq,
    Prod.exists, take_eq_ok, not_lt, gt_iff_lt]
  constructor
  · rintro ⟨b, r, ⟨hlength, hs⟩, hminimum, hsafe, rfl, rfl⟩
    exact ⟨b, hlength, hs, rfl, hminimum, hsafe⟩
  · rintro ⟨b, hlength, hs, rfl, hminimum, hsafe⟩
    exact ⟨b, r, ⟨hlength, hs⟩, hminimum, hsafe, rfl, rfl⟩

/-- An argument read stands in a head of the shortest form. -/
theorem head_of_argument {initial : UInt8} {s r : Bytes} {n : ℕ}
    (h : argument (initial.toNat % 32) s = .ok (n, r)) :
    initial :: s = head (initial.toNat / 32) n ++ r ∧ n ≤ MAX_SAFE_INTEGER := by
  -- The initial byte and the bytes of the argument are written back as they were read.
  have hhead : ∀ b : Bytes, additional n = initial.toNat % 32 → width n = b.length →
      ofBigEndian b = n ∨ b = [] → s = b ++ r →
        initial :: s = head (initial.toNat / 32) n ++ r := by
    rintro b hadditional hwidth hb rfl
    have hbytes : bigEndian (width n) n = b := by
      rcases hb with rfl | rfl
      · rw [hwidth, bigEndian_ofBigEndian]
      · rw [hwidth]
        rfl
    rw [head, hadditional, Nat.div_add_mod', UInt8.ofNat_toNat, hbytes, List.cons_append]
  -- Of the three wide forms only the width and the least argument differ.
  have hwide : ∀ w minimum, wideArgument w minimum s = .ok (n, r) →
      (minimum ≤ n → n < 256 ^ w → additional n = initial.toNat % 32 ∧ width n = w) →
      initial :: s = head (initial.toNat / 32) n ++ r ∧ n ≤ MAX_SAFE_INTEGER := by
    intro w minimum hread hsize
    obtain ⟨b, rfl, hs, rfl, hminimum, hsafe⟩ := wideArgument_eq_ok.1 hread
    obtain ⟨hadditional, hwidth⟩ := hsize hminimum (ofBigEndian_lt b)
    exact ⟨hhead b hadditional hwidth (.inl rfl) hs, hsafe⟩
  unfold argument at h
  split_ifs at h with hdirect hbyte h2 h4 h8
  · obtain ⟨rfl, rfl⟩ := Prod.mk.inj (pure_eq_ok.1 h)
    refine ⟨hhead [] ?_ ?_ (.inr rfl) rfl, by unfold MAX_SAFE_INTEGER; omega⟩
    · rw [additional, if_pos hdirect]
    · rw [width, if_pos hdirect, List.length_nil]
  · simp only [bind_eq_ok, Prod.exists, byte_eq_ok, refuse_eq_ok, exists_const, pure_eq_ok,
      Prod.mk.injEq, not_lt] at h
    obtain ⟨x, r, hs, hminimum, rfl, rfl⟩ := h
    have hx := x.toNat_lt
    refine ⟨hhead [x] ?_ ?_ (.inl ?_) hs, by unfold MAX_SAFE_INTEGER; omega⟩
    · rw [hbyte, additional, if_neg (by omega), if_pos (by omega)]
    · rw [width, if_neg (by omega), if_pos (by omega), List.length_singleton]
    · rw [ofBigEndian, List.foldl_cons, List.foldl_nil, Nat.zero_mul, Nat.zero_add]
  · refine hwide 2 _ h fun hminimum hlt => ?_
    rw [h2, additional, width]
    split_ifs <;> omega
  · refine hwide 4 _ h fun hminimum hlt => ?_
    rw [h4, additional, width]
    split_ifs <;> omega
  · refine hwide 8 _ h fun hminimum hlt => ?_
    rw [h8, additional, width]
    split_ifs <;> omega

variable {nested : Reader CborValue}

theorem sound_readItems (hread : Sound nested) {length : ℕ} {s r : Bytes} {vs : List CborValue}
    (h : readItems nested length s = .ok (vs, r)) :
    ∃ items : List Item, items.length = length ∧ s = Item.encodeItems items ++ r ∧
      (∀ i ∈ items, i.Fits) ∧ valuesOf items = some vs := by
  induction length generalizing s vs with
  | zero =>
    simp only [readItems, pure_eq_ok, Prod.mk.injEq] at h
    obtain ⟨rfl, rfl⟩ := h
    exact ⟨[], rfl, rfl, by simp, rfl⟩
  | succ length ih =>
    simp only [readItems, bind_eq_ok, Prod.exists, pure_eq_ok, Prod.mk.injEq] at h
    obtain ⟨v, s', hitem, vs, r, hitems, rfl, rfl⟩ := h
    obtain ⟨i, rfl, hfit, hv⟩ := hread _ _ _ hitem
    obtain ⟨items, rfl, rfl, hfits, hvs⟩ := ih hitems
    refine ⟨i :: items, rfl, ?_, List.forall_mem_cons.2 ⟨hfit, hfits⟩, ?_⟩
    · rw [Item.encodeItems, List.append_assoc]
    · rw [valuesOf, hv, Option.bind_some, hvs, Option.map_some]

theorem sound_readEntries (hread : Sound nested) {length : ℕ} {s r : Bytes}
    {entries entries' : List (CborKey × CborValue)}
    (h : readEntries nested length entries s = .ok (entries', r))
    (hnodup : (entries.map Prod.fst).Nodup) :
    ∃ (es : List (Item × Item)) (new : List (CborKey × CborValue)), es.length = length ∧
      s = Item.encodeEntries es ++ r ∧ (∀ e ∈ es, e.1.Fits ∧ e.2.Fits) ∧ entriesOf es = some new ∧
      entries' = entries ++ new ∧ (entries'.map Prod.fst).Nodup := by
  -- The entries read so far have distinct keys, and the next key is none of theirs.
  induction length generalizing s entries with
  | zero =>
    simp only [readEntries, pure_eq_ok, Prod.mk.injEq] at h
    obtain ⟨rfl, rfl⟩ := h
    exact ⟨[], [], rfl, rfl, by simp, rfl, (List.append_nil _).symm, hnodup⟩
  | succ length ih =>
    simp only [readEntries, bind_eq_ok, Prod.exists, ofOption_eq_ok, refuse_eq_ok,
      exists_const] at h
    obtain ⟨k, s₁, hk, key, hkey, hfresh, v, s₂, hv, hrest⟩ := h
    obtain ⟨i, rfl, hfiti, hi⟩ := hread _ _ _ hk
    obtain ⟨j, rfl, hfitj, hj⟩ := hread _ _ _ hv
    have hnodup' : ((entries ++ [(key, v)]).map Prod.fst).Nodup := by
      rw [List.map_append, List.map_singleton, List.nodup_append]
      refine ⟨hnodup, List.nodup_singleton _, fun a ha b hb hab => hfresh ?_⟩
      obtain rfl := List.mem_singleton.1 hb
      exact hab ▸ ha
    obtain ⟨es, new, rfl, rfl, hfits, hnew, rfl, hdistinct⟩ := ih hrest hnodup'
    refine ⟨(i, j) :: es, (key, v) :: new, rfl, ?_, List.forall_mem_cons.2 ⟨⟨hfiti, hfitj⟩, hfits⟩,
      ?_, by rw [List.append_assoc]; rfl, hdistinct⟩
    · rw [Item.encodeEntries, List.append_assoc, List.append_assoc]
    · rw [entriesOf, hi, Option.bind_some, hkey, Option.bind_some, hj, Option.bind_some, hnew,
        Option.map_some]

theorem lt_of_safe {n : ℕ} (h : n ≤ MAX_SAFE_INTEGER) : n < 2 ^ 64 := by
  unfold MAX_SAFE_INTEGER at h
  omega

/-- The reader is sound when its calls to itself are. -/
theorem sound_readWith (hread : Sound nested) {root : Bool} {s r : Bytes} {v : CborValue}
    (h : readWith nested false root s = .ok (v, r)) :
    ∃ i : Item, s = i.encode ++ r ∧ i.Fits ∧ (valueOf i = some v ∨
      root = true ∧ ∃ j, i = .tag COSE_SIGN1_TAG j ∧ valueOf j = some v) := by
  simp only [readWith, bind_eq_ok, Prod.exists, byte_eq_ok] at h
  obtain ⟨initial, s, rfl, h⟩ := h
  by_cases hsimple : initial.toNat / 32 = MAJOR_SIMPLE
  -- A simple value has its number in the initial byte, where a short argument stands.
  · have hitem : ∀ n, n < 24 → initial.toNat % 32 = n →
        initial :: s = (Item.simple n).encode ++ s := by
      rintro n hn rfl
      have hargument : argument (initial.toNat % 32) s = .ok (initial.toNat % 32, s) := if_pos hn
      have hhead := (head_of_argument hargument).1
      rwa [hsimple] at hhead
    rw [if_pos hsimple] at h
    split_ifs at h with h20 h21 h22
    · obtain ⟨rfl, rfl⟩ := Prod.mk.inj (pure_eq_ok.1 h)
      exact ⟨_, hitem 20 (by decide) h20, .simple (by decide), .inl rfl⟩
    · obtain ⟨rfl, rfl⟩ := Prod.mk.inj (pure_eq_ok.1 h)
      exact ⟨_, hitem 21 (by decide) h21, .simple (by decide), .inl rfl⟩
    · obtain ⟨rfl, rfl⟩ := Prod.mk.inj (pure_eq_ok.1 h)
      exact ⟨_, hitem 22 (by decide) h22, .simple (by decide), .inl rfl⟩
  · rw [if_neg hsimple, if_neg (by simp)] at h
    simp only [bind_eq_ok, Prod.exists] at h
    obtain ⟨n, s', hargument, h⟩ := h
    obtain ⟨hhead, hsafe⟩ := head_of_argument hargument
    have hlt := lt_of_safe hsafe
    rw [hhead]
    -- From here on only the major type matters: one case each.
    generalize initial.toNat / 32 = major at h hhead
    split_ifs at h with h0 h1 h2 h3 h4 h5 h6
    · obtain ⟨rfl, rfl⟩ := Prod.mk.inj (pure_eq_ok.1 h)
      exact ⟨.unsigned n, by rw [h0]; rfl, .unsigned hlt, .inl (if_pos hsafe)⟩
    · obtain ⟨rfl, rfl⟩ := Prod.mk.inj (pure_eq_ok.1 h)
      exact ⟨.negative n, by rw [h1]; rfl, .negative hlt, .inl (if_pos hsafe)⟩
    · simp only [bind_eq_ok, Prod.exists, take_eq_ok, pure_eq_ok, Prod.mk.injEq] at h
      obtain ⟨b, r, ⟨rfl, rfl⟩, rfl, rfl⟩ := h
      refine ⟨.bytes b, ?_, .bytes hlt, .inl (if_pos hsafe)⟩
      rw [h2, Item.encode, List.append_assoc]
      rfl
    · simp only [bind_eq_ok, Prod.exists, take_eq_ok, ofOption_eq_ok, pure_eq_ok,
        Prod.mk.injEq] at h
      obtain ⟨b, r, ⟨rfl, rfl⟩, text, htext, rfl, rfl⟩ := h
      refine ⟨.text b, ?_, .text hlt, .inl ?_⟩
      · rw [h3, Item.encode, List.append_assoc]
        rfl
      · rw [valueOf, if_pos hsafe, htext, Option.map_some]
    · simp only [bind_eq_ok, Prod.exists, pure_eq_ok, Prod.mk.injEq] at h
      obtain ⟨vs, r, hitems, rfl, rfl⟩ := h
      obtain ⟨items, rfl, rfl, hfits, hvs⟩ := sound_readItems hread hitems
      refine ⟨.array items, ?_, .array hlt hfits, .inl ?_⟩
      · rw [h4, Item.encode, List.append_assoc]
        rfl
      · rw [valueOf, if_pos hsafe, hvs, Option.map_some]
    · simp only [bind_eq_ok, Prod.exists, pure_eq_ok, Prod.mk.injEq] at h
      obtain ⟨entries, r, hentries, rfl, rfl⟩ := h
      obtain ⟨es, new, rfl, rfl, hfits, hnew, rfl, hnodup⟩ :=
        sound_readEntries hread hentries List.nodup_nil
      refine ⟨.map es, ?_, .map hlt (fun e he => (hfits e he).1) fun e he => (hfits e he).2, .inl ?_⟩
      · rw [h5, Item.encode, List.append_assoc]
        rfl
      · rw [valueOf, if_pos hsafe, hnew, Option.bind_some]
        exact if_pos hnodup
    · simp only [bind_eq_ok, refuse_eq_ok, exists_const, not_or, not_not] at h
      -- The one tag there is may stand around the whole document only.
      obtain ⟨⟨rfl, hroot⟩, h⟩ := h
      obtain ⟨j, rfl, hfit, hj⟩ := hread _ _ _ h
      refine ⟨.tag COSE_SIGN1_TAG j, ?_, .tag hlt hfit, .inr ⟨by simpa using hroot, j, rfl, hj⟩⟩
      rw [h6, Item.encode, List.append_assoc]
      rfl

theorem sound_read (room : ℕ) : Sound (read false room false) := by
  induction room with
  | zero =>
    intro s v r h
    simp [read] at h
  | succ room ih =>
    intro s v r h
    obtain ⟨i, hs, hfit, hv⟩ := sound_readWith ih h
    exact ⟨i, hs, hfit, hv.resolve_right fun hroot => Bool.false_ne_true hroot.1⟩

/-- A document accepted is consumed to its end, as the encoding of one item. -/
theorem exists_item_of_decodeCbor {b : Bytes} {v : CborValue} (h : decodeCbor b = .ok v) :
    ∃ i : Item, b = i.encode ∧ i.Fits ∧
      (valueOf i = some v ∨ ∃ j, i = .tag COSE_SIGN1_TAG j ∧ valueOf j = some v) := by
  simp only [decodeCbor, decodeDocument, bind_eq_ok, Prod.exists, refuse_eq_ok, exists_const,
    pure_eq_ok, not_not] at h
  obtain ⟨v, s, hread, rfl, rfl⟩ := h
  obtain ⟨i, hs, hfit, hv⟩ := sound_readWith (sound_read MAX_DEPTH) hread
  rw [List.append_nil] at hs
  exact ⟨i, hs, hfit, hv.imp id fun hroot => hroot.2⟩

end Soundness

section Strict

/-- The items of the subset: no tag, no float, no simple value but `false`, `true` and `null`, and no
two keys of a map that are one. -/
inductive Strict : Item → Prop where
  | unsigned {n : ℕ} : n ≤ MAX_SAFE_INTEGER → Strict (.unsigned n)
  | negative {n : ℕ} : n ≤ MAX_SAFE_INTEGER → Strict (.negative n)
  | bytes {b : Bytes} : Strict (.bytes b)
  | text {b : Bytes} : Strict (.text b)
  | array {items : List Item} : (∀ i ∈ items, Strict i) → Strict (.array items)
  | map {entries : List (Item × Item)} :
      (entries.map fun e => (valueOf e.1).bind CborValue.asKey).Nodup →
      (∀ e ∈ entries, Strict e.1) → (∀ e ∈ entries, Strict e.2) → Strict (.map entries)
  | simple {n : ℕ} : n = 20 ∨ n = 21 ∨ n = 22 → Strict (.simple n)

theorem valueOf_of_mem {items : List Item} {vs : List CborValue} (h : valuesOf items = some vs)
    {i : Item} (hi : i ∈ items) : ∃ v, valueOf i = some v := by
  induction items generalizing vs with
  | nil => simp at hi
  | cons j items ih =>
    rw [valuesOf] at h
    obtain ⟨v, hv, h⟩ := Option.bind_eq_some_iff.1 h
    obtain ⟨vs', hvs, -⟩ := Option.map_eq_some_iff.1 h
    rcases List.mem_cons.1 hi with rfl | hi
    · exact ⟨v, hv⟩
    · exact ih hvs hi

theorem entriesOf_cons {k v : Item} {entries : List (Item × Item)}
    {es : List (CborKey × CborValue)} (h : entriesOf ((k, v) :: entries) = some es) :
    ∃ kv key value es', valueOf k = some kv ∧ kv.asKey = some key ∧ valueOf v = some value ∧
      entriesOf entries = some es' ∧ es = (key, value) :: es' := by
  rw [entriesOf] at h
  obtain ⟨key, hkey, h⟩ := Option.bind_eq_some_iff.1 h
  obtain ⟨kv, hk, hkey⟩ := Option.bind_eq_some_iff.1 hkey
  obtain ⟨value, hv, h⟩ := Option.bind_eq_some_iff.1 h
  obtain ⟨es', hes, rfl⟩ := Option.map_eq_some_iff.1 h
  exact ⟨kv, key, value, es', hk, hkey, hv, hes, rfl⟩

theorem keys_of_entriesOf {entries : List (Item × Item)} {es : List (CborKey × CborValue)}
    (h : entriesOf entries = some es) :
    (entries.map fun e => (valueOf e.1).bind CborValue.asKey) = (es.map Prod.fst).map some := by
  induction entries generalizing es with
  | nil => obtain rfl := Option.some.inj h; rfl
  | cons e entries ih =>
    obtain ⟨kv, key, value, es', hk, hkey, -, hes, rfl⟩ := entriesOf_cons h
    rw [List.map_cons, List.map_cons, List.map_cons, ih hes, hk, Option.bind_some, hkey]

theorem valueOf_of_mem_entries {entries : List (Item × Item)} {es : List (CborKey × CborValue)}
    (h : entriesOf entries = some es) {e : Item × Item} (he : e ∈ entries) :
    (∃ v, valueOf e.1 = some v) ∧ ∃ v, valueOf e.2 = some v := by
  induction entries generalizing es with
  | nil => simp at he
  | cons f entries ih =>
    obtain ⟨kv, key, value, es', hk, -, hv, hes, -⟩ := entriesOf_cons h
    rcases List.mem_cons.1 he with rfl | he
    · exact ⟨⟨kv, hk⟩, value, hv⟩
    · exact ih hes he

theorem simple_of_simpleValue {n : ℕ} {v : CborValue} (h : simpleValue n = some v) :
    n = 20 ∨ n = 21 ∨ n = 22 := by
  unfold simpleValue at h
  split_ifs at h with h20 h21 h22
  · exact .inl h20
  · exact .inr (.inl h21)
  · exact .inr (.inr h22)

theorem strict_of_valueOf {i : Item} {v : CborValue} (h : valueOf i = some v) : Strict i := by
  -- A value was read, so every argument was safe, and the keys of a map were distinct.
  induction i generalizing v with
  | unsigned n =>
    rw [valueOf] at h
    split_ifs at h with hsafe
    exact .unsigned hsafe
  | negative n =>
    rw [valueOf] at h
    split_ifs at h with hsafe
    exact .negative hsafe
  | bytes b => exact .bytes
  | text b => exact .text
  | array items ih =>
    rw [valueOf] at h
    split_ifs at h
    obtain ⟨vs, hvs, -⟩ := Option.map_eq_some_iff.1 h
    refine .array fun i hi => ?_
    obtain ⟨w, hw⟩ := valueOf_of_mem hvs hi
    exact ih i hi hw
  | map entries ih =>
    rw [valueOf] at h
    split_ifs at h
    obtain ⟨es, hes, h⟩ := Option.bind_eq_some_iff.1 h
    split_ifs at h with hnodup
    refine .map ?_ (fun e he => ?_) fun e he => ?_
    · rw [keys_of_entriesOf hes]
      exact hnodup.map (Option.some_injective _)
    · obtain ⟨w, hw⟩ := (valueOf_of_mem_entries hes he).1
      exact (ih e he).1 hw
    · obtain ⟨w, hw⟩ := (valueOf_of_mem_entries hes he).2
      exact (ih e he).2 hw
  | tag n item _ => simp [valueOf] at h
  | simple n => exact .simple (simple_of_simpleValue h)

end Strict

section Marks

mutual

/-- Which texts of an item begin with a byte order mark, in the order of the document. -/
def marks : Item → List Bool
  | .text b => [hasMark b]
  | .array items => marksItems items
  | .map entries => marksEntries entries
  | .tag _ item => marks item
  | _ => []

def marksItems : List Item → List Bool
  | [] => []
  | i :: items => marks i ++ marksItems items

def marksEntries : List (Item × Item) → List Bool
  | [] => []
  | (k, v) :: entries => marks k ++ marks v ++ marksEntries entries

end

/-- The major type that a value is written under. -/
def CborValue.major : CborValue → ℕ
  | .null => MAJOR_SIMPLE
  | .boolean _ => MAJOR_SIMPLE
  | .number (.finite x) => if x.value < 0 then MAJOR_NEGATIVE else MAJOR_UNSIGNED
  | .number (.infinite _) => MAJOR_UNSIGNED
  | .bytes _ => MAJOR_BYTES
  | .string _ => MAJOR_TEXT
  | .array _ => MAJOR_ARRAY
  | .map _ => MAJOR_MAP

theorem major_of_valueOf {i : Item} {v : CborValue} (h : valueOf i = some v) :
    i.major = v.major := by
  -- Two major types become numbers; the sign tells them apart.
  cases i with
  | unsigned n =>
    rw [valueOf] at h
    split_ifs at h with hsafe
    obtain rfl := Option.some.inj h
    rw [toNumber_eq (unsigned_bound hsafe)]
    have hvalue : ¬((n : ℤ) : ℚ) < 0 := by
      rw [Int.cast_natCast]
      exact not_lt.2 (Nat.cast_nonneg n)
    exact (if_neg hvalue).symm
  | negative n =>
    rw [valueOf] at h
    split_ifs at h with hsafe
    obtain rfl := Option.some.inj h
    rw [toNumber_eq (negative_bound hsafe)]
    have hvalue : ((-1 - n : ℤ) : ℚ) < 0 := by
      rw [Int.cast_lt_zero]
      omega
    exact (if_pos hvalue).symm
  | bytes b =>
    rw [valueOf] at h
    split_ifs at h
    obtain rfl := Option.some.inj h
    rfl
  | text b =>
    rw [valueOf] at h
    split_ifs at h
    obtain ⟨s, -, rfl⟩ := Option.map_eq_some_iff.1 h
    rfl
  | array items =>
    rw [valueOf] at h
    split_ifs at h
    obtain ⟨vs, -, rfl⟩ := Option.map_eq_some_iff.1 h
    rfl
  | map entries =>
    rw [valueOf] at h
    split_ifs at h
    obtain ⟨es, -, h⟩ := Option.bind_eq_some_iff.1 h
    split_ifs at h
    obtain rfl := Option.some.inj h
    rfl
  | tag n item => simp [valueOf] at h
  | simple n =>
    rw [valueOf, simpleValue] at h
    split_ifs at h
    all_goals
      obtain rfl := Option.some.inj h
      rfl

theorem valuesOf_inj {items items' : List Item} {vs : List CborValue} {m n : List Bool}
    (ih : ∀ i ∈ items, ∀ j v m n, valueOf i = some v → valueOf j = some v →
      marks i ++ m = marks j ++ n → i = j ∧ m = n)
    (h : valuesOf items = some vs) (h' : valuesOf items' = some vs)
    (hmarks : marksItems items ++ m = marksItems items' ++ n) : items = items' ∧ m = n := by
  induction items generalizing items' vs with
  | nil =>
    obtain rfl := Option.some.inj h
    cases items' with
    | nil => exact ⟨rfl, hmarks⟩
    | cons j items' =>
      obtain ⟨_, -, h'⟩ := Option.bind_eq_some_iff.1 h'
      obtain ⟨_, -, h'⟩ := Option.map_eq_some_iff.1 h'
      cases h'
  | cons i items ihs =>
    obtain ⟨hi, hitems⟩ := List.forall_mem_cons.1 ih
    obtain ⟨v, hv, h⟩ := Option.bind_eq_some_iff.1 h
    obtain ⟨ws, hws, rfl⟩ := Option.map_eq_some_iff.1 h
    -- Both lists have the same values, so they are of one length.
    cases items' with
    | nil => cases h'
    | cons j items' =>
      obtain ⟨v', hv', h'⟩ := Option.bind_eq_some_iff.1 h'
      obtain ⟨ws', hws', heq⟩ := Option.map_eq_some_iff.1 h'
      obtain ⟨rfl, rfl⟩ := List.cons.inj heq
      rw [marksItems, marksItems, List.append_assoc, List.append_assoc] at hmarks
      -- The marks of the first item come first, and it takes as many on both sides.
      obtain ⟨rfl, hrest⟩ := hi j v' _ _ hv hv' hmarks
      obtain ⟨rfl, hmn⟩ := ihs hitems hws hws' hrest
      exact ⟨rfl, hmn⟩

theorem asKey_inj {v w : CborValue} {key : CborKey} (hv : v.asKey = some key)
    (hw : w.asKey = some key) : v = w := by
  cases v with
  | string s =>
    obtain rfl := Option.some.inj hv
    cases w with
    | string t => rw [CborKey.string.inj (Option.some.inj hw)]
    | number y => cases Option.some.inj hw
    | _ => cases hw
  | number x =>
    obtain rfl := Option.some.inj hv
    cases w with
    | string t => cases Option.some.inj hw
    | number y => rw [CborKey.number.inj (Option.some.inj hw)]
    | _ => cases hw
  | _ => cases hv

theorem entriesOf_inj {entries entries' : List (Item × Item)} {es : List (CborKey × CborValue)}
    {m n : List Bool}
    (ih : ∀ e ∈ entries,
      (∀ j v m n, valueOf e.1 = some v → valueOf j = some v → marks e.1 ++ m = marks j ++ n →
        e.1 = j ∧ m = n) ∧
      ∀ j v m n, valueOf e.2 = some v → valueOf j = some v → marks e.2 ++ m = marks j ++ n →
        e.2 = j ∧ m = n)
    (h : entriesOf entries = some es) (h' : entriesOf entries' = some es)
    (hmarks : marksEntries entries ++ m = marksEntries entries' ++ n) :
    entries = entries' ∧ m = n := by
  induction entries generalizing entries' es with
  | nil =>
    obtain rfl := Option.some.inj h
    cases entries' with
    | nil => exact ⟨rfl, hmarks⟩
    | cons e' entries' =>
      obtain ⟨_, _, _, _, -, -, -, -, heq⟩ := entriesOf_cons h'
      cases heq
  | cons e entries ihs =>
    obtain ⟨⟨hk, hv⟩, hentries⟩ := List.forall_mem_cons.1 ih
    obtain ⟨kv, key, value, es₁, hkv, hkey, hvalue, hes, rfl⟩ := entriesOf_cons h
    cases entries' with
    | nil => cases h'
    | cons e' entries' =>
      obtain ⟨kv', key', value', es₂, hkv', hkey', hvalue', hes', heq⟩ := entriesOf_cons h'
      obtain ⟨hentry, rfl⟩ := List.cons.inj heq
      obtain ⟨rfl, rfl⟩ := Prod.mk.inj hentry
      obtain rfl := asKey_inj hkey hkey'
      obtain ⟨k, v⟩ := e
      obtain ⟨k', v'⟩ := e'
      simp only [marksEntries, List.append_assoc] at hmarks
      -- First the marks of the key, then those of the value, then those of the rest.
      obtain ⟨rfl, hvalues⟩ := hk k' kv _ _ hkv hkv' hmarks
      obtain ⟨rfl, hrest⟩ := hv v' value _ _ hvalue hvalue' hvalues
      obtain ⟨rfl, hmn⟩ := ihs hentries hes hes' hrest
      exact ⟨rfl, hmn⟩

theorem simpleValue_inj {n k : ℕ} {v : CborValue} (hn : simpleValue n = some v)
    (hk : simpleValue k = some v) : n = k := by
  unfold simpleValue at hn hk
  split_ifs at hn hk <;> first | omega | (obtain rfl := Option.some.inj hn; cases Option.some.inj hk)

/-- A value and the marks of its texts tell the item. -/
theorem valueOf_inj {i j : Item} {v : CborValue} {m n : List Bool} (hi : valueOf i = some v)
    (hj : valueOf j = some v) (hmarks : marks i ++ m = marks j ++ n) : i = j ∧ m = n := by
  -- Items of one value have one major type; only a text needs its mark, for the decoder drops one
  -- byte order mark at its start.
  induction i generalizing j v m n with
  | unsigned a =>
    have hmajor := (major_of_valueOf hi).trans (major_of_valueOf hj).symm
    cases j with
    | unsigned b =>
      rw [valueOf] at hi hj
      split_ifs at hi hj with ha hb
      obtain rfl := Option.some.inj hi
      have hnumber := toNumber_inj (unsigned_bound hb) (unsigned_bound ha)
        (CborValue.number.inj (Option.some.inj hj))
      obtain rfl : b = a := by exact_mod_cast hnumber
      exact ⟨rfl, hmarks⟩
    | _ => exact absurd hmajor (by simp [Item.major])
  | negative a =>
    have hmajor := (major_of_valueOf hi).trans (major_of_valueOf hj).symm
    cases j with
    | negative b =>
      rw [valueOf] at hi hj
      split_ifs at hi hj with ha hb
      obtain rfl := Option.some.inj hi
      have hnumber := toNumber_inj (negative_bound hb) (negative_bound ha)
        (CborValue.number.inj (Option.some.inj hj))
      obtain rfl : b = a := by omega
      exact ⟨rfl, hmarks⟩
    | _ => exact absurd hmajor (by simp [Item.major])
  | bytes b =>
    have hmajor := (major_of_valueOf hi).trans (major_of_valueOf hj).symm
    cases j with
    | bytes c =>
      rw [valueOf] at hi hj
      split_ifs at hi hj
      obtain rfl := Option.some.inj hi
      obtain rfl := CborValue.bytes.inj (Option.some.inj hj)
      exact ⟨rfl, hmarks⟩
    | _ => exact absurd hmajor (by simp [Item.major])
  | text b =>
    have hmajor := (major_of_valueOf hi).trans (major_of_valueOf hj).symm
    cases j with
    | text c =>
      rw [valueOf] at hi hj
      split_ifs at hi hj
      obtain ⟨s, hs, rfl⟩ := Option.map_eq_some_iff.1 hi
      obtain ⟨t, ht, heq⟩ := Option.map_eq_some_iff.1 hj
      obtain rfl := CborValue.string.inj heq
      obtain ⟨hmark, hmn⟩ := List.cons.inj hmarks
      -- The same text, with the same mark, comes from the same bytes.
      rw [textDecode_inj hs ht hmark]
      exact ⟨rfl, hmn⟩
    | _ => exact absurd hmajor (by simp [Item.major])
  | array items ih =>
    have hmajor := (major_of_valueOf hi).trans (major_of_valueOf hj).symm
    cases j with
    | array items' =>
      rw [valueOf] at hi hj
      split_ifs at hi hj
      obtain ⟨vs, hvs, rfl⟩ := Option.map_eq_some_iff.1 hi
      obtain ⟨ws, hws, heq⟩ := Option.map_eq_some_iff.1 hj
      obtain rfl := CborValue.array.inj heq
      obtain ⟨rfl, hmn⟩ := valuesOf_inj (fun i hi j v m n hv hw hm => ih i hi hv hw hm) hvs hws
        hmarks
      exact ⟨rfl, hmn⟩
    | _ => exact absurd hmajor (by simp [Item.major])
  | map entries ih =>
    have hmajor := (major_of_valueOf hi).trans (major_of_valueOf hj).symm
    cases j with
    | map entries' =>
      rw [valueOf] at hi hj
      split_ifs at hi hj
      obtain ⟨es, hes, hi⟩ := Option.bind_eq_some_iff.1 hi
      obtain ⟨es', hes', hj⟩ := Option.bind_eq_some_iff.1 hj
      split_ifs at hi hj
      obtain rfl := Option.some.inj hi
      obtain rfl := CborValue.map.inj (Option.some.inj hj)
      obtain ⟨rfl, hmn⟩ := entriesOf_inj
        (fun e he => ⟨fun j v m n hv hw hm => (ih e he).1 hv hw hm,
          fun j v m n hv hw hm => (ih e he).2 hv hw hm⟩) hes hes' hmarks
      exact ⟨rfl, hmn⟩
    | _ => exact absurd hmajor (by simp [Item.major])
  | tag k item _ => simp [valueOf] at hi
  | simple a =>
    have hmajor := (major_of_valueOf hi).trans (major_of_valueOf hj).symm
    cases j with
    | simple b =>
      rw [simpleValue_inj hi hj]
      exact ⟨rfl, hmarks⟩
    | _ => exact absurd hmajor (by simp [Item.major])

end Marks

section Documents

/-- The root of the document is a tag. -/
def RootTag (b : Bytes) : Prop := ∃ initial s, b = initial :: s ∧ initial.toNat / 32 = MAJOR_TAG

/-- The texts of two documents, in their order, begin alike with a byte order mark or do not. -/
def MarkedAlike (b c : Bytes) : Prop :=
  ∃ i j : Item, b = i.encode ∧ c = j.encode ∧ i.Fits ∧ j.Fits ∧ marks i = marks j

theorem rootTag_encode (n : ℕ) (i : Item) : RootTag (Item.tag n i).encode := by
  refine ⟨_, _, rfl, ?_⟩
  have hlt := additional_lt n
  rw [initial_eq (by decide)]
  show (6 * 32 + additional n) / 32 = 6
  omega

/-- Documents of one value are equal exactly when their texts begin alike with a byte order mark. -/
theorem decodeCbor_unique_iff {b c : Bytes} {v : CborValue} (hb : decodeCbor b = .ok v)
    (hc : decodeCbor c = .ok v) (hroot : ¬RootTag b) (hroot' : ¬RootTag c) :
    b = c ↔ MarkedAlike b c := by
  obtain ⟨i, rfl, hfit, hv⟩ := exists_item_of_decodeCbor hb
  obtain ⟨j, rfl, hfit', hw⟩ := exists_item_of_decodeCbor hc
  have hi : valueOf i = some v := hv.resolve_right fun ⟨k, hk, _⟩ => hroot (hk ▸ rootTag_encode _ k)
  have hj : valueOf j = some v := hw.resolve_right fun ⟨k, hk, _⟩ => hroot' (hk ▸ rootTag_encode _ k)
  constructor
  · intro heq
    exact ⟨i, i, rfl, heq.symm, hfit, hfit, rfl⟩
  · rintro ⟨i', j', hi', hj', hfiti, hfitj, hmarks⟩
    obtain rfl := Item.encode_inj hfit hfiti hi'
    obtain rfl := Item.encode_inj hfit' hfitj hj'
    obtain ⟨rfl, -⟩ := valueOf_inj hi hj (congrArg (· ++ []) hmarks)
    rfl

/-- The item without the tag of a signature around it. -/
def untagged : Item → Item
  | .tag _ item => item
  | item => item

theorem strict_untagged {i : Item} {v : CborValue} (h : valueOf i = some v ∨
    ∃ j, i = .tag COSE_SIGN1_TAG j ∧ valueOf j = some v) : Strict (untagged i) := by
  rcases h with hv | ⟨j, rfl, hv⟩
  · have hstrict := strict_of_valueOf hv
    cases i with
    | tag n item => simp [valueOf] at hv
    | _ => exact hstrict
  · exact strict_of_valueOf hv

/-- The empty text, written without and with a byte order mark. -/
theorem decodeCbor_marked : decodeCbor [0x60] = .ok (.string []) ∧
    decodeCbor [0x63, 0xef, 0xbb, 0xbf] = .ok (.string []) := by
  have hempty : textDecode [] = some [] := by decide +kernel
  have hmark : textDecode [0xef, 0xbb, 0xbf] = some [] := by decide +kernel
  constructor
  · simp [decodeCbor, decodeDocument, read, readWith, byte, argument, take, hempty]
    rfl
  · simp [decodeCbor, decodeDocument, read, readWith, byte, argument, take, hmark]
    rfl

theorem not_rootTag {initial : UInt8} {s : Bytes} (h : initial.toNat / 32 ≠ MAJOR_TAG) :
    ¬RootTag (initial :: s) := by
  rintro ⟨_, _, heq, hmajor⟩
  obtain ⟨rfl, -⟩ := List.cons.inj heq
  exact h hmajor

/-- Documents that are accepted, of one value and not tagged, are equal exactly when their texts begin
alike with a byte order mark; and every document accepted is the deterministic encoding, to its end,
of an item with no tag but one at its root, no float and no key given twice. -/
theorem cbor_encoding (b c : Bytes) (v : CborValue) :
    (decodeCbor b = .ok v → decodeCbor c = .ok v → ¬RootTag b → ¬RootTag c →
      (b = c ↔ MarkedAlike b c)) ∧
    (decodeCbor b = .ok v → ∃ i : Item, b = i.encode ∧ i.Fits ∧ Strict (untagged i)) := by
  refine ⟨decodeCbor_unique_iff, fun h => ?_⟩
  obtain ⟨i, hi, hfit, hv⟩ := exists_item_of_decodeCbor h
  exact ⟨i, hi, hfit, strict_untagged hv⟩

theorem cbor_encoding_not_unique :
    ¬∀ (b c : Bytes) (v : CborValue), decodeCbor b = .ok v → decodeCbor c = .ok v → ¬RootTag b →
      ¬RootTag c → b = c := by
  intro hclaim
  obtain ⟨hempty, hmarked⟩ := decodeCbor_marked
  have heq := hclaim _ _ _ hempty hmarked (not_rootTag (by decide)) (not_rootTag (by decide))
  exact absurd heq (by decide)

end Documents

end ZolanaTvc.Wallet.CborReader
