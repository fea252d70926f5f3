import Mathlib.Data.List.Nodup
import ZolanaTvc.Wallet.Cbor

/-!
# The bytes that a COSE signature is over

`encodeHead` writes a head with the operators of 32-bit integers, and the reader reads it with big
integers. Whatever item the encoder of the reader's subset writes, the reader reads.

## Main results

* `CborReader.read_encode`: the reader reads the encoding of every item that denotes a value.
* `Cose.encodeHead_eq`: the heads written with 32-bit integers are the deterministic ones.
* `Cose.sigStructure_roundTrip_iff`: the reader reads what is signed as its parts, if the engine has room for
  them.
-/

namespace ZolanaTvc.Wallet

namespace CborReader

open Cbor Except Protocol

section Completeness

mutual

/-- How many levels an item has below its own. -/
def depth : Item → ℕ
  | .array items => depthItems items
  | .map entries => depthEntries entries
  | .tag _ item => depth item + 1
  | _ => 0

def depthItems : List Item → ℕ
  | [] => 0
  | i :: items => max (depth i + 1) (depthItems items)

def depthEntries : List (Item × Item) → ℕ
  | [] => 0
  | (k, v) :: entries => max (max (depth k + 1) (depth v + 1)) (depthEntries entries)

end

theorem depth_of_mem {items : List Item} {i : Item} (h : i ∈ items) : depth i < depthItems items := by
  induction items with
  | nil => cases h
  | cons j items ih =>
    rw [depthItems]
    obtain rfl | h := List.mem_cons.1 h
    · omega
    · have hlt := ih h
      omega

theorem depth_of_mem_entries {entries : List (Item × Item)} {e : Item × Item} (h : e ∈ entries) :
    depth e.1 < depthEntries entries ∧ depth e.2 < depthEntries entries := by
  induction entries with
  | nil => cases h
  | cons f entries ih =>
    obtain ⟨k, v⟩ := f
    rw [depthEntries]
    obtain rfl | h := List.mem_cons.1 h
    · constructor <;> dsimp only <;> omega
    · obtain ⟨hk, hv⟩ := ih h
      omega

theorem wideArgument_bigEndian {w minimum n : ℕ} {r : Bytes} (hlt : n < 256 ^ w) (hminimum : minimum ≤ n)
    (hsafe : n ≤ MAX_SAFE_INTEGER) : wideArgument w minimum (bigEndian w n ++ r) = .ok (n, r) :=
  wideArgument_eq_ok.2 ⟨bigEndian w n, length_bigEndian w n, rfl, ofBigEndian_bigEndian hlt, hminimum, hsafe⟩

theorem head_cases (n : ℕ) : n < 24 ∧ additional n = n ∧ width n = 0 ∨
    (24 ≤ n ∧ n < 2 ^ 8) ∧ additional n = 24 ∧ width n = 1 ∨
    (2 ^ 8 ≤ n ∧ n < 2 ^ 16) ∧ additional n = 25 ∧ width n = 2 ∨
    (2 ^ 16 ≤ n ∧ n < 2 ^ 32) ∧ additional n = 26 ∧ width n = 4 ∨
    2 ^ 32 ≤ n ∧ additional n = 27 ∧ width n = 8 := by
  unfold additional width
  split_ifs <;> omega

/-- The argument of a head of the shortest form is read. -/
theorem argument_head {n : ℕ} {r : Bytes} (hsafe : n ≤ MAX_SAFE_INTEGER) :
    argument (additional n) (bigEndian (width n) n ++ r) = .ok (n, r) := by
  have hmax : n < 256 ^ 8 := lt_of_safe hsafe
  obtain ⟨h, hadditional, hwidth⟩ | ⟨⟨h, hlt⟩, hadditional, hwidth⟩ | ⟨⟨h, hlt⟩, hadditional, hwidth⟩ |
    ⟨⟨h, hlt⟩, hadditional, hwidth⟩ | ⟨h, hadditional, hwidth⟩ := head_cases n
  · rw [hadditional, hwidth, argument, if_pos h]
    rfl
  · have hbyte : (UInt8.ofNat n).toNat = n := by
      rw [UInt8.toNat_ofNat', Nat.mod_eq_of_lt hlt]
    rw [hadditional, hwidth, argument, if_neg (by decide), if_pos rfl]
    simp only [bind_eq_ok, Prod.exists, byte_eq_ok, refuse_eq_ok, exists_const, pure_eq_ok]
    refine ⟨UInt8.ofNat n, r, rfl, ?_, ?_⟩
    · rw [hbyte]
      exact Nat.not_lt_of_le h
    · rw [hbyte]
  · rw [hadditional, hwidth]
    exact wideArgument_bigEndian hlt h hsafe
  · rw [hadditional, hwidth]
    exact wideArgument_bigEndian hlt h hsafe
  · rw [hadditional, hwidth]
    exact wideArgument_bigEndian hmax h hsafe

variable {nested : Reader CborValue}

/-- The reader reads the item, whatever follows it. -/
def ReadsItem (read : Reader CborValue) (i : Item) : Prop :=
  ∀ v r, valueOf i = some v → read (i.encode ++ r) = .ok (v, r)

theorem readItems_encode {items : List Item} {vs : List CborValue} {r : Bytes}
    (h : ∀ i ∈ items, ReadsItem nested i) (hvs : valuesOf items = some vs) :
    readItems nested items.length (Item.encodeItems items ++ r) = .ok (vs, r) := by
  induction items generalizing vs with
  | nil =>
    obtain rfl := Option.some.inj hvs
    rfl
  | cons i items ih =>
    obtain ⟨hi, hitems⟩ := List.forall_mem_cons.1 h
    obtain ⟨v, hv, hvs⟩ := Option.bind_eq_some_iff.1 hvs
    obtain ⟨ws, hws, rfl⟩ := Option.map_eq_some_iff.1 hvs
    simp only [readItems, Item.encodeItems, List.append_assoc, List.length_cons, bind_eq_ok, Prod.exists,
      pure_eq_ok]
    exact ⟨v, _, hi v _ hv, ws, r, ih hitems hws, rfl⟩

theorem readEntries_encode {entries : List (Item × Item)} {es done : List (CborKey × CborValue)} {r : Bytes}
    (h : ∀ e ∈ entries, ReadsItem nested e.1 ∧ ReadsItem nested e.2) (hes : entriesOf entries = some es)
    (hnodup : ((done ++ es).map Prod.fst).Nodup) :
    readEntries nested entries.length done (Item.encodeEntries entries ++ r) = .ok (done ++ es, r) := by
  induction entries generalizing es done with
  | nil =>
    obtain rfl := Option.some.inj hes
    rw [List.append_nil]
    rfl
  | cons e entries ih =>
    obtain ⟨k, v⟩ := e
    obtain ⟨⟨hk, hv⟩, hentries⟩ := List.forall_mem_cons.1 h
    obtain ⟨kv, key, value, es', hkv, hkey, hvalue, hes', rfl⟩ := entriesOf_cons hes
    have hfresh : key ∉ done.map Prod.fst := by
      rw [List.map_append, List.map_cons] at hnodup
      exact fun hmem => (List.nodup_append.1 hnodup).2.2 key hmem key List.mem_cons_self rfl
    have hnodup' : (((done ++ [(key, value)]) ++ es').map Prod.fst).Nodup := by
      rwa [List.append_assoc, List.singleton_append]
    have hrest : readEntries nested entries.length (done ++ [(key, value)])
        (Item.encodeEntries entries ++ r) = .ok ((done ++ [(key, value)]) ++ es', r) :=
      ih hentries hes' hnodup'
    rw [List.append_assoc done, List.singleton_append] at hrest
    simp only [readEntries, Item.encodeEntries, List.append_assoc, List.length_cons, bind_eq_ok, Prod.exists,
      ofOption_eq_ok, refuse_eq_ok, exists_const]
    exact ⟨kv, _, hk kv _ hkv, key, hkey, hfresh, value, _, hv value _ hvalue, hrest⟩

/-- The reader reads a head whose argument is safe. -/
theorem readWith_head {major n : ℕ} {root : Bool} {s r : Bytes} {v : CborValue} (hmajor : major < 7)
    (hsafe : n ≤ MAX_SAFE_INTEGER)
    (h : (if major = MAJOR_UNSIGNED then Except.ok (.number (toNumber n), s)
      else if major = MAJOR_NEGATIVE then .ok (.number (toNumber (-1 - n)), s)
      else if major = MAJOR_BYTES then do
        let (bytes, s) ← take n s
        return (.bytes bytes, s)
      else if major = MAJOR_TEXT then do
        let (bytes, s) ← take n s
        let text ← ofOption (textDecode bytes) .platform
        return (.string text, s)
      else if major = MAJOR_ARRAY then do
        let (items, s) ← readItems nested n s
        return (.array items, s)
      else if major = MAJOR_MAP then do
        let (entries, s) ← readEntries nested n [] s
        return (.map entries, s)
      else if major = MAJOR_TAG then do
        refuse (n ≠ COSE_SIGN1_TAG ∨ root = false) (.cborError "unsupported CBOR tag")
        nested s
      else throw (.cborError "unsupported CBOR major type")) = .ok (v, r)) :
    readWith nested false root (head major n ++ s) = .ok (v, r) := by
  -- The initial byte gives back the major type and the additional information.
  have hinitial := @initial_eq major n (by omega)
  have hlt := additional_lt n
  have hdiv : (UInt8.ofNat (major * 32 + additional n)).toNat / 32 = major := by omega
  have hmod : (UInt8.ofNat (major * 32 + additional n)).toNat % 32 = additional n := by omega
  have hsimple : ¬major = MAJOR_SIMPLE := by
    unfold MAJOR_SIMPLE
    omega
  rw [head, List.cons_append]
  simp only [readWith, bind_eq_ok, Prod.exists, byte_eq_ok]
  refine ⟨_, _, rfl, ?_⟩
  rw [hdiv, hmod, if_neg hsimple, if_neg (by simp)]
  exact bind_eq_ok.2 ⟨(n, s), argument_head hsafe, h⟩

/-- The reader reads an item when its calls to itself read those inside. -/
theorem readWith_encode {i : Item} {root : Bool}
    (hitems : ∀ items, i = .array items → ∀ j ∈ items, ReadsItem nested j)
    (hentries : ∀ entries, i = .map entries → ∀ e ∈ entries, ReadsItem nested e.1 ∧ ReadsItem nested e.2) :
    ReadsItem (readWith nested false root) i := by
  intro v r hv
  -- One case for each kind of item: head first, then what the head announces.
  cases i with
  | unsigned n =>
    rw [valueOf] at hv
    split_ifs at hv with hsafe
    obtain rfl := Option.some.inj hv
    exact readWith_head (by decide) hsafe rfl
  | negative n =>
    rw [valueOf] at hv
    split_ifs at hv with hsafe
    obtain rfl := Option.some.inj hv
    exact readWith_head (by decide) hsafe rfl
  | bytes b =>
    rw [valueOf] at hv
    split_ifs at hv with hsafe
    obtain rfl := Option.some.inj hv
    rw [Item.encode, List.append_assoc]
    refine readWith_head (by decide) hsafe ?_
    exact bind_eq_ok.2 ⟨(b, r), take_eq_ok.2 ⟨rfl, rfl⟩, rfl⟩
  | text b =>
    rw [valueOf] at hv
    split_ifs at hv with hsafe
    obtain ⟨text, htext, rfl⟩ := Option.map_eq_some_iff.1 hv
    rw [Item.encode, List.append_assoc]
    refine readWith_head (by decide) hsafe ?_
    refine bind_eq_ok.2 ⟨(b, r), take_eq_ok.2 ⟨rfl, rfl⟩, ?_⟩
    exact bind_eq_ok.2 ⟨text, ofOption_eq_ok.2 htext, rfl⟩
  | array items =>
    rw [valueOf] at hv
    split_ifs at hv with hsafe
    obtain ⟨vs, hvs, rfl⟩ := Option.map_eq_some_iff.1 hv
    rw [Item.encode, List.append_assoc]
    refine readWith_head (by decide) hsafe ?_
    exact bind_eq_ok.2 ⟨(vs, r), readItems_encode (hitems items rfl) hvs, rfl⟩
  | map entries =>
    rw [valueOf] at hv
    split_ifs at hv with hsafe
    obtain ⟨es, hes, hv⟩ := Option.bind_eq_some_iff.1 hv
    split_ifs at hv with hnodup
    obtain rfl := Option.some.inj hv
    rw [Item.encode, List.append_assoc]
    refine readWith_head (by decide) hsafe ?_
    have hread : readEntries nested entries.length [] (Item.encodeEntries entries ++ r) = .ok (es, r) :=
      readEntries_encode (hentries entries rfl) hes hnodup
    exact bind_eq_ok.2 ⟨(es, r), hread, rfl⟩
  | tag n item => simp [valueOf] at hv
  | simple n =>
    obtain hn | hn | hn := simple_of_simpleValue hv <;> subst hn <;> cases hv <;> rfl

/-- The reader reads the encoding of an item that is no deeper than it has room for. -/
theorem read_encode {i : Item} {room : ℕ} {root : Bool} (h : depth i < room) :
    ReadsItem (read false room root) i := by
  induction room generalizing i root with
  | zero => omega
  | succ room ih =>
    refine readWith_encode (fun items hi j hj => ih ?_) fun entries hi e he => ⟨ih ?_, ih ?_⟩
    · subst hi
      rw [depth] at h
      have hlt := depth_of_mem hj
      omega
    · subst hi
      rw [depth] at h
      have hlt := (depth_of_mem_entries he).1
      omega
    · subst hi
      rw [depth] at h
      have hlt := (depth_of_mem_entries he).2
      omega

theorem decodeCbor_encode {i : Item} {v : CborValue} (h : valueOf i = some v) (hdepth : depth i ≤ MAX_DEPTH) :
    decodeCbor i.encode = .ok v := by
  have hread : read false (MAX_DEPTH + 1) true (i.encode ++ []) = .ok (v, []) :=
    read_encode (Nat.lt_succ_of_le hdepth) v [] h
  rw [List.append_nil] at hread
  rw [decodeCbor, decodeDocument, hread]
  rfl

end Completeness

end CborReader

namespace Cose

open Cbor CborReader Except Protocol

section Operators

/-- The operand of an operator of 32-bit integers. -/
def operand (x : ℤ) : BitVec 32 := BitVec.ofInt 32 x

/-- `x << k` -/
def shiftLeft (x : ℤ) (k : ℕ) : ℤ := (operand x <<< k).toInt

/-- `x >> k` -/
def shiftRight (x : ℤ) (k : ℕ) : ℤ := ((operand x).sshiftRight k).toInt

/-- `x >>> k` -/
def shiftRightZero (x : ℤ) (k : ℕ) : ℤ := (operand x >>> k).toNat

/-- `x & y` -/
def bitAnd (x y : ℤ) : ℤ := (operand x &&& operand y).toInt

/-- `x | y` -/
def bitOr (x y : ℤ) : ℤ := (operand x ||| operand y).toInt

/-- An element of a `Uint8Array` of numbers. -/
def toUint8 (x : ℤ) : UInt8 := UInt8.ofNat (x % 256).toNat

end Operators

/-- `Number.isSafeInteger` of an integer -/
def isSafeInteger (x : ℤ) : Bool := decide (|x| ≤ MAX_SAFE_INTEGER)

/-- `high` is exact, as it divides an integer by a power of two. -/
def encodeHead (major : ℕ) (argument : ℤ) : Except CborThrown (List ℤ) := do
  refuse (isSafeInteger argument = false ∨ argument < 0) (.cborError "unencodable CBOR argument")
  let lead := shiftLeft major 5
  if argument < 24 then return [bitOr lead argument]
  else if argument < 0x100 then return [bitOr lead 24, argument]
  else if argument < 0x10000 then
    return [bitOr lead 25, shiftRight argument 8, bitAnd argument 0xff]
  else if argument < 0x100000000 then
    return [bitOr lead 26, bitAnd (shiftRightZero argument 24) 0xff,
      bitAnd (shiftRightZero argument 16) 0xff, bitAnd (shiftRightZero argument 8) 0xff,
      bitAnd argument 0xff]
  else
    -- Bit operators see 32 bits, so the high half is divided off.
    let high := argument / 0x100000000
    let low := shiftRightZero argument 0
    return [bitOr lead 27,
      bitAnd (shiftRightZero high 24) 0xff, bitAnd (shiftRightZero high 16) 0xff,
      bitAnd (shiftRightZero high 8) 0xff, bitAnd high 0xff,
      bitAnd (shiftRightZero low 24) 0xff, bitAnd (shiftRightZero low 16) 0xff,
      bitAnd (shiftRightZero low 8) 0xff, bitAnd low 0xff]

def numbers (bytes : Bytes) : List ℤ := bytes.map fun byte => byte.toNat

/-- The most elements that an array has. -/
def MAX_ARRAY_LENGTH : ℕ := 2 ^ 32 - 1

/-- `parts.push(...items)`. Each item is an argument of the call, and an engine takes only so many. -/
def push (maxArguments : ℕ) (parts items : List ℤ) : Except CborThrown (List ℤ) := do
  refuse (maxArguments < items.length) .platform
  refuse (MAX_ARRAY_LENGTH < parts.length + items.length) .platform
  return parts ++ items

/-- Pushes the byte strings, each after its head. -/
def pushItems (maxArguments : ℕ) (parts : List ℤ) : List Bytes → Except CborThrown (List ℤ)
  | [] => return parts
  | item :: items => do
    let head ← encodeHead MAJOR_BYTES item.length
    let parts ← push maxArguments parts (head ++ numbers item)
    pushItems maxArguments parts items

/-- Encodes the COSE `Sig_structure` that ES384 signs. -/
def encodeCoseSigStructure (maxArguments : ℕ) (protectedHeaders externalAad payload : Bytes) :
    Except CborThrown Bytes := do
  let context := utf8 "Signature1"
  let parts := (← encodeHead MAJOR_ARRAY 4) ++ (← encodeHead MAJOR_TEXT context.length) ++ numbers context
  let parts ← pushItems maxArguments parts [protectedHeaders, externalAad, payload]
  return parts.map toUint8

section Heads

variable {n k : ℕ}

theorem toNat_operand (n : ℕ) : (operand n).toNat = n % 2 ^ 32 := by
  rw [operand, BitVec.ofInt_natCast, BitVec.toNat_ofNat]

theorem shiftRightZero_natCast (n k : ℕ) : shiftRightZero n k = ((n % 2 ^ 32 / 2 ^ k : ℕ) : ℤ) := by
  rw [shiftRightZero, BitVec.toNat_ushiftRight, toNat_operand, Nat.shiftRight_eq_div_pow]

theorem shiftRight_natCast (h : n < 2 ^ 31) : shiftRight n k = ((n / 2 ^ k : ℕ) : ℤ) := by
  have hoperand : (operand n).toInt = n := by
    rw [BitVec.toInt_eq_toNat_of_lt (by rw [toNat_operand]; omega), toNat_operand]
    omega
  rw [shiftRight, BitVec.toInt_sshiftRight, hoperand, Int.shiftRight_eq_div_pow]
  norm_cast

/-- The low byte of a number. -/
theorem bitAnd_byte (n : ℕ) : bitAnd n 0xff = ((n % 256 : ℕ) : ℤ) := by
  have hmask : (operand 0xff).toNat = 2 ^ 8 - 1 := by decide
  have hnat : (operand n &&& operand 0xff).toNat = n % 256 := by
    rw [BitVec.toNat_and, toNat_operand, hmask, Nat.and_two_pow_sub_one_eq_mod]
    omega
  have hlt := Nat.mod_lt n (show 0 < 256 by decide)
  rw [bitAnd, BitVec.toInt_eq_toNat_of_lt (by omega), hnat]

theorem toUint8_natCast (n : ℕ) : toUint8 n = UInt8.ofNat n := by
  have hmod : ((n : ℤ) % 256).toNat = n % 256 := by omega
  rw [toUint8, hmod, UInt8.ofNat_mod_size]

theorem map_toUint8_numbers (bytes : Bytes) : (numbers bytes).map toUint8 = bytes := by
  rw [numbers, List.map_map]
  have hbyte : (toUint8 ∘ fun byte : UInt8 => (byte.toNat : ℤ)) = id := by
    funext byte
    show toUint8 byte.toNat = byte
    rw [toUint8_natCast, UInt8.ofNat_toNat]
  rw [hbyte, List.map_id]

/-- The first byte of a head. -/
theorem bitOr_lead {major a : ℕ} (hmajor : major < 8) (ha : a < 32) :
    bitOr (shiftLeft major 5) a = ((major * 32 + a : ℕ) : ℤ) := by
  have hall : ∀ m : Fin 8, ∀ b : Fin 32,
      bitOr (shiftLeft (m.val : ℤ) 5) (b.val : ℤ) = ((m.val * 32 + b.val : ℕ) : ℤ) := by decide +kernel
  exact hall ⟨major, hmajor⟩ ⟨a, ha⟩

theorem ofNat_eq_of_mod {m n : ℕ} (h : m % 256 = n % 256) : UInt8.ofNat m = UInt8.ofNat n := by
  apply UInt8.toNat_inj.1
  rw [UInt8.toNat_ofNat', UInt8.toNat_ofNat']
  exact h

/-- A byte taken out of a number of 32 bits. -/
theorem toUint8_shifted {m : ℕ} (h : n % 2 ^ 32 / 2 ^ k % 256 = m % 256) :
    toUint8 (bitAnd (shiftRightZero n k) 0xff) = UInt8.ofNat m := by
  rw [shiftRightZero_natCast, bitAnd_byte, toUint8_natCast]
  apply ofNat_eq_of_mod
  rw [Nat.mod_mod, h]

theorem toUint8_low {m : ℕ} (h : n % 256 = m % 256) : toUint8 (bitAnd n 0xff) = UInt8.ofNat m := by
  rw [bitAnd_byte, toUint8_natCast]
  apply ofNat_eq_of_mod
  rw [Nat.mod_mod, h]

theorem toUint8_lead {major a : ℕ} (hmajor : major < 8) (ha : a < 32) :
    toUint8 (bitOr (shiftLeft major 5) a) = UInt8.ofNat (major * 32 + a) := by
  rw [bitOr_lead hmajor ha, toUint8_natCast]

theorem encodeHead_refused {major : ℕ} {argument : ℤ} (h : ¬(0 ≤ argument ∧ argument ≤ MAX_SAFE_INTEGER)) :
    encodeHead major argument = .error (.cborError "unencodable CBOR argument") := by
  have hrefused : isSafeInteger argument = false ∨ argument < 0 := by
    rw [isSafeInteger, decide_eq_false_iff_not, abs_le]
    omega
  rw [encodeHead, refuse, if_pos hrefused]
  rfl

/-- The head of a safe integer is the deterministic one. -/
theorem encodeHead_eq {major : ℕ} (hmajor : major < 8) (hsafe : n ≤ MAX_SAFE_INTEGER) :
    ∃ xs, encodeHead major n = .ok xs ∧ xs.map toUint8 = head major n := by
  have hmax : n < 2 ^ 53 := by
    unfold MAX_SAFE_INTEGER at hsafe
    omega
  have hpasses : ¬(isSafeInteger n = false ∨ (n : ℤ) < 0) := by
    rw [isSafeInteger, decide_eq_false_iff_not, Nat.abs_cast]
    omega
  have hhigh : (n : ℤ) / 0x100000000 = ((n / 2 ^ 32 : ℕ) : ℤ) := by omega
  -- A shift takes the low 32 bits of its operand, so the high half is divided off first.
  have hlow : shiftRightZero n 0 = ((n % 2 ^ 32 : ℕ) : ℤ) := by
    rw [shiftRightZero_natCast]
    norm_num
  simp only [encodeHead, refuse, if_neg hpasses, ok_bind, hhigh, hlow]
  rw [head]
  -- Five forms, by the size of the argument; the bytes of each are compared one by one.
  obtain ⟨h, hadditional, hwidth⟩ | ⟨⟨h, hlt⟩, hadditional, hwidth⟩ | ⟨⟨h, hlt⟩, hadditional, hwidth⟩ |
    ⟨⟨h, hlt⟩, hadditional, hwidth⟩ | ⟨h, hadditional, hwidth⟩ := head_cases n
  · rw [if_pos (by omega), hadditional, hwidth]
    exact ⟨_, rfl, List.cons_eq_cons.2 ⟨toUint8_lead hmajor (by omega), rfl⟩⟩
  · rw [if_neg (by omega), if_pos (by omega), hadditional, hwidth]
    refine ⟨_, rfl, List.cons_eq_cons.2 ⟨toUint8_lead hmajor (by decide), ?_⟩⟩
    exact List.cons_eq_cons.2 ⟨toUint8_natCast n, rfl⟩
  · rw [if_neg (by omega), if_neg (by omega), if_pos (by omega), hadditional, hwidth]
    refine ⟨_, rfl, List.cons_eq_cons.2 ⟨toUint8_lead hmajor (by decide), ?_⟩⟩
    show [toUint8 _, toUint8 _] = [UInt8.ofNat (n / 256), UInt8.ofNat n]
    rw [shiftRight_natCast (by omega), toUint8_natCast, toUint8_low (m := n) rfl]
    rfl
  · rw [if_neg (by omega), if_neg (by omega), if_neg (by omega), if_pos (by omega), hadditional, hwidth]
    refine ⟨_, rfl, List.cons_eq_cons.2 ⟨toUint8_lead hmajor (by decide), ?_⟩⟩
    show [toUint8 _, toUint8 _, toUint8 _, toUint8 _] =
      [UInt8.ofNat (n / 256 / 256 / 256), UInt8.ofNat (n / 256 / 256), UInt8.ofNat (n / 256), UInt8.ofNat n]
    rw [toUint8_shifted (m := n / 256 / 256 / 256) (by omega), toUint8_shifted (m := n / 256 / 256) (by omega),
      toUint8_shifted (m := n / 256) (by omega), toUint8_low (m := n) rfl]
  · rw [if_neg (by omega), if_neg (by omega), if_neg (by omega), if_neg (by omega), hadditional, hwidth]
    refine ⟨_, rfl, List.cons_eq_cons.2 ⟨toUint8_lead hmajor (by decide), ?_⟩⟩
    show [toUint8 _, toUint8 _, toUint8 _, toUint8 _, toUint8 _, toUint8 _, toUint8 _, toUint8 _] =
      [UInt8.ofNat (n / 256 / 256 / 256 / 256 / 256 / 256 / 256),
        UInt8.ofNat (n / 256 / 256 / 256 / 256 / 256 / 256), UInt8.ofNat (n / 256 / 256 / 256 / 256 / 256),
        UInt8.ofNat (n / 256 / 256 / 256 / 256), UInt8.ofNat (n / 256 / 256 / 256),
        UInt8.ofNat (n / 256 / 256), UInt8.ofNat (n / 256), UInt8.ofNat n]
    rw [toUint8_shifted (m := n / 256 / 256 / 256 / 256 / 256 / 256 / 256) (by omega),
      toUint8_shifted (m := n / 256 / 256 / 256 / 256 / 256 / 256) (by omega),
      toUint8_shifted (m := n / 256 / 256 / 256 / 256 / 256) (by omega),
      toUint8_low (m := n / 256 / 256 / 256 / 256) (by omega),
      toUint8_shifted (m := n / 256 / 256 / 256) (by omega), toUint8_shifted (m := n / 256 / 256) (by omega),
      toUint8_shifted (m := n / 256) (by omega), toUint8_low (m := n) (by omega)]

end Heads

section Structures

variable {maxArguments : ℕ} {protectedHeaders externalAad payload : Bytes}

/-- What the structure is in CBOR. -/
def sigStructure (protectedHeaders externalAad payload : Bytes) : Item :=
  .array [.text (utf8 "Signature1"), .bytes protectedHeaders, .bytes externalAad, .bytes payload]

/-- How many numbers a byte string is pushed as. -/
def pushed (item : Bytes) : ℕ := 1 + width item.length + item.length

/-- Every byte string is few enough arguments for a call, and all are few enough elements for an array that
begins with so many. -/
def Room (maxArguments first : ℕ) (items : List Bytes) : Prop :=
  (∀ item ∈ items, pushed item ≤ maxArguments) ∧ first + (items.map pushed).sum ≤ MAX_ARRAY_LENGTH

theorem push_eq_ok {parts items xs : List ℤ} : push maxArguments parts items = .ok xs ↔
    items.length ≤ maxArguments ∧ parts.length + items.length ≤ MAX_ARRAY_LENGTH ∧ parts ++ items = xs := by
  simp only [push, bind_eq_ok, refuse_eq_ok, exists_const, not_lt, pure_eq_ok]

theorem length_head (major n : ℕ) : (head major n).length = 1 + width n := by
  rw [head, List.length_cons, length_bigEndian, Nat.add_comm]

theorem room_nil {first : ℕ} : Room maxArguments first [] ↔ first ≤ MAX_ARRAY_LENGTH := by
  simp [Room]

theorem room_cons {first : ℕ} {item : Bytes} {items : List Bytes} :
    Room maxArguments first (item :: items) ↔
      pushed item ≤ maxArguments ∧ Room maxArguments (first + pushed item) items := by
  simp only [Room, List.forall_mem_cons, List.map_cons, List.sum_cons, and_assoc, Nat.add_assoc]

theorem encodeHead_length {item : Bytes} {lead : List ℤ} (h : encodeHead MAJOR_BYTES item.length = .ok lead) :
    lead.map toUint8 = head MAJOR_BYTES item.length ∧ (lead ++ numbers item).length = pushed item := by
  have hsafe : item.length ≤ MAX_SAFE_INTEGER := by
    by_contra hunsafe
    rw [encodeHead_refused fun hle => hunsafe (by omega)] at h
    cases h
  obtain ⟨xs, hxs, hbytes⟩ := @encodeHead_eq _ MAJOR_BYTES (by decide) hsafe
  obtain rfl := Except.ok.inj (hxs.symm.trans h)
  refine ⟨hbytes, ?_⟩
  have hlength := congrArg List.length hbytes
  rw [List.length_map, length_head] at hlength
  rw [List.length_append, hlength, numbers, List.length_map]
  rfl

/-- The byte strings are pushed exactly if there is room for all of them. -/
theorem exists_pushItems {items : List Bytes} {parts : List ℤ} (hparts : parts.length ≤ MAX_ARRAY_LENGTH) :
    (∃ xs, pushItems maxArguments parts items = .ok xs) ↔ Room maxArguments parts.length items := by
  induction items generalizing parts with
  | nil => exact iff_of_true ⟨parts, rfl⟩ (room_nil.2 hparts)
  | cons item items ih =>
    simp only [room_cons, pushItems, bind_eq_ok, push_eq_ok]
    constructor
    · rintro ⟨xs, lead, hlead, ys, ⟨harguments, helements, rfl⟩, hxs⟩
      obtain ⟨-, hlength⟩ := encodeHead_length hlead
      rw [hlength] at harguments helements
      have hroom := (ih (by rwa [List.length_append, hlength])).1 ⟨xs, hxs⟩
      rw [List.length_append, hlength] at hroom
      exact ⟨harguments, hroom⟩
    · rintro ⟨harguments, hroom⟩
      have helements : parts.length + pushed item ≤ MAX_ARRAY_LENGTH := (Nat.le_add_right _ _).trans hroom.2
      -- What fits in an array has a safe length, so its head is encoded.
      have hsafe : item.length ≤ MAX_SAFE_INTEGER := by
        unfold pushed MAX_ARRAY_LENGTH at helements
        unfold MAX_SAFE_INTEGER
        omega
      obtain ⟨lead, hlead, -⟩ := @encodeHead_eq _ MAJOR_BYTES (by decide) hsafe
      obtain ⟨-, hlength⟩ := encodeHead_length hlead
      have hpushed : (parts ++ (lead ++ numbers item)).length = parts.length + pushed item := by
        rw [List.length_append, hlength]
      obtain ⟨xs, hxs⟩ := (ih (hpushed ▸ helements)).2 (hpushed ▸ hroom)
      exact ⟨xs, lead, hlead, _, ⟨hlength ▸ harguments, hlength ▸ helements, rfl⟩, hxs⟩

/-- What is pushed is the encoding of the byte strings. -/
theorem map_pushItems {items : List Bytes} {parts xs : List ℤ}
    (h : pushItems maxArguments parts items = .ok xs) : xs.map toUint8 = parts.map toUint8 ++ Item.encodeItems (items.map .bytes) := by
  induction items generalizing parts with
  | nil =>
    obtain rfl := Except.ok.inj h
    exact (List.append_nil _).symm
  | cons item items ih =>
    simp only [pushItems, bind_eq_ok, push_eq_ok] at h
    obtain ⟨lead, hlead, _, ⟨-, -, rfl⟩, hxs⟩ := h
    rw [ih hxs, List.map_append, List.map_append, (encodeHead_length hlead).1, map_toUint8_numbers,
      List.append_assoc]
    rfl

theorem length_context : (utf8 "Signature1").length = 10 := by rfl

/-- The array holds the head of the structure and its context, 12 numbers, before the byte strings. -/
theorem encodeCoseSigStructure_eq_ok {b : Bytes} :
    encodeCoseSigStructure maxArguments protectedHeaders externalAad payload = .ok b ↔
      Room maxArguments 12 [protectedHeaders, externalAad, payload] ∧
        (sigStructure protectedHeaders externalAad payload).encode = b := by
  obtain ⟨lead, hlead, hleadBytes⟩ := @encodeHead_eq 4 MAJOR_ARRAY (by decide) (by decide)
  obtain ⟨text, htext, htextBytes⟩ :=
    @encodeHead_eq (utf8 "Signature1").length MAJOR_TEXT (by decide) (by rw [length_context]; decide)
  have hlead' : encodeHead MAJOR_ARRAY 4 = .ok lead := hlead
  -- One number for the array, one for the head of the context, ten for its letters.
  have hfirst : (lead ++ text ++ numbers (utf8 "Signature1")).length = 12 := by
    have hleadLength := congrArg List.length hleadBytes
    have htextLength := congrArg List.length htextBytes
    rw [List.length_map] at hleadLength htextLength
    rw [List.length_append, List.length_append, hleadLength, htextLength, numbers, List.length_map]
    rfl
  have hroom := @exists_pushItems maxArguments [protectedHeaders, externalAad, payload]
    (lead ++ text ++ numbers (utf8 "Signature1")) (by rw [hfirst]; decide)
  rw [hfirst] at hroom
  have hbytes : ∀ xs, pushItems maxArguments (lead ++ text ++ numbers (utf8 "Signature1"))
      [protectedHeaders, externalAad, payload] = .ok xs →
        xs.map toUint8 = (sigStructure protectedHeaders externalAad payload).encode := by
    intro xs hxs
    rw [map_pushItems hxs, List.map_append, List.map_append, map_toUint8_numbers, hleadBytes, htextBytes]
    simp [sigStructure, Item.encode, Item.encodeItems, MAJOR_ARRAY, MAJOR_TEXT]
  simp only [encodeCoseSigStructure, hlead', htext, ok_bind, bind_eq_ok, pure_eq_ok]
  rw [← hroom]
  constructor
  · rintro ⟨xs, hxs, rfl⟩
    exact ⟨⟨xs, hxs⟩, (hbytes xs hxs).symm⟩
  · rintro ⟨⟨xs, hxs⟩, rfl⟩
    exact ⟨xs, hxs, hbytes xs hxs⟩

theorem Room.safe {first : ℕ} {items : List Bytes} (h : Room maxArguments first items) :
    ∀ item ∈ items, item.length ≤ MAX_SAFE_INTEGER := by
  intro item hitem
  have hle := List.single_le_sum (fun _ _ => Nat.zero_le _) _ (List.mem_map_of_mem (f := pushed) hitem)
  have helements := h.2
  unfold pushed MAX_ARRAY_LENGTH at *
  unfold MAX_SAFE_INTEGER
  omega

theorem valueOf_sigStructure
    (h : ∀ item ∈ [protectedHeaders, externalAad, payload], item.length ≤ MAX_SAFE_INTEGER) :
    valueOf (sigStructure protectedHeaders externalAad payload) =
      some (.array [.string (utf16Units "Signature1"), .bytes protectedHeaders, .bytes externalAad,
        .bytes payload]) := by
  have hcontext : textDecode (utf8 "Signature1") = some (utf16Units "Signature1") := by decide +kernel
  have hlength : (utf8 "Signature1").length ≤ MAX_SAFE_INTEGER := by rw [length_context]; decide
  have hfour : 4 ≤ MAX_SAFE_INTEGER := by decide
  simp only [List.forall_mem_cons, List.not_mem_nil, false_implies, implies_true, and_true] at h
  simp [sigStructure, valueOf, valuesOf, hcontext, hlength, hfour, h.1, h.2.1, h.2.2]

theorem fits_sigStructure
    (h : ∀ item ∈ [protectedHeaders, externalAad, payload], item.length ≤ MAX_SAFE_INTEGER) :
    (sigStructure protectedHeaders externalAad payload).Fits := by
  refine .array (by simp) ?_
  simp only [List.forall_mem_cons, List.not_mem_nil, false_implies, implies_true, and_true] at h ⊢
  exact ⟨.text (by rw [length_context]; decide), .bytes (lt_of_safe h.1), .bytes (lt_of_safe h.2.1),
    .bytes (lt_of_safe h.2.2)⟩

/-- What is signed tells its parts. -/
theorem encodeCoseSigStructure_inj {protectedHeaders' externalAad' payload' b : Bytes}
    (h : encodeCoseSigStructure maxArguments protectedHeaders externalAad payload = .ok b)
    (h' : encodeCoseSigStructure maxArguments protectedHeaders' externalAad' payload' = .ok b) :
    protectedHeaders = protectedHeaders' ∧ externalAad = externalAad' ∧ payload = payload' := by
  obtain ⟨hroom, hencode⟩ := encodeCoseSigStructure_eq_ok.1 h
  obtain ⟨hroom', hencode'⟩ := encodeCoseSigStructure_eq_ok.1 h'
  have heq := Item.encode_inj (fits_sigStructure hroom.safe) (fits_sigStructure hroom'.safe)
    (hencode.trans hencode'.symm)
  simp only [sigStructure, Item.array.injEq, List.cons.injEq, Item.bytes.injEq, true_and, and_true] at heq
  exact heq

/-- What is signed is read back as its parts. -/
def RoundTrips (maxArguments : ℕ) (p a d : Bytes) : Prop :=
  ∃ b, encodeCoseSigStructure maxArguments p a d = .ok b ∧ decodeCbor b =
    .ok (.array [.string (utf16Units "Signature1"), .bytes p, .bytes a, .bytes d])

theorem roundTrips_iff {p a d : Bytes} : RoundTrips maxArguments p a d ↔ Room maxArguments 12 [p, a, d] := by
  constructor
  · rintro ⟨b, hb, -⟩
    exact (encodeCoseSigStructure_eq_ok.1 hb).1
  · intro hroom
    refine ⟨_, encodeCoseSigStructure_eq_ok.2 ⟨hroom, rfl⟩,
      decodeCbor_encode (valueOf_sigStructure hroom.safe) ?_⟩
    simp [sigStructure, depth, depthItems, MAX_DEPTH]

/-- The reader reads a safe integer back from its head, which is the only one it reads it from; and what is
signed is read back as its parts exactly if the engine has room for them, and always tells them. -/
theorem sigStructure_roundTrip_iff (maxArguments : ℕ) :
    (∀ major < 8, ∀ n : ℕ, n ≤ MAX_SAFE_INTEGER → ∃ xs initial tail, encodeHead major n = .ok xs ∧
      xs.map toUint8 = initial :: tail ∧ initial.toNat / 32 = major ∧
      (∀ s, argument (initial.toNat % 32) (tail ++ s) = .ok (n, s)) ∧
      ∀ initial' s r, initial'.toNat / 32 = major → argument (initial'.toNat % 32) s = .ok (n, r) →
        initial' :: s = initial :: tail ++ r) ∧
    (∀ major, ∀ n : ℤ, ¬(0 ≤ n ∧ n ≤ MAX_SAFE_INTEGER) →
      encodeHead major n = .error (.cborError "unencodable CBOR argument")) ∧
    (∀ p a d, RoundTrips maxArguments p a d ↔ Room maxArguments 12 [p, a, d]) ∧
    ∀ p a d p' a' d' b, encodeCoseSigStructure maxArguments p a d = .ok b →
      encodeCoseSigStructure maxArguments p' a' d' = .ok b → p = p' ∧ a = a' ∧ d = d' := by
  refine ⟨fun major hmajor n hsafe => ?_, fun _ _ => encodeHead_refused, fun _ _ _ => roundTrips_iff,
    fun _ _ _ _ _ _ _ => encodeCoseSigStructure_inj⟩
  obtain ⟨xs, hxs, hbytes⟩ := encodeHead_eq hmajor hsafe
  have hinitial := @initial_eq major n hmajor
  have hlt := additional_lt n
  refine ⟨xs, _, _, hxs, hbytes, by omega, fun s => ?_, fun initial' s r hmajor' h => ?_⟩
  · have hmod : (major * 32 + additional n) % 32 = additional n := by omega
    rw [hinitial, hmod]
    exact argument_head hsafe
  · obtain ⟨hhead, -⟩ := head_of_argument h
    rw [hhead, hmajor']
    rfl

theorem not_roundTrips {p a d : Bytes} (h : maxArguments < d.length ∨ MAX_ARRAY_LENGTH < d.length) :
    ¬RoundTrips maxArguments p a d := by
  rw [roundTrips_iff]
  rintro ⟨harguments, helements⟩
  have hpushed : d.length ≤ pushed d := Nat.le_add_left _ _
  have hargument := harguments d (by simp)
  simp only [List.map_cons, List.map_nil, List.sum_cons, List.sum_nil] at helements
  omega

/-- No engine encodes a payload of 4 GiB, and one that passes 125000 arguments none of 126000 bytes. -/
theorem sigStructure_not_roundTrips :
    ¬RoundTrips (2 ^ 64) [] [] (List.replicate (2 ^ 32) 0) ∧
      ¬RoundTrips 125000 [] [] (List.replicate 126000 0) := by
  have hzeros : ∀ maxArguments n, maxArguments < n ∨ MAX_ARRAY_LENGTH < n →
      ¬RoundTrips maxArguments [] [] (List.replicate n 0) := by
    intro maxArguments n h
    apply not_roundTrips
    rwa [List.length_replicate]
  exact ⟨hzeros _ _ (.inr (by decide)), hzeros _ _ (.inl (by decide))⟩

end Structures

end Cose

end ZolanaTvc.Wallet
