import Mathlib.Data.List.Induction
import ZolanaTvc.Borsh.Codec

/-!
# CBOR data items

A data item and its deterministic encoding: heads of the shortest form, definite lengths. Text is kept
as the bytes that stand in the document.

## Main results

* `Cbor.head_append_inj`: a head tells its major type and its argument, whatever follows it.
* `Cbor.Item.encode_append_inj`: an encoding tells its item, whatever follows it.
-/

namespace Cbor

section BigEndian

/-- A number in `w` bytes, the most significant one first. -/
def bigEndian (w n : ℕ) : List UInt8 := (Borsh.Codec.littleEndian w n).reverse

def ofBigEndian (b : List UInt8) : ℕ := b.foldl (fun n x => n * 256 + x.toNat) 0

theorem length_bigEndian (w n : ℕ) : (bigEndian w n).length = w := by
  rw [bigEndian, List.length_reverse, Borsh.Codec.length_littleEndian]

theorem ofBigEndian_eq (b : List UInt8) :
    ofBigEndian b = Borsh.Codec.ofLittleEndian b.reverse := by
  induction b using List.reverseRecOn with
  | nil => rfl
  | append_singleton b x ih =>
    rw [ofBigEndian] at ih
    rw [ofBigEndian, List.foldl_append, List.foldl_cons, List.foldl_nil, ih, List.reverse_append,
      List.reverse_singleton, List.singleton_append, Borsh.Codec.ofLittleEndian]
    omega

theorem ofBigEndian_bigEndian {w n : ℕ} (h : n < 256 ^ w) : ofBigEndian (bigEndian w n) = n := by
  rw [ofBigEndian_eq, bigEndian, List.reverse_reverse, Borsh.Codec.ofLittleEndian_littleEndian h]

theorem ofBigEndian_lt (b : List UInt8) : ofBigEndian b < 256 ^ b.length := by
  have hlt := Borsh.Codec.ofLittleEndian_lt b.reverse
  rwa [List.length_reverse, ← ofBigEndian_eq] at hlt

theorem bigEndian_ofBigEndian (b : List UInt8) : bigEndian b.length (ofBigEndian b) = b := by
  have hbytes := Borsh.Codec.littleEndian_ofLittleEndian b.reverse
  rw [List.length_reverse, ← ofBigEndian_eq] at hbytes
  rw [bigEndian, hbytes, List.reverse_reverse]

end BigEndian

section Head

/-- The additional information of a head: the argument itself, or in how many bytes it follows. -/
def additional (n : ℕ) : ℕ :=
  if n < 24 then n else if n < 2 ^ 8 then 24 else if n < 2 ^ 16 then 25
  else if n < 2 ^ 32 then 26 else 27

/-- In how many bytes an argument follows the first byte, at least. -/
def width (n : ℕ) : ℕ :=
  if n < 24 then 0 else if n < 2 ^ 8 then 1 else if n < 2 ^ 16 then 2
  else if n < 2 ^ 32 then 4 else 8

/-- The shortest head of a major type and an argument. -/
def head (major n : ℕ) : List UInt8 :=
  UInt8.ofNat (major * 32 + additional n) :: bigEndian (width n) n

theorem additional_lt (n : ℕ) : additional n < 28 := by
  unfold additional
  split_ifs <;> omega

theorem lt_pow_width {n : ℕ} (h : 24 ≤ n) (hn : n < 2 ^ 64) : n < 256 ^ width n := by
  unfold width
  split_ifs <;> omega

theorem width_eq_of_additional {m n : ℕ} (h : additional m = additional n) : width m = width n := by
  unfold additional at h
  unfold width
  split_ifs at h ⊢ <;> omega

theorem lt_of_additional {m n : ℕ} (h : additional m = additional n) (hm : m < 24) : m = n := by
  unfold additional at h
  split_ifs at h <;> omega

theorem initial_eq {major n : ℕ} (h : major < 8) :
    (UInt8.ofNat (major * 32 + additional n)).toNat = major * 32 + additional n := by
  have hlt := additional_lt n
  rw [UInt8.toNat_ofNat', Nat.mod_eq_of_lt (by omega)]

/-- A head tells its major type and its argument. -/
theorem head_append_inj {major major' m n : ℕ} {r s : List UInt8} (hmajor : major < 8)
    (hmajor' : major' < 8) (hm : m < 2 ^ 64) (hn : n < 2 ^ 64)
    (h : head major m ++ r = head major' n ++ s) : major = major' ∧ m = n ∧ r = s := by
  rw [head, head, List.cons_append, List.cons_append] at h
  obtain ⟨hinitial, hrest⟩ := List.cons.inj h
  have hnat := congrArg UInt8.toNat hinitial
  rw [initial_eq hmajor, initial_eq hmajor'] at hnat
  have hltm := additional_lt m
  have hltn := additional_lt n
  have hadditional : additional m = additional n := by omega
  have hlength : (bigEndian (width m) m).length = (bigEndian (width n) n).length := by
    rw [length_bigEndian, length_bigEndian, width_eq_of_additional hadditional]
  obtain ⟨hbytes, hr⟩ := List.append_inj hrest hlength
  refine ⟨by omega, ?_, hr⟩
  by_cases hsmall : m < 24
  · exact lt_of_additional hadditional hsmall
  · have hsmall' : ¬n < 24 := fun hn => hsmall (lt_of_additional hadditional.symm hn ▸ hn)
    have hvalue := congrArg ofBigEndian hbytes
    rwa [ofBigEndian_bigEndian (lt_pow_width (by omega) hm),
      ofBigEndian_bigEndian (lt_pow_width (by omega) hn)] at hvalue

end Head

/-- A data item. -/
inductive Item where
  | unsigned (n : ℕ)
  | negative (n : ℕ)
  | bytes (b : List UInt8)
  | text (b : List UInt8)
  | array (items : List Item)
  | map (entries : List (Item × Item))
  | tag (n : ℕ) (item : Item)
  | simple (n : ℕ)

namespace Item

@[elab_as_elim, induction_eliminator]
theorem induct {motive : Item → Prop} (unsigned : ∀ n, motive (.unsigned n))
    (negative : ∀ n, motive (.negative n)) (bytes : ∀ b, motive (.bytes b))
    (text : ∀ b, motive (.text b))
    (array : ∀ items, (∀ i ∈ items, motive i) → motive (.array items))
    (map : ∀ entries, (∀ e ∈ entries, motive e.1 ∧ motive e.2) → motive (.map entries))
    (tag : ∀ n item, motive item → motive (.tag n item)) (simple : ∀ n, motive (.simple n))
    (i : Item) : motive i :=
  @Item.rec motive (fun items => ∀ i ∈ items, motive i)
    (fun entries => ∀ e ∈ entries, motive e.1 ∧ motive e.2) (fun e => motive e.1 ∧ motive e.2)
    unsigned negative bytes text array map tag simple (by simp)
    (fun _ _ hi hitems => List.forall_mem_cons.2 ⟨hi, hitems⟩) (by simp)
    (fun _ _ he hentries => List.forall_mem_cons.2 ⟨he, hentries⟩) (fun _ _ hk hv => ⟨hk, hv⟩) i

mutual

/-- The deterministic encoding. -/
def encode : Item → List UInt8
  | .unsigned n => head 0 n
  | .negative n => head 1 n
  | .bytes b => head 2 b.length ++ b
  | .text b => head 3 b.length ++ b
  | .array items => head 4 items.length ++ encodeItems items
  | .map entries => head 5 entries.length ++ encodeEntries entries
  | .tag n item => head 6 n ++ encode item
  | .simple n => head 7 n

def encodeItems : List Item → List UInt8
  | [] => []
  | i :: items => encode i ++ encodeItems items

def encodeEntries : List (Item × Item) → List UInt8
  | [] => []
  | (k, v) :: entries => encode k ++ encode v ++ encodeEntries entries

end

/-- The item has an encoding: its arguments are of 64 bits, its simple values of the first byte. -/
inductive Fits : Item → Prop where
  | unsigned {n : ℕ} : n < 2 ^ 64 → Fits (.unsigned n)
  | negative {n : ℕ} : n < 2 ^ 64 → Fits (.negative n)
  | bytes {b : List UInt8} : b.length < 2 ^ 64 → Fits (.bytes b)
  | text {b : List UInt8} : b.length < 2 ^ 64 → Fits (.text b)
  | array {items : List Item} : items.length < 2 ^ 64 → (∀ i ∈ items, Fits i) → Fits (.array items)
  | map {entries : List (Item × Item)} : entries.length < 2 ^ 64 → (∀ e ∈ entries, Fits e.1) →
      (∀ e ∈ entries, Fits e.2) → Fits (.map entries)
  | tag {n : ℕ} {item : Item} : n < 2 ^ 64 → Fits item → Fits (.tag n item)
  | simple {n : ℕ} : n < 24 → Fits (.simple n)

/-- The major type of an item. -/
def major : Item → ℕ
  | .unsigned _ => 0
  | .negative _ => 1
  | .bytes _ => 2
  | .text _ => 3
  | .array _ => 4
  | .map _ => 5
  | .tag _ _ => 6
  | .simple _ => 7

/-- The argument of an item's head. -/
def argument : Item → ℕ
  | .unsigned n => n
  | .negative n => n
  | .bytes b => b.length
  | .text b => b.length
  | .array items => items.length
  | .map entries => entries.length
  | .tag n _ => n
  | .simple n => n

/-- What follows the head of an item. -/
def content : Item → List UInt8
  | .bytes b => b
  | .text b => b
  | .array items => encodeItems items
  | .map entries => encodeEntries entries
  | .tag _ item => encode item
  | _ => []

theorem encode_eq (i : Item) : i.encode = head i.major i.argument ++ i.content := by
  cases i <;> simp [encode, major, argument, content]

theorem major_lt (i : Item) : i.major < 8 := by
  cases i <;> simp [major]

theorem argument_lt {i : Item} (h : i.Fits) : i.argument < 2 ^ 64 := by
  cases h with
  | simple h => exact Nat.lt_trans h (by decide)
  | unsigned h | negative h | bytes h | text h | array h | map h | tag h => exact h

theorem encodeItems_inj {items items' : List Item} {r s : List UInt8}
    (ih : ∀ i ∈ items, ∀ j r s, i.Fits → j.Fits → i.encode ++ r = j.encode ++ s → i = j ∧ r = s)
    (hfits : ∀ i ∈ items, i.Fits) (hfits' : ∀ i ∈ items', i.Fits)
    (hlength : items.length = items'.length)
    (h : encodeItems items ++ r = encodeItems items' ++ s) : items = items' ∧ r = s := by
  induction items generalizing items' with
  | nil =>
    obtain rfl := List.length_eq_zero_iff.1 hlength.symm
    exact ⟨rfl, h⟩
  | cons i items ihs =>
    obtain ⟨j, js, rfl⟩ := List.exists_cons_of_length_eq_add_one hlength.symm
    obtain ⟨hi, hitems⟩ := List.forall_mem_cons.1 ih
    obtain ⟨hfit, hfitItems⟩ := List.forall_mem_cons.1 hfits
    obtain ⟨hfit', hfitItems'⟩ := List.forall_mem_cons.1 hfits'
    rw [encodeItems, encodeItems, List.append_assoc, List.append_assoc] at h
    obtain ⟨rfl, hrest⟩ := hi j _ _ hfit hfit' h
    obtain ⟨rfl, hr⟩ := ihs hitems hfitItems hfitItems' (by simpa using hlength) hrest
    exact ⟨rfl, hr⟩

theorem encodeEntries_inj {entries entries' : List (Item × Item)} {r s : List UInt8}
    (ih : ∀ e ∈ entries,
      (∀ j r s, e.1.Fits → j.Fits → e.1.encode ++ r = j.encode ++ s → e.1 = j ∧ r = s) ∧
      ∀ j r s, e.2.Fits → j.Fits → e.2.encode ++ r = j.encode ++ s → e.2 = j ∧ r = s)
    (hfits : ∀ e ∈ entries, e.1.Fits ∧ e.2.Fits) (hfits' : ∀ e ∈ entries', e.1.Fits ∧ e.2.Fits)
    (hlength : entries.length = entries'.length)
    (h : encodeEntries entries ++ r = encodeEntries entries' ++ s) :
    entries = entries' ∧ r = s := by
  induction entries generalizing entries' with
  | nil =>
    obtain rfl := List.length_eq_zero_iff.1 hlength.symm
    exact ⟨rfl, h⟩
  | cons e entries ihs =>
    obtain ⟨e', es, rfl⟩ := List.exists_cons_of_length_eq_add_one hlength.symm
    obtain ⟨⟨hk, hv⟩, hentries⟩ := List.forall_mem_cons.1 ih
    obtain ⟨⟨hfitk, hfitv⟩, hfitEntries⟩ := List.forall_mem_cons.1 hfits
    obtain ⟨⟨hfitk', hfitv'⟩, hfitEntries'⟩ := List.forall_mem_cons.1 hfits'
    obtain ⟨k, v⟩ := e
    obtain ⟨k', v'⟩ := e'
    simp only [encodeEntries, List.append_assoc] at h
    obtain ⟨rfl, hvalue⟩ := hk k' _ _ hfitk hfitk' h
    obtain ⟨rfl, hrest⟩ := hv v' _ _ hfitv hfitv' hvalue
    obtain ⟨rfl, hr⟩ := ihs hentries hfitEntries hfitEntries' (by simpa using hlength) hrest
    exact ⟨rfl, hr⟩

theorem head_of_encode_append {i j : Item} {r s : List UInt8} (hi : i.Fits) (hj : j.Fits)
    (h : i.encode ++ r = j.encode ++ s) :
    i.major = j.major ∧ i.argument = j.argument ∧ i.content ++ r = j.content ++ s := by
  rw [encode_eq, encode_eq, List.append_assoc, List.append_assoc] at h
  exact head_append_inj i.major_lt j.major_lt (argument_lt hi) (argument_lt hj) h

/-- An encoding tells its item, whatever follows it. -/
theorem encode_append_inj {i j : Item} {r s : List UInt8} (hi : i.Fits) (hj : j.Fits)
    (h : i.encode ++ r = j.encode ++ s) : i = j ∧ r = s := by
  -- Equal heads give equal majors and arguments, so only the item of the same kind is left in each
  -- case.
  induction i generalizing j r s with
  | unsigned n =>
    obtain ⟨hmajor, hargument, hcontent⟩ := head_of_encode_append hi hj h
    cases j with
    | unsigned m => obtain rfl : n = m := hargument; exact ⟨rfl, hcontent⟩
    | _ => exact absurd hmajor (by simp [major])
  | negative n =>
    obtain ⟨hmajor, hargument, hcontent⟩ := head_of_encode_append hi hj h
    cases j with
    | negative m => obtain rfl : n = m := hargument; exact ⟨rfl, hcontent⟩
    | _ => exact absurd hmajor (by simp [major])
  | bytes b =>
    obtain ⟨hmajor, hargument, hcontent⟩ := head_of_encode_append hi hj h
    cases j with
    | bytes c =>
      -- The argument of a string is its length, which tells where the string ends.
      obtain ⟨rfl, hr⟩ := List.append_inj hcontent hargument
      exact ⟨rfl, hr⟩
    | _ => exact absurd hmajor (by simp [major])
  | text b =>
    obtain ⟨hmajor, hargument, hcontent⟩ := head_of_encode_append hi hj h
    cases j with
    | text c =>
      obtain ⟨rfl, hr⟩ := List.append_inj hcontent hargument
      exact ⟨rfl, hr⟩
    | _ => exact absurd hmajor (by simp [major])
  | array items ih =>
    obtain ⟨hmajor, hargument, hcontent⟩ := head_of_encode_append hi hj h
    cases j with
    | array items' =>
      cases hi with
      | array _ hfits =>
        cases hj with
        | array _ hfits' =>
          -- As many items on both sides, one after another.
          obtain ⟨rfl, hr⟩ := encodeItems_inj (fun i hi j r s hf hf' h => ih i hi hf hf' h) hfits
            hfits' hargument hcontent
          exact ⟨rfl, hr⟩
    | _ => exact absurd hmajor (by simp [major])
  | map entries ih =>
    obtain ⟨hmajor, hargument, hcontent⟩ := head_of_encode_append hi hj h
    cases j with
    | map entries' =>
      cases hi with
      | map _ hkeys hvalues =>
        cases hj with
        | map _ hkeys' hvalues' =>
          obtain ⟨rfl, hr⟩ := encodeEntries_inj
            (fun e he => ⟨fun j r s hf hf' h => (ih e he).1 hf hf' h,
              fun j r s hf hf' h => (ih e he).2 hf hf' h⟩)
            (fun e he => ⟨hkeys e he, hvalues e he⟩) (fun e he => ⟨hkeys' e he, hvalues' e he⟩)
            hargument hcontent
          exact ⟨rfl, hr⟩
    | _ => exact absurd hmajor (by simp [major])
  | tag n item ih =>
    obtain ⟨hmajor, hargument, hcontent⟩ := head_of_encode_append hi hj h
    cases j with
    | tag m item' =>
      obtain rfl : n = m := hargument
      cases hi with
      | tag _ hfit =>
        cases hj with
        | tag _ hfit' =>
          obtain ⟨rfl, hr⟩ := ih hfit hfit' hcontent
          exact ⟨rfl, hr⟩
    | _ => exact absurd hmajor (by simp [major])
  | simple n =>
    obtain ⟨hmajor, hargument, hcontent⟩ := head_of_encode_append hi hj h
    cases j with
    | simple m => obtain rfl : n = m := hargument; exact ⟨rfl, hcontent⟩
    | _ => exact absurd hmajor (by simp [major])

/-- Two items have two encodings. -/
theorem encode_inj {i j : Item} (hi : i.Fits) (hj : j.Fits) (h : i.encode = j.encode) : i = j :=
  (encode_append_inj hi hj (congrArg (· ++ []) h)).1

end Item

end Cbor
