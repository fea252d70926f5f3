import Mathlib.Algebra.Group.Nat.Defs
import Mathlib.Data.List.Basic
import Mathlib.Logic.Equiv.Basic
import Mathlib.Tactic.Common

/-!
# Borsh

A value is written as its fields one after the other: integers in little-endian order, byte strings
after their length in four bytes. `Borsh.Codec T` is a type's serializer and reader. What is read is
what was written, and nothing else is read.
-/

namespace Borsh

/-- A type's `BorshSerialize` and `BorshDeserialize`. -/
structure Codec (T : Type) where
  encode : T → Option (List UInt8)
  /-- The value at the front of a byte string, and the rest. -/
  decode : List UInt8 → Option (T × List UInt8)
  decode_encode : ∀ x p rest, encode x = some p → decode (p ++ rest) = some (x, rest)
  encode_of_decode : ∀ b x rest, decode b = some (x, rest) → ∃ p, encode x = some p ∧ b = p ++ rest

variable {A B T : Type}

/-- `borsh::to_vec` -/
def toVec (c : Codec T) (x : T) : Option (List UInt8) := c.encode x

/-- `try_from_slice`, which refuses trailing bytes. -/
def tryFromSlice (c : Codec T) (b : List UInt8) : Option T :=
  match c.decode b with
  | some (x, []) => some x
  | _ => none

theorem tryFromSlice_eq_some_iff {c : Codec T} {b : List UInt8} {x : T} :
    tryFromSlice c b = some x ↔ toVec c x = some b := by
  constructor
  · intro h
    unfold tryFromSlice at h
    split at h
    · next y hdecode =>
      obtain rfl := Option.some.inj h
      obtain ⟨p, hp, rfl⟩ := c.encode_of_decode b y [] hdecode
      rw [List.append_nil]
      exact hp
    · cases h
  · intro h
    have hdecode := c.decode_encode x b [] h
    rw [List.append_nil] at hdecode
    rw [tryFromSlice, hdecode]

namespace Codec

/-- A byte array of a fixed length. -/
def fixed (n : ℕ) : Codec {b : List UInt8 // b.length = n} where
  encode x := some x.val
  decode b :=
    if h : n ≤ b.length then some (⟨b.take n, List.length_take_of_le h⟩, b.drop n) else none
  decode_encode x p rest h := by
    obtain rfl := Option.some.inj h
    have hle : n ≤ (x.val ++ rest).length := by simp [x.property]
    rw [dif_pos hle, Option.some.injEq]
    exact Prod.ext (Subtype.ext (List.take_left' x.property)) (List.drop_left' x.property)
  encode_of_decode b x rest h := by
    split_ifs at h with hle
    obtain ⟨rfl, rfl⟩ := Prod.mk.inj (Option.some.inj h)
    exact ⟨b.take n, rfl, (List.take_append_drop n b).symm⟩

/-- A type that is written as another, of which not every value is one of its own. -/
def refine (c : Codec A) (f : T → A) (g : A → Option T) (hfg : ∀ x, g (f x) = some x)
    (hgf : ∀ a x, g a = some x → f x = a) : Codec T where
  encode x := c.encode (f x)
  decode b := (c.decode b).bind fun r => (g r.1).map fun x => (x, r.2)
  decode_encode x p rest h := by
    rw [c.decode_encode (f x) p rest h, Option.bind_some, hfg, Option.map_some]
  encode_of_decode b x rest h := by
    obtain ⟨⟨a, rest'⟩, hdecode, h⟩ := Option.bind_eq_some_iff.1 h
    obtain ⟨y, hy, heq⟩ := Option.map_eq_some_iff.1 h
    obtain ⟨rfl, rfl⟩ := Prod.mk.inj heq
    rw [hgf a y hy]
    exact c.encode_of_decode b a rest' hdecode

def map (c : Codec A) (e : T ≃ A) : Codec T :=
  c.refine e (fun a => some (e.symm a)) (fun x => by rw [e.symm_apply_apply])
    fun a x h => by rw [← Option.some.inj h, e.apply_symm_apply]

/-- A struct, field by field. -/
def pair (c : Codec A) (d : Codec B) : Codec (A × B) where
  encode x := (c.encode x.1).bind fun p => (d.encode x.2).map fun q => p ++ q
  decode b := (c.decode b).bind fun r => (d.decode r.2).map fun s => ((r.1, s.1), s.2)
  decode_encode x p rest h := by
    obtain ⟨q, hq, h⟩ := Option.bind_eq_some_iff.1 h
    obtain ⟨s, hs, rfl⟩ := Option.map_eq_some_iff.1 h
    rw [List.append_assoc, c.decode_encode x.1 q _ hq, Option.bind_some,
      d.decode_encode x.2 s rest hs, Option.map_some]
  encode_of_decode b x rest h := by
    obtain ⟨⟨a, b'⟩, ha, h⟩ := Option.bind_eq_some_iff.1 h
    obtain ⟨⟨y, b''⟩, hy, heq⟩ := Option.map_eq_some_iff.1 h
    obtain ⟨rfl, rfl⟩ := Prod.mk.inj heq
    obtain ⟨p, hp, rfl⟩ := c.encode_of_decode b a b' ha
    obtain ⟨q, hq, rfl⟩ := d.encode_of_decode b' y b'' hy
    exact ⟨p ++ q, by simp [hp, hq], (List.append_assoc p q b'').symm⟩

theorem encode_pair_eq_some {c : Codec A} {d : Codec B} {x : A × B} {p : List UInt8}
    (h : (c.pair d).encode x = some p) :
    ∃ q r, c.encode x.1 = some q ∧ d.encode x.2 = some r ∧ p = q ++ r := by
  obtain ⟨q, hq, h⟩ := Option.bind_eq_some_iff.1 h
  obtain ⟨r, hr, rfl⟩ := Option.map_eq_some_iff.1 h
  exact ⟨q, r, hq, hr, rfl⟩

/-- A number in `w` bytes, the least significant one first. -/
def littleEndian : ℕ → ℕ → List UInt8
  | 0, _ => []
  | w + 1, n => UInt8.ofNat n :: littleEndian w (n / 256)

def ofLittleEndian : List UInt8 → ℕ
  | [] => 0
  | b :: bs => b.toNat + 256 * ofLittleEndian bs

theorem length_littleEndian (w n : ℕ) : (littleEndian w n).length = w := by
  induction w generalizing n with
  | zero => rfl
  | succ w ih => rw [littleEndian, List.length_cons, ih]

theorem ofLittleEndian_littleEndian {w n : ℕ} (h : n < 256 ^ w) :
    ofLittleEndian (littleEndian w n) = n := by
  induction w generalizing n with
  | zero =>
    have hzero : n = 0 := Nat.lt_one_iff.1 h
    rw [littleEndian, ofLittleEndian, hzero]
  | succ w ih =>
    have hdiv : n / 256 < 256 ^ w := Nat.div_lt_of_lt_mul (by rw [← Nat.pow_succ']; exact h)
    have hbyte : (UInt8.ofNat n).toNat = n % 256 := UInt8.toNat_ofNat'
    rw [littleEndian, ofLittleEndian, ih hdiv, hbyte]
    omega

theorem ofLittleEndian_lt (b : List UInt8) : ofLittleEndian b < 256 ^ b.length := by
  induction b with
  | nil => simp [ofLittleEndian]
  | cons x xs ih =>
    have hx := x.toNat_lt
    rw [ofLittleEndian, List.length_cons, Nat.pow_succ]
    omega

theorem littleEndian_ofLittleEndian (b : List UInt8) :
    littleEndian b.length (ofLittleEndian b) = b := by
  induction b with
  | nil => rfl
  | cons x xs ih =>
    have hx := x.toNat_lt
    have hdiv : (x.toNat + 256 * ofLittleEndian xs) / 256 = ofLittleEndian xs := by omega
    have hbyte : UInt8.ofNat (x.toNat + 256 * ofLittleEndian xs) = x := by
      rw [← UInt8.toNat_inj, UInt8.toNat_ofNat']
      omega
    rw [ofLittleEndian, List.length_cons, littleEndian, hdiv, hbyte, ih]

/-- An unsigned integer of `w` bytes. -/
def unsigned (w : ℕ) (e : T ≃ Fin (256 ^ w)) : Codec T :=
  (fixed w).map
    { toFun := fun x => ⟨littleEndian w (e x), length_littleEndian w _⟩
      invFun := fun b => e.symm ⟨ofLittleEndian b.val, by
        have hlt := ofLittleEndian_lt b.val
        rwa [b.property] at hlt⟩
      left_inv := fun x => by
        rw [Equiv.symm_apply_eq]
        exact Fin.ext (ofLittleEndian_littleEndian (e x).isLt)
      right_inv := fun b => by
        apply Subtype.ext
        show littleEndian w (e (e.symm ⟨ofLittleEndian b.val, _⟩)) = b.val
        rw [Equiv.apply_symm_apply]
        have hb := littleEndian_ofLittleEndian b.val
        rwa [b.property] at hb }

def u8 : Codec UInt8 := unsigned 1 ⟨UInt8.toFin, UInt8.ofFin, UInt8.ofFin_toFin, UInt8.toFin_ofFin⟩

def u32 : Codec UInt32 := unsigned 4 ⟨UInt32.toFin, UInt32.ofFin, UInt32.ofFin_toFin, UInt32.toFin_ofFin⟩

def u64 : Codec UInt64 := unsigned 8 ⟨UInt64.toFin, UInt64.ofFin, UInt64.ofFin_toFin, UInt64.toFin_ofFin⟩

/-- A byte string, after its length. -/
def bytes : Codec (List UInt8) where
  encode x :=
    if x.length < 2 ^ 32 then (u32.encode (UInt32.ofNat x.length)).map fun p => p ++ x else none
  decode b := (u32.decode b).bind fun r =>
    ((fixed r.1.toNat).decode r.2).map fun s => (s.1.val, s.2)
  decode_encode x p rest h := by
    split_ifs at h with hlength
    obtain ⟨q, hq, rfl⟩ := Option.map_eq_some_iff.1 h
    have hnat : (UInt32.ofNat x.length).toNat = x.length := UInt32.toNat_ofNat_of_lt' hlength
    rw [List.append_assoc, u32.decode_encode _ q _ hq, Option.bind_some,
      (fixed _).decode_encode ⟨x, hnat.symm⟩ x rest rfl, Option.map_some]
  encode_of_decode b x rest h := by
    obtain ⟨⟨n, b'⟩, hn, h⟩ := Option.bind_eq_some_iff.1 h
    obtain ⟨⟨⟨y, hy⟩, b''⟩, hfixed, heq⟩ := Option.map_eq_some_iff.1 h
    obtain ⟨rfl, rfl⟩ := Prod.mk.inj heq
    obtain ⟨p, hp, rfl⟩ := u32.encode_of_decode b n b' hn
    obtain ⟨q, hq, rfl⟩ := (fixed n.toNat).encode_of_decode b' ⟨y, hy⟩ b'' hfixed
    obtain rfl : y = q := Option.some.inj hq
    have hn' : UInt32.ofNat y.length = n := by
      rw [show y.length = n.toNat from hy]
      exact UInt32.ofNat_toNat
    refine ⟨p ++ y, ?_, (List.append_assoc p y b'').symm⟩
    have hlt : y.length < 2 ^ 32 := hy ▸ n.toNat_lt
    rw [if_pos hlt, hn', hp, Option.map_some]

theorem encode_bytes_eq_some {x p : List UInt8} :
    bytes.encode x = some p ↔ x.length < 2 ^ 32 ∧ p = littleEndian 4 x.length ++ x := by
  have hencode : ∀ n : ℕ, n < 2 ^ 32 → u32.encode (UInt32.ofNat n) = some (littleEndian 4 n) := by
    intro n hn
    show some (littleEndian 4 (UInt32.ofNat n).toNat) = _
    rw [UInt32.toNat_ofNat_of_lt' hn]
  by_cases hlength : x.length < 2 ^ 32
  · show (if _ then _ else _) = _ ↔ _
    rw [if_pos hlength, hencode _ hlength, Option.map_some, Option.some.injEq, eq_comm,
      and_iff_right hlength]
  · show (if _ then _ else _) = _ ↔ _
    rw [if_neg hlength]
    constructor
    · intro h
      cases h
    · intro h
      exact absurd h.1 hlength

end Codec

end Borsh
