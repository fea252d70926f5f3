import Mathlib.Data.List.Lex
import ZolanaTvc.Json.Text

/-!
# UTF-16

A JavaScript string is a list of UTF-16 code units, which need not be the encoding of any
characters; a Rust string is a list of characters.
-/

instance linearOrderUInt16 : LinearOrder UInt16 where
  le_refl := UInt16.le_refl
  le_trans _ _ _ := UInt16.le_trans
  le_antisymm _ _ := UInt16.le_antisymm
  lt_iff_le_not_ge u v := by
    simp only [UInt16.lt_iff_toNat_lt, UInt16.le_iff_toNat_le]
    omega
  le_total := UInt16.le_total
  toDecidableLE := inferInstance
  toDecidableLT := inferInstance
  toDecidableEq := inferInstance

namespace Utf16

open Json

/-- The code units of a character: one, or a pair of surrogates. -/
def units (c : Char) : List UInt16 :=
  if c.toNat < 0x10000 then [UInt16.ofNat c.toNat]
  else [UInt16.ofNat (0xd800 + (c.toNat - 0x10000) / 0x400),
    UInt16.ofNat (0xdc00 + (c.toNat - 0x10000) % 0x400)]

def encode (s : List Char) : List UInt16 := s.flatMap units

def isHigh (u : UInt16) : Bool := decide (0xd800 ≤ u.toNat ∧ u.toNat < 0xdc00)

def isLow (u : UInt16) : Bool := decide (0xdc00 ≤ u.toNat ∧ u.toNat < 0xe000)

def combine (u v : UInt16) : Char :=
  Char.ofNat (0x10000 + (u.toNat - 0xd800) * 0x400 + (v.toNat - 0xdc00))

/-- The characters that code units encode; none when a surrogate stands alone. -/
def decode : List UInt16 → Option (List Char)
  | [] => some []
  | u :: s =>
    if isHigh u then
      match s with
      | [] => none
      | v :: s => if isLow v then (decode s).map (combine u v :: ·) else none
    else if isLow u then none
    else (decode s).map (Char.ofNat u.toNat :: ·)

/-- The characters that code units encode, with U+FFFD for every surrogate that stands alone. -/
def decodeLossy : List UInt16 → List Char
  | [] => []
  | [u] => if isHigh u || isLow u then [Char.ofNat 0xfffd] else [Char.ofNat u.toNat]
  | u :: v :: s =>
    if isHigh u && isLow v then combine u v :: decodeLossy s
    else if isHigh u || isLow u then Char.ofNat 0xfffd :: decodeLossy (v :: s)
    else Char.ofNat u.toNat :: decodeLossy (v :: s)

theorem toNat_valid (c : Char) : c.toNat < 0xd800 ∨ 0xdfff < c.toNat ∧ c.toNat < 0x110000 :=
  c.valid

theorem isHigh_iff {u : UInt16} : isHigh u = true ↔ 0xd800 ≤ u.toNat ∧ u.toNat < 0xdc00 :=
  decide_eq_true_iff

theorem isLow_iff {u : UInt16} : isLow u = true ↔ 0xdc00 ≤ u.toNat ∧ u.toNat < 0xe000 :=
  decide_eq_true_iff

theorem toNat_ofNat {n : ℕ} (hn : n < 0x10000) : (UInt16.ofNat n).toNat = n := by
  rw [UInt16.toNat_ofNat', Nat.mod_eq_of_lt hn]

theorem decode_scalar {u : UInt16} (hhigh : isHigh u = false) (hlow : isLow u = false)
    (s : List UInt16) : decode (u :: s) = (decode s).map (Char.ofNat u.toNat :: ·) := by
  rw [decode.eq_def]
  simp only [hhigh, hlow, Bool.false_eq_true, if_false]

theorem decode_pair {u v : UInt16} (hu : isHigh u = true) (hv : isLow v = true)
    (s : List UInt16) : decode (u :: v :: s) = (decode s).map (combine u v :: ·) := by
  rw [decode.eq_def]
  simp only [hu, hv, if_true]

/-- A character is one unit that is no surrogate, or a high and a low surrogate. -/
theorem units_cases (c : Char) :
    (∃ u, units c = [u] ∧ isHigh u = false ∧ isLow u = false ∧ Char.ofNat u.toNat = c) ∨
      ∃ u v, units c = [u, v] ∧ isHigh u = true ∧ isLow v = true ∧ combine u v = c := by
  have hvalid := toNat_valid c
  unfold units
  split_ifs with hbmp
  · have hunit := toNat_ofNat hbmp
    refine .inl ⟨_, rfl, ?_, ?_, by rw [hunit, Char.ofNat_toNat]⟩
    · rw [Bool.eq_false_iff, ne_eq, isHigh_iff, hunit]
      omega
    · rw [Bool.eq_false_iff, ne_eq, isLow_iff, hunit]
      omega
  · have hhighNat := toNat_ofNat (n := 0xd800 + (c.toNat - 0x10000) / 0x400) (by omega)
    have hlowNat := toNat_ofNat (n := 0xdc00 + (c.toNat - 0x10000) % 0x400) (by omega)
    refine .inr ⟨_, _, rfl, ?_, ?_, ?_⟩
    · rw [isHigh_iff, hhighNat]
      omega
    · rw [isLow_iff, hlowNat]
      omega
    · rw [combine, hhighNat, hlowNat]
      refine (congrArg Char.ofNat ?_).trans (Char.ofNat_toNat c)
      omega

theorem decode_units (c : Char) (s : List UInt16) :
    decode (units c ++ s) = (decode s).map (c :: ·) := by
  obtain ⟨u, hu, hhigh, hlow, hc⟩ | ⟨u, v, huv, hhigh, hlow, hc⟩ := units_cases c
  · rw [hu, List.singleton_append, decode_scalar hhigh hlow, hc]
  · rw [huv, List.cons_append, List.singleton_append, decode_pair hhigh hlow, hc]

theorem decode_encode (s : List Char) : decode (encode s) = some s := by
  induction s with
  | nil => rfl
  | cons c s ih => rw [encode, List.flatMap_cons, decode_units, ← encode, ih]; rfl

theorem decodeLossy_of_decode {us : List UInt16} {s : List Char} (h : decode us = some s) :
    decodeLossy us = s := by
  fun_induction decode us generalizing s with
  | case1 => obtain rfl := Option.some.inj h; rfl
  | case2 | case4 | case5 => simp at h
  | case3 u hu v us hv ih =>
    obtain ⟨t, ht, rfl⟩ := Option.map_eq_some_iff.1 h
    rw [decodeLossy, if_pos (by rw [hu, hv]; rfl), ih ht]
  | case6 u us hhigh hlow ih =>
    obtain ⟨t, ht, rfl⟩ := Option.map_eq_some_iff.1 h
    rw [Bool.not_eq_true] at hhigh hlow
    cases us with
    | nil =>
      obtain rfl := Option.some.inj ht
      simp [decodeLossy, hhigh, hlow]
    | cons v us => simp [decodeLossy, hhigh, hlow, ih ht]

theorem decodeLossy_encode (s : List Char) : decodeLossy (encode s) = s :=
  decodeLossy_of_decode (decode_encode s)

theorem encode_injective : Function.Injective encode := by
  intro s t h
  exact Option.some.inj ((decode_encode s).symm.trans ((congrArg decode h).trans (decode_encode t)))

theorem toNat_charOfNat {n : ℕ} (h : n.isValidChar) : (Char.ofNat n).toNat = n := by
  rw [Char.ofNat, dif_pos h]
  exact UInt32.toNat_ofNatLT

theorem units_of_scalar {u : UInt16} (hhigh : isHigh u = false) (hlow : isLow u = false) :
    units (Char.ofNat u.toNat) = [u] := by
  have hu := u.toNat_lt
  rw [Bool.eq_false_iff, ne_eq, isHigh_iff] at hhigh
  rw [Bool.eq_false_iff, ne_eq, isLow_iff] at hlow
  have hnat : (Char.ofNat u.toNat).toNat = u.toNat :=
    toNat_charOfNat (by simp only [Nat.isValidChar]; omega)
  rw [units, hnat, if_pos (by omega), UInt16.ofNat_toNat]

theorem units_combine {u v : UInt16} (hu : isHigh u = true) (hv : isLow v = true) :
    units (combine u v) = [u, v] := by
  rw [isHigh_iff] at hu
  rw [isLow_iff] at hv
  have hnat : (combine u v).toNat =
      0x10000 + (u.toNat - 0xd800) * 0x400 + (v.toNat - 0xdc00) :=
    toNat_charOfNat (by simp only [Nat.isValidChar]; omega)
  have hhigh : 0xd800 + ((combine u v).toNat - 0x10000) / 0x400 = u.toNat := by omega
  have hlow : 0xdc00 + ((combine u v).toNat - 0x10000) % 0x400 = v.toNat := by omega
  rw [units, if_neg (by omega), hhigh, hlow, UInt16.ofNat_toNat, UInt16.ofNat_toNat]

/-- Code units that encode characters are the encoding of these. -/
theorem encode_of_decode {us : List UInt16} {s : List Char} (h : decode us = some s) :
    encode s = us := by
  fun_induction decode us generalizing s with
  | case1 => obtain rfl := Option.some.inj h; rfl
  | case2 | case4 | case5 => simp at h
  | case3 u hu v us hv ih =>
    obtain ⟨t, ht, rfl⟩ := Option.map_eq_some_iff.1 h
    rw [encode, List.flatMap_cons, units_combine hu hv, ← encode, ih ht]
    rfl
  | case6 u us hhigh hlow ih =>
    obtain ⟨t, ht, rfl⟩ := Option.map_eq_some_iff.1 h
    rw [encode, List.flatMap_cons,
      units_of_scalar (Bool.eq_false_iff.2 hhigh) (Bool.eq_false_iff.2 hlow), ← encode, ih ht]
    rfl

/-- A character that is no surrogate parts the text: what is before it and after it is decoded on its
own. -/
theorem decode_append {a b : List UInt16} {u : UInt16} {cs : List Char} (hhigh : isHigh u = false)
    (hlow : isLow u = false) (h : decode (a ++ u :: b) = some cs) :
    (decode a).isSome = true ∧ (decode b).isSome = true := by
  -- The character ends the first text: had that text left a high surrogate open, this one could not
  -- close it.
  induction a using decode.induct generalizing cs with
  | case1 =>
    rw [List.nil_append, decode_scalar hhigh hlow] at h
    obtain ⟨bs, hbs, -⟩ := Option.map_eq_some_iff.1 h
    exact ⟨rfl, Option.isSome_of_eq_some hbs⟩
  | case2 v hv =>
    rw [List.singleton_append, decode.eq_def] at h
    simp [hv, hlow] at h
  | case3 v hv w a hw ih =>
    rw [List.cons_append, List.cons_append, decode_pair hv hw] at h
    obtain ⟨cs', hcs, -⟩ := Option.map_eq_some_iff.1 h
    obtain ⟨ha, hb⟩ := ih hcs
    rw [decode_pair hv hw, Option.isSome_map]
    exact ⟨ha, hb⟩
  | case4 v hv w a hw =>
    rw [List.cons_append, List.cons_append, decode.eq_def] at h
    simp [hv, hw] at h
  | case5 v a hv hv' =>
    rw [List.cons_append, decode.eq_def] at h
    simp [hv, hv'] at h
  | case6 v a hv hv' ih =>
    rw [Bool.not_eq_true] at hv hv'
    rw [List.cons_append, decode_scalar hv hv'] at h
    obtain ⟨cs', hcs, -⟩ := Option.map_eq_some_iff.1 h
    obtain ⟨ha, hb⟩ := ih hcs
    rw [decode_scalar hv hv', Option.isSome_map]
    exact ⟨ha, hb⟩

theorem decodeLossy_scalar {u : UInt16} (hhigh : isHigh u = false) (hlow : isLow u = false)
    (s : List UInt16) : decodeLossy (u :: s) = Char.ofNat u.toNat :: decodeLossy s := by
  cases s <;> simp [decodeLossy, hhigh, hlow]

theorem decodeLossy_units (c : Char) (s : List UInt16) :
    decodeLossy (units c ++ s) = c :: decodeLossy s := by
  obtain ⟨u, hu, hhigh, hlow, hc⟩ | ⟨u, v, huv, hhigh, hlow, hc⟩ := units_cases c
  · rw [hu, List.singleton_append, decodeLossy_scalar hhigh hlow, hc]
  · rw [huv, List.cons_append, List.singleton_append, decodeLossy, if_pos (by rw [hhigh, hlow]; rfl), hc]

theorem decodeLossy_encode_append (cs : List Char) (s : List UInt16) :
    decodeLossy (encode cs ++ s) = cs ++ decodeLossy s := by
  induction cs with
  | nil => rfl
  | cons c cs ih =>
    rw [encode, List.flatMap_cons, List.append_assoc, decodeLossy_units, ← encode, ih]
    rfl

/-- A character that is no surrogate parts the text, whatever stands alone before and after it. -/
theorem decodeLossy_append {a b : List UInt16} {u : UInt16} (hhigh : isHigh u = false)
    (hlow : isLow u = false) :
    decodeLossy (a ++ u :: b) = decodeLossy a ++ Char.ofNat u.toNat :: decodeLossy b := by
  induction a using decodeLossy.induct with
  | case1 => exact decodeLossy_scalar hhigh hlow b
  | case2 v hv => simp [decodeLossy, decodeLossy_scalar hhigh hlow, hv, hlow]
  | case3 v hv => simp [decodeLossy, decodeLossy_scalar hhigh hlow, hv, hlow]
  | case4 v w s hpair ih =>
    rw [List.cons_append, List.cons_append, decodeLossy, decodeLossy, if_pos hpair, if_pos hpair, ih]
    rfl
  | case5 v w s hpair hv ih =>
    rw [List.cons_append, List.cons_append, decodeLossy, decodeLossy, if_neg hpair, if_neg hpair,
      if_pos hv, if_pos hv, ← List.cons_append, ih]
    rfl
  | case6 v w s hpair hv ih =>
    rw [List.cons_append, List.cons_append, decodeLossy, decodeLossy, if_neg hpair, if_neg hpair,
      if_neg hv, if_neg hv, ← List.cons_append, ih]
    rfl

theorem encode_cons (c : Char) (s : List Char) : encode (c :: s) = units c ++ encode s :=
  List.flatMap_cons

/-- Only units with a surrogate alone have U+FFFD for what they are not the encoding of. -/
theorem encode_decodeLossy {us : List UInt16} (h : Char.ofNat 0xfffd ∉ decodeLossy us) :
    encode (decodeLossy us) = us := by
  induction us using decodeLossy.induct with
  | case1 => rfl
  | case2 u hu =>
    rw [decodeLossy, if_pos hu] at h
    exact absurd List.mem_cons_self h
  | case3 u hu =>
    rw [Bool.or_eq_true, not_or, Bool.not_eq_true, Bool.not_eq_true] at hu
    rw [decodeLossy, if_neg (by simp [hu]), encode_cons, units_of_scalar hu.1 hu.2]
    rfl
  | case4 u v s hpair ih =>
    obtain ⟨hu, hv⟩ := Bool.and_eq_true_iff.1 hpair
    rw [decodeLossy, if_pos hpair] at h ⊢
    rw [encode_cons, units_combine hu hv, ih fun hs => h (List.mem_cons_of_mem _ hs)]
    rfl
  | case5 u v s hpair hu ih =>
    rw [decodeLossy, if_neg hpair, if_pos hu] at h
    exact absurd List.mem_cons_self h
  | case6 u v s hpair hu ih =>
    rw [decodeLossy, if_neg hpair, if_neg hu] at h ⊢
    rw [Bool.or_eq_true, not_or, Bool.not_eq_true, Bool.not_eq_true] at hu
    rw [encode_cons, units_of_scalar hu.1 hu.2, ih fun hs => h (List.mem_cons_of_mem _ hs)]
    rfl

end Utf16
