import ZolanaTvc.Cbor.Item
import ZolanaTvc.Wallet.ReleasePolicy

/-!
# Signatures with a low S

A key of the platform signs with either of two values of `s`, and the enclave accepts the lower one only.
`compactLowS` puts it into the signature byte by byte.

## Main results

* `LowS.compactLowS_eq`: what `compactLowS` returns, and what it refuses.
* `LowS.compactLowS_verifies`: both verifiers take its signatures, when they are valid with either value.
-/

namespace ZolanaTvc.Wallet.LowS

open Cbor Except Protocol

def P256_ORDER : ℕ := 0xffffffff00000000ffffffffffffffffbce6faada7179e84f3b9cac2fc632551

def P256_HALF_ORDER : ℕ := P256_ORDER >>> 1

/-- The bytes as one integer, byte by byte. -/
def readInteger (bytes : Bytes) : ℕ := bytes.foldl (fun x byte => x <<< 8 ||| byte.toNat) 0

/-- Puts the low bytes of `s` into the output, from the last of so many down to its byte 32. -/
def writeS : ℕ → ℕ → Bytes → Bytes
  | 0, _, output => output
  | count + 1, s, output => writeS count (s >>> 8) (output.set (32 + count) (UInt8.ofNat (s &&& 0xff)))

/-- Normalizes a 64-byte `r||s` signature to low-S, the only form TVC accepts. -/
def compactLowS (bytes : Bytes) : Except Thrown Bytes := do
  refuse (bytes.length ≠ 64) (spr "InvalidSignatureEncoding")
  let r := readInteger (bytes.take 32)
  let s := readInteger (bytes.drop 32)
  refuse (r = 0 ∨ P256_ORDER ≤ r ∨ s = 0 ∨ P256_ORDER ≤ s) (spr "InvalidSignature")
  if s ≤ P256_HALF_ORDER then return bytes
  else return writeS 32 (P256_ORDER - s) bytes

section Halves

/-- The first half of a signature. -/
def r (signature : Bytes) : ℕ := ofBigEndian (signature.take 32)

def s (signature : Bytes) : ℕ := ofBigEndian (signature.drop 32)

/-- Both halves are scalars that are not zero. -/
structure InRange (signature : Bytes) : Prop where
  length : signature.length = 64
  first : 0 < r signature ∧ r signature < P256_ORDER
  second : 0 < s signature ∧ s signature < P256_ORDER

variable {a b : ℕ} {bytes : Bytes}

theorem half_add_half : P256_HALF_ORDER + P256_HALF_ORDER + 1 = P256_ORDER := by decide

theorem order_lt : P256_ORDER < 256 ^ 32 := by decide

theorem readInteger_eq (bytes : Bytes) : readInteger bytes = ofBigEndian bytes := by
  have hstep : (fun (x : ℕ) (byte : UInt8) => x <<< 8 ||| byte.toNat) =
      fun x byte => x * 256 + byte.toNat := by
    funext x byte
    rw [← Nat.shiftLeft_add_eq_or_of_lt byte.toNat_lt, Nat.shiftLeft_eq]
  rw [readInteger, hstep, ofBigEndian]

theorem bigEndian_succ (w n : ℕ) : bigEndian (w + 1) n = bigEndian w (n / 256) ++ [UInt8.ofNat n] := by
  rw [bigEndian, Borsh.Codec.littleEndian, List.reverse_cons]
  rfl

/-- The bytes before the first that is written and those after the last stay. -/
theorem writeS_eq {count : ℕ} {n : ℕ} {output : Bytes} (h : 32 + count ≤ output.length) :
    writeS count n output = output.take 32 ++ bigEndian count n ++ output.drop (32 + count) := by
  induction count generalizing n output with
  | zero =>
    show output = output.take 32 ++ [] ++ output.drop 32
    rw [List.append_nil, List.take_append_drop]
  | succ count ih =>
    have hbyte : UInt8.ofNat (n &&& 0xff) = UInt8.ofNat n := by
      rw [show (0xff : ℕ) = 2 ^ 8 - 1 from rfl, Nat.and_two_pow_sub_one_eq_mod, UInt8.ofNat_mod_size]
    have hset : output.set (32 + count) (UInt8.ofNat n) =
        output.take (32 + count) ++ UInt8.ofNat n :: output.drop (32 + count + 1) :=
      List.set_eq_take_append_cons_drop.trans (if_pos (by omega))
    have htake : (output.take (32 + count)).length = 32 + count := List.length_take_of_le (by omega)
    rw [writeS, hbyte, Nat.shiftRight_eq_div_pow, ih (by rw [List.length_set]; omega), hset,
      List.drop_left' htake, List.take_append_of_le_length (by omega), List.take_take,
      Nat.min_eq_left (by omega), bigEndian_succ]
    simp [Nat.add_assoc]

/-- A signature made of two scalars has them as its halves. -/
theorem halves_append (ha : a < 256 ^ 32) (hb : b < 256 ^ 32) :
    (bigEndian 32 a ++ bigEndian 32 b).length = 64 ∧ r (bigEndian 32 a ++ bigEndian 32 b) = a ∧
      s (bigEndian 32 a ++ bigEndian 32 b) = b := by
  have hlength := length_bigEndian 32 a
  refine ⟨?_, ?_, ?_⟩
  · rw [List.length_append, hlength, length_bigEndian]
  · rw [r, List.take_left' hlength, ofBigEndian_bigEndian ha]
  · rw [s, List.drop_left' hlength, ofBigEndian_bigEndian hb]

/-- A signature is its halves. -/
theorem eq_append (h : bytes.length = 64) : bytes = bigEndian 32 (r bytes) ++ bigEndian 32 (s bytes) := by
  have hr : (bytes.take 32).length = 32 := List.length_take_of_le (by omega)
  have hs : (bytes.drop 32).length = 32 := by rw [List.length_drop, h]
  have hfirst := bigEndian_ofBigEndian (bytes.take 32)
  have hlast := bigEndian_ofBigEndian (bytes.drop 32)
  rw [hr] at hfirst
  rw [hs] at hlast
  rw [r, s, hfirst, hlast, List.take_append_drop]

end Halves

section Compact

variable {bytes output : Bytes}

/-- The lower of the two values of `s`. -/
def lowS (signature : Bytes) : ℕ :=
  if s signature ≤ P256_HALF_ORDER then s signature else P256_ORDER - s signature

theorem lowS_cases (signature : Bytes) :
    lowS signature = s signature ∨ lowS signature = P256_ORDER - s signature := by
  unfold lowS
  split_ifs
  · exact .inl rfl
  · exact .inr rfl

theorem lowS_le (signature : Bytes) : lowS signature ≤ P256_HALF_ORDER := by
  have horder := half_add_half
  unfold lowS
  split_ifs <;> omega

theorem lowS_pos (h : InRange bytes) : 0 < lowS bytes := by
  have hs := h.second
  unfold lowS
  split_ifs <;> omega

/-- What `compactLowS` returns. -/
theorem compactLowS_eq_ok : compactLowS bytes = .ok output ↔ InRange bytes ∧
    output = bigEndian 32 (r bytes) ++ bigEndian 32 (lowS bytes) := by
  have hr : readInteger (bytes.take 32) = r bytes := readInteger_eq _
  have hs : readInteger (bytes.drop 32) = s bytes := readInteger_eq _
  simp only [compactLowS, bind_eq_ok, refuse_eq_ok, exists_const, hr, hs, not_or, not_not]
  have hresult : bytes.length = 64 → ((if s bytes ≤ P256_HALF_ORDER then pure bytes
      else pure (writeS 32 (P256_ORDER - s bytes) bytes) : Except Thrown Bytes) = .ok output ↔
        output = bigEndian 32 (r bytes) ++ bigEndian 32 (lowS bytes)) := by
    intro hlength
    by_cases hlow : s bytes ≤ P256_HALF_ORDER
    · rw [if_pos hlow, lowS, if_pos hlow, pure_eq_ok, ← eq_append hlength, eq_comm]
    · have htake : bytes.take 32 = bigEndian 32 (r bytes) := by
        have hfirst := bigEndian_ofBigEndian (bytes.take 32)
        rw [List.length_take_of_le (by omega)] at hfirst
        exact hfirst.symm
      rw [if_neg hlow, lowS, if_neg hlow, pure_eq_ok, writeS_eq (by omega), htake,
        List.drop_of_length_le (by omega), List.append_nil, eq_comm]
  constructor
  · rintro ⟨hlength, ⟨hr0, hrn, hs0, hsn⟩, h⟩
    exact ⟨⟨hlength, by omega, by omega⟩, (hresult hlength).1 h⟩
  · rintro ⟨⟨hlength, hr, hs⟩, h⟩
    exact ⟨hlength, ⟨by omega, by omega, by omega, by omega⟩, (hresult hlength).2 h⟩

/-- Which error is thrown for a signature of another form. -/
theorem compactLowS_eq_error (h : ¬InRange bytes) : compactLowS bytes =
    .error (spr (if bytes.length = 64 then "InvalidSignature" else "InvalidSignatureEncoding")) := by
  have hr : readInteger (bytes.take 32) = r bytes := readInteger_eq _
  have hs : readInteger (bytes.drop 32) = s bytes := readInteger_eq _
  rw [compactLowS, hr, hs]
  by_cases hlength : bytes.length = 64
  · have hrange : r bytes = 0 ∨ P256_ORDER ≤ r bytes ∨ s bytes = 0 ∨ P256_ORDER ≤ s bytes := by
      by_contra hrange
      exact h ⟨hlength, by omega, by omega⟩
    rw [refuse, if_neg (not_not.2 hlength), if_pos hlength]
    simp only [ok_bind, refuse, if_pos hrange]
    rfl
  · rw [refuse, if_pos hlength, if_neg hlength]
    rfl

/-- `output` is the low form of a signature. -/
structure LowForm (signature output : Bytes) : Prop where
  length : output.length = 64
  first : r output = r signature
  second : s output = s signature ∨ s output = P256_ORDER - s signature
  low : s output ≤ P256_HALF_ORDER
  /-- Both halves are big-endian and padded with zeros. -/
  padded : output = bigEndian 32 (r output) ++ bigEndian 32 (s output)

theorem lowForm_of_ok (h : compactLowS bytes = .ok output) : LowForm bytes output ∧ InRange output := by
  obtain ⟨hrange, rfl⟩ := compactLowS_eq_ok.1 h
  have hlow := lowS_le bytes
  have hpos := lowS_pos hrange
  have horder := half_add_half
  have hlt := order_lt
  obtain ⟨hlength, hr, hs⟩ := @halves_append (r bytes) (lowS bytes) (hrange.first.2.trans hlt) (by omega)
  refine ⟨⟨hlength, hr, ?_, by rw [hs]; exact hlow, by rw [hr, hs]⟩, hlength, by rw [hr]; exact hrange.first,
    by rw [hs]; omega⟩
  rw [hs]
  exact lowS_cases bytes

theorem compactLowS_idempotent (h : compactLowS bytes = .ok output) : compactLowS output = .ok output := by
  obtain ⟨form, hrange⟩ := lowForm_of_ok h
  refine compactLowS_eq_ok.2 ⟨hrange, ?_⟩
  rw [lowS, if_pos form.low]
  exact form.padded

end Compact

section Verifiers

/-- What the `p256` crate and `@noble/curves` do with a signature of 64 bytes: both halves are scalars that
are not zero, a high S is above half the order, and the signature verifies when the halves do. -/
structure IsP256 (c : Crypto) (ecdsa : Bytes → ByteArrayOf 32 → ℕ → ℕ → Bool) : Prop where
  isSignature : ∀ b, b.length = 64 → (c.isSignature b = true ↔ InRange b)
  isHighS : ∀ b, InRange b → (c.isHighS b = true ↔ P256_ORDER / 2 < s b)
  verifyPrehash : ∀ key digest b, InRange b → c.verifyPrehash key digest b = ecdsa key digest (r b) (s b)

/-- A signature with `s` is as valid as one with `n - s`. -/
def Symmetric (ecdsa : Bytes → ByteArrayOf 32 → ℕ → ℕ → Bool) : Prop :=
  ∀ key digest a b, 0 < b → b < P256_ORDER → ecdsa key digest a (P256_ORDER - b) = ecdsa key digest a b

/-- The verifier takes the key. -/
def IsKey (c : Crypto) (key : Bytes) : Prop := Protocol.parseUncompressedSec1 c key = .ok key

variable {c : Crypto} {ecdsa : Bytes → ByteArrayOf 32 → ℕ → ℕ → Bool} {bytes output : Bytes}

/-- The low form passes the range and the low-S policy. -/
theorem passes_of_lowForm (hc : IsP256 c ecdsa) (form : LowForm bytes output) (hrange : InRange output) :
    rejectDer output = .ok () ∧ c.isSignature output = true ∧ c.isHighS output = false := by
  have hlength : output.length = RAW_P256_SIGNATURE_LEN := form.length
  refine ⟨?_, (hc.isSignature output form.length).2 hrange, ?_⟩
  · simp only [rejectDer, bind_eq_ok, refuse_eq_ok, exists_const, not_and, not_not]
    exact ⟨fun h => absurd hlength h, hlength⟩
  · rw [← Bool.not_eq_true, hc.isHighS output hrange]
    have horder := half_add_half
    have hlow := form.low
    omega

theorem ecdsa_lowForm (hsymmetric : Symmetric ecdsa) (form : LowForm bytes output) (hrange : InRange bytes)
    {key : Bytes} {digest : ByteArrayOf 32} :
    ecdsa key digest (r output) (s output) = ecdsa key digest (r bytes) (s bytes) := by
  rw [form.first]
  obtain hs | hs := form.second
  · rw [hs]
  · rw [hs]
    exact hsymmetric key digest _ _ hrange.second.1 hrange.second.2

/-- The low form is valid under a key when the signature is. -/
theorem verifies_lowForm (hc : IsP256 c ecdsa) (hsymmetric : Symmetric ecdsa) (form : LowForm bytes output)
    (hrange : InRange bytes) (hout : InRange output) {key : Bytes} {digest : ByteArrayOf 32} :
    c.Verifies key digest output ↔ IsKey c key ∧ ecdsa key digest (r bytes) (s bytes) = true := by
  obtain ⟨hder, hsignature, hlow⟩ := passes_of_lowForm hc form hout
  have hverify : ∀ k, c.verifyPrehash k digest output = ecdsa k digest (r bytes) (s bytes) := by
    intro k
    rw [hc.verifyPrehash k digest output hout, ecdsa_lowForm hsymmetric form hrange]
  simp only [Crypto.Verifies, Protocol.verifyP256Prehash, bind_eq_ok, refuse_eq_ok, hder, hsignature, hlow,
    hverify, IsKey]
  constructor
  · rintro ⟨k, hkey, h⟩
    have hsame : k = key := by
      simp only [Protocol.parseUncompressedSec1, bind_eq_ok, pure_eq_ok] at hkey
      obtain ⟨-, -, -, -, -, -, rfl⟩ := hkey
      rfl
    subst hsame
    exact ⟨hkey, by simpa using h⟩
  · rintro ⟨hkey, h⟩
    exact ⟨key, hkey, (), trivial, (), by simp, (), by simp, by simpa using h⟩

/-- A signature of 64 bytes whose halves are in range has its low form, which both verifiers take when the
signature is valid; every other is refused. -/
theorem compactLowS_verifies (crate noble : Crypto) (ecdsa : Bytes → ByteArrayOf 32 → ℕ → ℕ → Bool)
    (hcrate : IsP256 crate ecdsa) (hnoble : IsP256 noble ecdsa) (hsymmetric : Symmetric ecdsa)
    (bytes : Bytes) :
    (InRange bytes → ∃ output, compactLowS bytes = .ok output ∧ LowForm bytes output ∧
      compactLowS output = .ok output ∧
      (rejectDer output = .ok () ∧ crate.isSignature output = true ∧ crate.isHighS output = false) ∧
      parseRawLowS noble output = .ok output ∧ ∀ key digest,
        (Protocol.verifyP256Prehash crate key digest output = .ok () ↔
          IsKey crate key ∧ ecdsa key digest (r bytes) (s bytes) = true) ∧
        (verifyP256Prehash noble key digest output = .ok () ↔
          IsKey noble key ∧ ecdsa key digest (r bytes) (s bytes) = true)) ∧
    (¬InRange bytes → compactLowS bytes =
      .error (spr (if bytes.length = 64 then "InvalidSignature" else "InvalidSignatureEncoding"))) := by
  refine ⟨fun hrange => ?_, compactLowS_eq_error⟩
  have hok := compactLowS_eq_ok.2 ⟨hrange, rfl⟩
  obtain ⟨form, hout⟩ := lowForm_of_ok hok
  obtain ⟨hder, hsignature, hlow⟩ := passes_of_lowForm hnoble form hout
  refine ⟨_, hok, form, compactLowS_idempotent hok, passes_of_lowForm hcrate form hout, ?_, fun key digest =>
    ⟨verifies_lowForm hcrate hsymmetric form hrange hout, verifyP256Prehash_eq_ok.trans
      (verifies_lowForm hnoble hsymmetric form hrange hout)⟩⟩
  have hlength : RAW_P256_SIGNATURE_LEN = 64 := rfl
  simp [parseRawLowS, form.length, hlength, hsignature, hlow, refuse]
  rfl

end Verifiers

section Fixture

/-- The halves of a signature of the text `message`. -/
def fixtureR : ℕ := 0x0abb20c29b079d81414720f60322ec239b532adf78bee71c14f39f7becbb2cee

def fixtureS : ℕ := 0xd934b19e26cf61dc92f461b7d7f29bec6b124b84244d19dbf414f204db4e647f

def fixtureKey : Bytes :=
  4 :: bigEndian 32 0xe8ee1583ab18d8f3715ebb1d1010ea1594478a7add04f7a7859659e93277201e ++
    bigEndian 32 0xe72906f232147ced2a8acc274e92e7569ecf2606e17e7edd3ca2d31f9a62e402

def fixtureDigest : ByteArrayOf 32 :=
  ⟨bigEndian 32 0xab530a13e45914982b79f9b7e3fba994cfd1f3fb22f71cea1afbf02b460c6d1d, length_bigEndian ..⟩

def fixtureSignature : Bytes := bigEndian 32 fixtureR ++ bigEndian 32 fixtureS

/-- The signature, with either value of `s`, is the one of the key and the digest. -/
def fixtureEcdsa (key : Bytes) (digest : ByteArrayOf 32) (a b : ℕ) : Bool :=
  decide (key = fixtureKey ∧ digest = fixtureDigest ∧ a = fixtureR ∧
    (b = fixtureS ∨ b = P256_ORDER - fixtureS))

def fixtureCrypto : Crypto where
  sha256 _ := fixtureDigest
  isPoint key := decide (key = fixtureKey)
  isSignature b := decide (b.length = 64 ∧ (0 < r b ∧ r b < P256_ORDER) ∧ 0 < s b ∧ s b < P256_ORDER)
  isHighS b := decide (P256_ORDER / 2 < s b)
  verifyPrehash key digest b := fixtureEcdsa key digest (r b) (s b)

theorem isP256_fixture : IsP256 fixtureCrypto fixtureEcdsa where
  isSignature b _ := by
    refine decide_eq_true_iff.trans ⟨fun h => ⟨h.1, h.2.1, h.2.2⟩, fun h => ⟨h.length, h.first, h.second⟩⟩
  isHighS _ _ := decide_eq_true_iff
  verifyPrehash _ _ _ _ := rfl

theorem symmetric_fixture : Symmetric fixtureEcdsa := by
  intro key digest a b hpos hlt
  have hs : fixtureS < P256_ORDER := by decide
  have hswap : (P256_ORDER - b = fixtureS ∨ P256_ORDER - b = P256_ORDER - fixtureS) ↔
      (b = fixtureS ∨ b = P256_ORDER - fixtureS) := by omega
  simp only [fixtureEcdsa, hswap]

theorem inRange_fixture : InRange fixtureSignature := by
  obtain ⟨hlength, hr, hs⟩ := @halves_append fixtureR fixtureS (by decide) (by decide)
  exact ⟨hlength, by rw [fixtureSignature, hr]; decide, by rw [fixtureSignature, hs]; decide⟩

/-- A signature that a library made with a high S. -/
theorem compactLowS_verifies_fixture : ∃ output, compactLowS fixtureSignature = .ok output ∧
    Protocol.verifyP256Prehash fixtureCrypto fixtureKey fixtureDigest output = .ok () ∧
    verifyP256Prehash fixtureCrypto fixtureKey fixtureDigest output = .ok () := by
  obtain ⟨output, hok, -, -, -, -, hverify⟩ := (compactLowS_verifies fixtureCrypto fixtureCrypto fixtureEcdsa
    isP256_fixture isP256_fixture symmetric_fixture fixtureSignature).1 inRange_fixture
  obtain ⟨-, hr, hs⟩ := @halves_append fixtureR fixtureS (by decide) (by decide)
  have hvalid : fixtureEcdsa fixtureKey fixtureDigest (r fixtureSignature) (s fixtureSignature) = true := by
    rw [fixtureSignature, hr, hs]
    exact decide_eq_true ⟨rfl, rfl, rfl, .inl rfl⟩
  have hkey : IsKey fixtureCrypto fixtureKey := by
    simp only [IsKey, Protocol.parseUncompressedSec1, bind_eq_ok, refuse_eq_ok, pure_eq_ok, and_true]
    exact ⟨(), by decide +kernel, (), by decide +kernel, (), by decide +kernel⟩
  exact ⟨output, hok, (hverify _ _).1.2 ⟨hkey, hvalid⟩, (hverify _ _).2.2 ⟨hkey, hvalid⟩⟩

end Fixture

end ZolanaTvc.Wallet.LowS
