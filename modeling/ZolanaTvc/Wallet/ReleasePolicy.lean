import Mathlib.Algebra.Order.Floor.Semiring
import Mathlib.Data.Rat.Floor
import ZolanaTvc.Protocol.Release
import ZolanaTvc.Wallet.Text

/-!
# The client's release policy verifier

The client takes a policy as JSON has it: texts for byte strings and 64-bit integers, numbers for the
rest.
-/

namespace ZolanaTvc.Wallet

open Except Protocol Quorum

section P256

variable (c : Crypto)

def parseUncompressedSec1 (bytes : Bytes) : Except Thrown Bytes := do
  refuse (bytes.length = 33 ∧ (bytes.head? = some 2 ∨ bytes.head? = some 3))
    (spr "CompressedKeyRejected")
  refuse (bytes.length ≠ SEC1_UNCOMPRESSED_LEN ∨ bytes.head? ≠ some 4) (spr "InvalidPublicKey")
  refuse (c.isPoint bytes = false) (spr "InvalidPublicKey")
  return bytes

def parseRawLowS (signature : Bytes) : Except Thrown Bytes := do
  refuse (signature.length ≠ RAW_P256_SIGNATURE_LEN ∧ signature.head? = some 0x30)
    (spr "DerSignatureRejected")
  refuse (signature.length ≠ RAW_P256_SIGNATURE_LEN) (spr "InvalidSignature")
  refuse (c.isSignature signature = false) .platform
  refuse (c.isHighS signature = true) (spr "HighSSignature")
  return signature

def verifyP256Prehash (publicSec1 : Bytes) (digest : ByteArrayOf 32) (signature : Bytes) :
    Except Thrown Unit := do
  let _ ← parseUncompressedSec1 c publicSec1
  let sig ← parseRawLowS c signature
  refuse (c.verifyPrehash publicSec1 digest sig = false) (spr "InvalidSignature")

/-- With the same curve arithmetic the client accepts the signatures that the enclave accepts. -/
theorem verifyP256Prehash_eq_ok {c : Crypto} {key signature : Bytes} {digest : ByteArrayOf 32}
    {u : Unit} :
    verifyP256Prehash c key digest signature = .ok u ↔ c.Verifies key digest signature := by
  simp only [verifyP256Prehash, parseUncompressedSec1, parseRawLowS, Crypto.Verifies,
    Protocol.verifyP256Prehash, Protocol.parseUncompressedSec1, rejectDer, bind_eq_ok,
    refuse_eq_ok, pure_eq_ok, exists_const]
  constructor
  · rintro ⟨_, ⟨hcompressed, hsec1, hpoint, rfl⟩, _, ⟨hder, hlength, hscalars, hlow, rfl⟩, hverify⟩
    exact ⟨key, ⟨hcompressed, hsec1, hpoint, rfl⟩, ⟨hder, hlength⟩, hscalars, hlow, hverify⟩
  · rintro ⟨_, ⟨hcompressed, hsec1, hpoint, rfl⟩, ⟨hder, hlength⟩, hscalars, hlow, hverify⟩
    exact ⟨key, ⟨hcompressed, hsec1, hpoint, rfl⟩, signature,
      ⟨hder, hlength, hscalars, hlow, rfl⟩, hverify⟩

end P256

structure ReleasePolicy where
  version : ℚ
  releaseId : JsString
  network : Network
  tvcApplicationId : JsString
  securityDomainId : JsString
  acceptedManifestDigests : List JsString
  acceptedExecutableDigests : List JsString
  quorumKeyId : JsString
  quorumKeyEpoch : JsString
  quorumPublicKey : JsString
  allowedOperations : List OperationKind
  maxEncryptedRequestBytes : ℚ
  maxEncryptedResponseBytes : ℚ
  turnkeyTrustRootId : JsString
  turnkeyProofSchemaVersions : List JsString
  validFromMs : JsString
  expiresAtMs : JsString
  revocationEpoch : JsString

/-- A release authority's signature, hex. -/
structure ReleaseAuthoritySignature where
  keyId : JsString
  signature : JsString

structure SignedReleasePolicy where
  policy : ReleasePolicy
  authoritySetId : JsString
  signatures : List ReleaseAuthoritySignature

structure ReleaseAuthorityKey where
  keyId : JsString
  publicKey : JsString

structure PinnedReleaseAuthorities where
  authoritySetId : JsString
  threshold : ℚ
  keys : List ReleaseAuthorityKey
  minimumRevocationEpoch : JsString

def PinnedReleaseAuthorities.roll (authorities : PinnedReleaseAuthorities) :
    List (JsString × JsString) :=
  authorities.keys.map fun key => (key.keyId, key.publicKey)

def SignedReleasePolicy.ballots (signed : SignedReleasePolicy) : List (JsString × JsString) :=
  signed.signatures.map fun signature => (signature.keyId, signature.signature)

/-- The verification of a signature in hex. -/
def verifyHexSignature (c : Crypto) (digest : ByteArrayOf 32) (publicKey : Bytes)
    (signature : JsString) : Except Thrown Unit := do
  let signature ← decodeLowerHex signature
  verifyP256Prehash c publicKey digest signature

/-- Accepts `signed` only for `network`, at a threshold of `authorities`, while `nowMs` is inside its
validity window. `policySigningDigest` is the digest of the canonical policy. -/
def verifySignedReleasePolicy (c : Crypto) (policySigningDigest : ReleasePolicy → ByteArrayOf 32)
    (signed : SignedReleasePolicy) (authorities : PinnedReleaseAuthorities) (network : Network)
    (nowMs : ℤ) : Except Thrown Unit := do
  refuse (signed.policy.version ≠ 1) (spr "UnsupportedVersion")
  refuse (signed.policy.network ≠ network) (spr "NetworkMismatch")
  refuse (authorities.threshold < 1 ∨ authorities.keys = []) (spr "ReleasePolicyInvalid")
  refuse (signed.authoritySetId ≠ authorities.authoritySetId) (spr "ReleasePolicyInvalid")
  refuse (signed.policy.turnkeyTrustRootId ≠ utf16Units EXPECTED_TURNKEY_TRUST_ROOT_ID)
    (spr "ReleasePolicyInvalid")
  let revocationEpoch ← ofOption (bigInt signed.policy.revocationEpoch) .platform
  let minimum ← ofOption (bigInt authorities.minimumRevocationEpoch) .platform
  refuse (revocationEpoch < minimum) (spr "ReleasePolicyInvalid")
  let validFrom ← ofOption (bigInt signed.policy.validFromMs) .platform
  let expires ← ofOption (bigInt signed.policy.expiresAtMs) .platform
  refuse (nowMs < validFrom ∨ nowMs > expires) (spr "ExpiredRequest")
  refuse (signed.signatures = []) (spr "ReleasePolicyInvalid")
  let byId ← index decodeLowerHex (spr "ReleasePolicyInvalid") authorities.roll []
  let duplicates := repeated (signed.ballots.map Prod.fst) [] []
  let digest := policySigningDigest signed.policy
  let accepted ← tally (verifyHexSignature c digest) (fun accepted => .ok (accepted + 1)) byId
    duplicates signed.ballots (0 : ℕ)
  refuse ((accepted : ℚ) < authorities.threshold) (spr "ReleasePolicyInvalid")

/-- What the verifier checks of a policy before it looks at the signatures. -/
structure Admissible (signed : SignedReleasePolicy) (authorities : PinnedReleaseAuthorities)
    (network : Network) (nowMs : ℤ) : Prop where
  version : signed.policy.version = 1
  network : signed.policy.network = network
  threshold : 1 ≤ authorities.threshold
  keys : authorities.keys ≠ []
  authoritySetId : signed.authoritySetId = authorities.authoritySetId
  trustRoot : signed.policy.turnkeyTrustRootId = utf16Units EXPECTED_TURNKEY_TRUST_ROOT_ID
  unrevoked : ∃ epoch minimum, bigInt signed.policy.revocationEpoch = some epoch ∧
    bigInt authorities.minimumRevocationEpoch = some minimum ∧ minimum ≤ epoch
  current : ∃ validFrom expires, bigInt signed.policy.validFromMs = some validFrom ∧
    bigInt signed.policy.expiresAtMs = some expires ∧ validFrom ≤ nowMs ∧ nowMs ≤ expires
  signatures : signed.signatures ≠ []

/-- The signature verifies for the digest under the key, both in hex. -/
def HexVerifies (c : Crypto) (digest : ByteArrayOf 32) (key signature : JsString) : Prop :=
  ∃ k s, decodeLowerHex key = .ok k ∧ decodeLowerHex signature = .ok s ∧ c.Verifies k digest s

theorem checks_hexSignature {c : Crypto} {digest : ByteArrayOf 32} {key signature : JsString} :
    Checks decodeLowerHex (verifyHexSignature c digest) key signature ↔
      HexVerifies c digest key signature := by
  simp only [Checks, verifyHexSignature, bind_eq_ok, verifyP256Prehash_eq_ok, HexVerifies]
  exact exists_congr fun k => exists_and_left.symm

theorem advance_count {n a b : ℕ} :
    advance (fun accepted => (.ok (accepted + 1) : Except Thrown ℕ)) n a = .ok b ↔ b = a + n := by
  induction n generalizing a with
  | zero => simp [advance, eq_comm]
  | succ n ih =>
    simp only [advance, bind_eq_ok, Except.ok.injEq, exists_eq_left', ih]
    omega

/-- A policy accepted is admissible, every pinned key is hex, and the authorities carried it. -/
theorem verifySignedReleasePolicy_eq_ok {c : Crypto} {digest : ReleasePolicy → ByteArrayOf 32}
    {signed : SignedReleasePolicy} {authorities : PinnedReleaseAuthorities} {network : Network}
    {nowMs : ℤ} {u : Unit} :
    verifySignedReleasePolicy c digest signed authorities network nowMs = .ok u ↔
      Admissible signed authorities network nowMs ∧
      (∀ key ∈ authorities.roll.map Prod.snd, ∃ bytes, decodeLowerHex key = .ok bytes) ∧
      Carried (HexVerifies c (digest signed.policy)) authorities.roll signed.ballots
        ⌈authorities.threshold⌉₊ := by
  simp only [verifySignedReleasePolicy, bind_eq_ok, refuse_eq_ok, exists_const, ofOption_eq_ok,
    not_not, not_or, gt_iff_lt, not_lt]
  constructor
  · rintro ⟨hversion, hnetwork, ⟨hthreshold, hkeys⟩, hset, hroot, epoch, hepoch, minimum, hminimum,
      hunrevoked, validFrom, hfrom, expires, hexpires, hcurrent, hsignatures, m, hindex, accepted,
      htally, henough⟩
    -- The count starts at zero, so what it ends with is the number of distinct key ids.
    obtain ⟨hvalid, hcount⟩ := (poll_eq_ok hindex).1 htally
    obtain ⟨hnodup, -, hreads⟩ := exists_index_iff.1 ⟨m, hindex⟩
    rw [advance_count, zero_add] at hcount
    refine ⟨⟨hversion, hnetwork, hthreshold, hkeys, hset, hroot,
      ⟨epoch, minimum, hepoch, hminimum, hunrevoked⟩,
      ⟨validFrom, expires, hfrom, hexpires, hcurrent⟩, hsignatures⟩, hreads, ⟨hnodup, ?_, ?_⟩⟩
    · intro id hid key signature hkey hsignature
      exact checks_hexSignature.1 (hvalid id hid key signature hkey hsignature)
    · rw [← hcount]
      exact Nat.ceil_le.2 henough
  · rintro ⟨hadmissible, hreads, hcarried⟩
    obtain ⟨m, hindex⟩ :
        ∃ m, index decodeLowerHex (spr "ReleasePolicyInvalid") authorities.roll [] = .ok m :=
      exists_index_iff.2 ⟨hcarried.roll_nodup, by simp, hreads⟩
    obtain ⟨epoch, minimum, hepoch, hminimum, hunrevoked⟩ := hadmissible.unrevoked
    obtain ⟨validFrom, expires, hfrom, hexpires, hcurrent⟩ := hadmissible.current
    refine ⟨hadmissible.version, hadmissible.network, ⟨hadmissible.threshold, hadmissible.keys⟩,
      hadmissible.authoritySetId, hadmissible.trustRoot, epoch, hepoch, minimum, hminimum,
      hunrevoked, validFrom, hfrom, expires, hexpires, hcurrent, hadmissible.signatures, m, hindex,
      (countedIds authorities.roll signed.ballots).card, (poll_eq_ok hindex).2 ⟨?_, ?_⟩,
      Nat.ceil_le.1 hcarried.threshold_le⟩
    · intro id hid key signature hkey hsignature
      exact checks_hexSignature.2 (hcarried.valid id hid key signature hkey hsignature)
    · rw [advance_count, zero_add]

end ZolanaTvc.Wallet
