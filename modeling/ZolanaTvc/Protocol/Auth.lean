import ZolanaTvc.Control.Except
import ZolanaTvc.Protocol.Digest

/-!
# Signatures, client authorization and wallet grants

The curve arithmetic of the `p256` crate and SHA-256 are parameters, and so is what they accept.
-/

namespace ZolanaTvc.Protocol

open Except

/-- The codes of the errors that verification gives. -/
inductive ErrorCode where
  | unsupportedVersion
  | releaseBindingMismatch
  | quorumKeyEpochMismatch
  | invalidWalletDescriptor
  | walletBindingMismatch
  | unauthorizedClient
  | expiredRequest
  | invalidCanonicalJson
  | invalidPublicKey
  | invalidSignature
  | highSSignature
  | derSignatureRejected
  | compressedKeyRejected
  | networkMismatch
  | releasePolicyInvalid
  | descriptorExpired
  | invalidEncryptedEnvelope
deriving DecidableEq

/-- What the protocol takes from the crates `sha2` and `p256`. -/
structure Crypto where
  sha256 : Bytes → ByteArrayOf 32
  /-- `PublicKey::from_encoded_point`: the bytes are a point of the curve. -/
  isPoint : Bytes → Bool
  /-- `Signature::from_slice`: the halves of the signature are scalars. -/
  isSignature : Bytes → Bool
  /-- `normalize_s` returns another signature. -/
  isHighS : Bytes → Bool
  /-- `verify_prehash` -/
  verifyPrehash : Bytes → ByteArrayOf 32 → Bytes → Bool

section Crypto

variable (c : Crypto)

def parseUncompressedSec1 (bytes : Bytes) : Except ErrorCode Bytes := do
  refuse (bytes.length = 33 ∧ (bytes.head? = some 2 ∨ bytes.head? = some 3)) .compressedKeyRejected
  refuse (bytes.length ≠ SEC1_UNCOMPRESSED_LEN ∨ bytes.head? ≠ some 4) .invalidPublicKey
  refuse (c.isPoint bytes = false) .invalidPublicKey
  return bytes

def rejectDer (signature : Bytes) : Except ErrorCode Unit := do
  refuse (signature.length ≠ RAW_P256_SIGNATURE_LEN ∧ signature.head? = some 0x30)
    .derSignatureRejected
  refuse (signature.length ≠ RAW_P256_SIGNATURE_LEN) .invalidSignature

/-- Verify a 64-byte raw low-S signature over an already hashed digest. -/
def verifyP256Prehash (publicSec1 : Bytes) (digest : ByteArrayOf 32) (signature : Bytes) :
    Except ErrorCode Unit := do
  let verifyingKey ← parseUncompressedSec1 c publicSec1
  rejectDer signature
  refuse (c.isSignature signature = false) .invalidSignature
  refuse (c.isHighS signature = true) .highSSignature
  refuse (c.verifyPrehash verifyingKey digest signature = false) .invalidSignature

/-- The ID a request names its client key by, as descriptors and grants do. -/
def clientKeyId (clientPublicKey : Bytes) : String :=
  CLIENT_KEY_ID_PREFIX ++ encodeLowerHex ((c.sha256 clientPublicKey).val.take 16)

def verifyClientAuthorization (request : OperationRequest) (clientPublicSec1 : Bytes) :
    Except ErrorCode Unit := do
  refuse (request.authorization.clientKeyId = "") .unauthorizedClient
  let requestDigest ← ofOption (requestDigest c.sha256 request) .invalidCanonicalJson
  let digest := clientAuthDigest c.sha256 requestDigest
  expect (verifyP256Prehash c clientPublicSec1 digest request.authorization.signature)
    .unauthorizedClient

/-- `u64::saturating_add` -/
def saturatingAdd (a b : UInt64) : UInt64 := if a.toNat + b.toNat < 2 ^ 64 then a + b else -1

/-- `u64::checked_sub` -/
def checkedSub (a b : UInt64) : Option UInt64 := if b ≤ a then some (a - b) else none

def WalletDescriptor.checkCurrent (d : WalletDescriptor) (nowMs : UInt64) : Except ErrorCode Unit :=
  refuse (nowMs > saturatingAdd d.expiresAtMs MAX_CLOCK_SKEW_MS) .descriptorExpired

/-- Accepts a grant signed by `grantPublic` for exactly this descriptor and client key, issued no later
than the clock allows, unexpired at `nowMs`, and no longer lived than
`MAX_WALLET_GRANT_LIFETIME_MS`. -/
def verifyWalletGrant (grant : WalletGrant) (grantPublic : Bytes) (descriptor : WalletDescriptor)
    (clientKeyId : String) (nowMs : UInt64) : Except ErrorCode Unit := do
  refuse (grant.version ≠ API_VERSION) .unsupportedVersion
  let digest ← ofOption (walletGrantDigest c.sha256 grant) .invalidCanonicalJson
  expect (verifyP256Prehash c grantPublic digest grant.signature) .unauthorizedClient
  let digest ← ofOption (descriptorDigest c.sha256 descriptor) .invalidCanonicalJson
  refuse (grant.descriptorDigest ≠ digest ∨ grant.clientKeyId ≠ clientKeyId) .unauthorizedClient
  refuse (¬((checkedSub grant.expiresAtMs grant.issuedAtMs).any
      fun lifetime => lifetime ≤ MAX_WALLET_GRANT_LIFETIME_MS) ∨
    grant.issuedAtMs > saturatingAdd nowMs MAX_CLOCK_SKEW_MS ∨
    saturatingAdd grant.expiresAtMs MAX_CLOCK_SKEW_MS < nowMs) .expiredRequest

end Crypto

/-- The signature verifies for the digest under the key. -/
def Crypto.Verifies (c : Crypto) (publicSec1 : Bytes) (digest : ByteArrayOf 32)
    (signature : Bytes) : Prop :=
  verifyP256Prehash c publicSec1 digest signature = .ok ()

variable {c : Crypto}

theorem toNat_saturatingAdd (a b : UInt64) :
    (saturatingAdd a b).toNat = min (a.toNat + b.toNat) (2 ^ 64 - 1) := by
  unfold saturatingAdd
  split_ifs with h
  · rw [UInt64.toNat_add, Nat.mod_eq_of_lt h]
    omega
  · have hmax : (-1 : UInt64).toNat = 2 ^ 64 - 1 := by decide
    rw [hmax]
    omega

theorem lt_saturatingAdd_iff {a b n : UInt64} :
    n > saturatingAdd a b ↔ a.toNat + b.toNat < n.toNat := by
  have hn := n.toNat_lt
  rw [gt_iff_lt, UInt64.lt_iff_toNat_lt, toNat_saturatingAdd]
  omega

/-- An authorization accepted is a signature of the client key over the digest of the request. -/
theorem verifyClientAuthorization_eq_ok {r : OperationRequest} {key : Bytes} {u : Unit} :
    verifyClientAuthorization c r key = .ok u ↔ r.authorization.clientKeyId ≠ "" ∧
      ∃ d, requestDigest c.sha256 r = some d ∧
        c.Verifies key (clientAuthDigest c.sha256 d) r.authorization.signature := by
  simp only [verifyClientAuthorization, bind_eq_ok, refuse_eq_ok, ofOption_eq_ok, expect_eq_ok,
    exists_const, Crypto.Verifies, ne_eq]

theorem checkCurrent_eq_ok {d : WalletDescriptor} {now : UInt64} {u : Unit} :
    d.checkCurrent now = .ok u ↔ now.toNat ≤ d.expiresAtMs.toNat + MAX_CLOCK_SKEW_MS.toNat := by
  rw [WalletDescriptor.checkCurrent, refuse_eq_ok, lt_saturatingAdd_iff, Nat.not_lt]

/-- A grant in force at a clock reading. -/
structure GrantInForce (c : Crypto) (grant : WalletGrant) (grantPublic : Bytes)
    (descriptor : WalletDescriptor) (clientKeyId : String) (now : UInt64) : Prop where
  version : grant.version = API_VERSION
  signed : ∃ d, walletGrantDigest c.sha256 grant = some d ∧ c.Verifies grantPublic d grant.signature
  descriptor : descriptorDigest c.sha256 descriptor = some grant.descriptorDigest
  client : grant.clientKeyId = clientKeyId
  ordered : grant.issuedAtMs.toNat ≤ grant.expiresAtMs.toNat
  lifetime : grant.expiresAtMs.toNat ≤
    grant.issuedAtMs.toNat + MAX_WALLET_GRANT_LIFETIME_MS.toNat
  issued : grant.issuedAtMs.toNat ≤ now.toNat + MAX_CLOCK_SKEW_MS.toNat
  unexpired : now.toNat ≤ grant.expiresAtMs.toNat + MAX_CLOCK_SKEW_MS.toNat

theorem verifyWalletGrant_eq_ok {grant : WalletGrant} {key : Bytes} {d : WalletDescriptor}
    {client : String} {now : UInt64} {u : Unit} :
    verifyWalletGrant c grant key d client now = .ok u ↔ GrantInForce c grant key d client now := by
  have hlifetime : (checkedSub grant.expiresAtMs grant.issuedAtMs).any
      (fun lifetime => lifetime ≤ MAX_WALLET_GRANT_LIFETIME_MS) = true ↔
      grant.issuedAtMs.toNat ≤ grant.expiresAtMs.toNat ∧ grant.expiresAtMs.toNat ≤
        grant.issuedAtMs.toNat + MAX_WALLET_GRANT_LIFETIME_MS.toNat := by
    unfold checkedSub
    split_ifs with hle
    · rw [UInt64.le_iff_toNat_le] at hle
      rw [Option.any_some, decide_eq_true_iff, UInt64.le_iff_toNat_le,
        UInt64.toNat_sub_of_le _ _ (UInt64.le_iff_toNat_le.2 hle)]
      omega
    · rw [UInt64.le_iff_toNat_le] at hle
      simp [hle]
  simp only [verifyWalletGrant, bind_eq_ok, refuse_eq_ok, ofOption_eq_ok, expect_eq_ok, exists_const,
    not_or, not_not, hlifetime, lt_saturatingAdd_iff, not_lt]
  constructor
  · rintro ⟨hversion, g, hg, _, hverified, _, hd, ⟨rfl, hclient⟩, ⟨hordered, hlifetime⟩, hissued,
      hunexpired⟩
    exact ⟨hversion, ⟨g, hg, hverified⟩, hd, hclient, hordered, hlifetime, hissued, hunexpired⟩
  · rintro ⟨hversion, ⟨g, hg, hverified⟩, hd, hclient, hordered, hlifetime, hissued, hunexpired⟩
    exact ⟨hversion, g, hg, (), hverified, _, hd, ⟨rfl, hclient⟩, ⟨hordered, hlifetime⟩, hissued,
      hunexpired⟩

end ZolanaTvc.Protocol
