import ZolanaTvc.Protocol.Auth
import ZolanaTvc.Protocol.RoundTrip
import ZolanaTvc.Quorum.Threshold

/-!
# Release policy signatures

A release policy is signed by independently pinned authorities. Duplicate and unknown key IDs do not
count toward the threshold.
-/

namespace ZolanaTvc.Protocol

open Except Quorum

structure ReleaseAuthorityKey where
  keyId : String
  publicKey : Bytes
deriving DecidableEq

structure PinnedReleaseAuthorities where
  authoritySetId : String
  threshold : UInt8
  keys : List ReleaseAuthorityKey
  /-- Policies below the epoch are revoked. -/
  minimumRevocationEpoch : UInt64
deriving DecidableEq

/-- The public keys under their ids. -/
def PinnedReleaseAuthorities.roll (authorities : PinnedReleaseAuthorities) :
    List (String × Bytes) :=
  authorities.keys.map fun key => (key.keyId, key.publicKey)

/-- The signatures under the ids of their keys. -/
def SignedReleasePolicy.ballots (signed : SignedReleasePolicy) : List (String × Bytes) :=
  signed.signatures.map fun signature => (signature.keyId, signature.signature)

/-- `checked_add(1)` on the count of accepted signatures. -/
def countAccepted (accepted : UInt8) : Except ErrorCode UInt8 := do
  refuse (accepted = 255) .releasePolicyInvalid
  return accepted + 1

def verifySignedReleasePolicy (c : Crypto) (signed : SignedReleasePolicy)
    (authorities : PinnedReleaseAuthorities) (network : Network) (nowMs : UInt64) :
    Except ErrorCode Unit := do
  refuse (signed.policy.version ≠ API_VERSION) .unsupportedVersion
  refuse (signed.policy.network ≠ network) .networkMismatch
  refuse (authorities.threshold = 0 ∨ authorities.keys = []) .releasePolicyInvalid
  refuse (signed.authoritySetId ≠ authorities.authoritySetId) .releasePolicyInvalid
  refuse (signed.policy.turnkeyTrustRootId ≠ EXPECTED_TURNKEY_TRUST_ROOT_ID) .releasePolicyInvalid
  refuse (signed.policy.revocationEpoch < authorities.minimumRevocationEpoch) .releasePolicyInvalid
  refuse (nowMs < signed.policy.validFromMs ∨ nowMs > signed.policy.expiresAtMs) .expiredRequest
  refuse (signed.signatures = []) .releasePolicyInvalid
  let byId ← index Except.ok .releasePolicyInvalid authorities.roll []
  let duplicates := repeated (signed.ballots.map Prod.fst) [] []
  let digest ← ofOption (policySigningDigest c.sha256 signed.policy) .invalidCanonicalJson
  let accepted ← tally (fun key signature => verifyP256Prehash c key digest signature) countAccepted
    byId duplicates signed.ballots 0
  refuse (accepted < authorities.threshold) .releasePolicyInvalid

/-- What the verifier checks of a policy before it looks at the signatures. -/
structure Admissible (signed : SignedReleasePolicy) (authorities : PinnedReleaseAuthorities)
    (network : Network) (nowMs : UInt64) : Prop where
  version : signed.policy.version = API_VERSION
  network : signed.policy.network = network
  threshold : authorities.threshold ≠ 0
  keys : authorities.keys ≠ []
  authoritySetId : signed.authoritySetId = authorities.authoritySetId
  trustRoot : signed.policy.turnkeyTrustRootId = EXPECTED_TURNKEY_TRUST_ROOT_ID
  unrevoked : authorities.minimumRevocationEpoch.toNat ≤ signed.policy.revocationEpoch.toNat
  validFrom : signed.policy.validFromMs.toNat ≤ nowMs.toNat
  unexpired : nowMs.toNat ≤ signed.policy.expiresAtMs.toNat
  signatures : signed.signatures ≠ []

theorem advance_countAccepted {n : ℕ} {a b : UInt8} :
    advance countAccepted n a = .ok b ↔ a.toNat + n ≤ 255 ∧ b.toNat = a.toNat + n := by
  induction n generalizing a with
  | zero =>
    have ha := a.toNat_lt
    rw [advance, Except.ok.injEq, ← UInt8.toNat_inj]
    omega
  | succ n ih =>
    simp only [advance, countAccepted, bind_eq_ok, refuse_eq_ok, pure_eq_ok, exists_const, ih]
    constructor
    · rintro ⟨a', ⟨hne, rfl⟩, hle, hb⟩
      have ha := a.toNat_lt
      rw [← UInt8.toNat_inj] at hne
      have hsucc : (a + 1).toNat = a.toNat + 1 := by
        rw [UInt8.toNat_add]
        have : (255 : UInt8).toNat = 255 := rfl
        have : (1 : UInt8).toNat = 1 := rfl
        omega
      omega
    · rintro ⟨hle, hb⟩
      have hne : a ≠ 255 := by
        rintro rfl
        have : (255 : UInt8).toNat = 255 := rfl
        omega
      have hsucc : (a + 1).toNat = a.toNat + 1 := by
        rw [UInt8.toNat_add]
        have : (1 : UInt8).toNat = 1 := rfl
        omega
      exact ⟨a + 1, ⟨hne, rfl⟩, by omega, by omega⟩

theorem exists_policySigningDigest (sha256 : Bytes → ByteArrayOf 32) (policy : ReleasePolicy) :
    ∃ digest, policySigningDigest sha256 policy = some digest := by
  obtain ⟨t, ht⟩ := exists_canonicalize_iff.2 (ReleasePolicy.fits 0 policy).integral
  have hinput : policySigningDigestInput policy = _ := congrArg (Option.map _) ht
  exact ⟨_, congrArg (Option.map sha256) hinput⟩

/-- A policy accepted is admissible, and the authorities carried it: the counted signatures verify
over its digest, as many as the threshold asks and no more than the counter holds. -/
theorem verifySignedReleasePolicy_eq_ok {c : Crypto} {signed : SignedReleasePolicy}
    {authorities : PinnedReleaseAuthorities} {network : Network} {nowMs : UInt64} {u : Unit}
    {digest : ByteArrayOf 32} (hdigest : policySigningDigest c.sha256 signed.policy = some digest) :
    verifySignedReleasePolicy c signed authorities network nowMs = .ok u ↔
      Admissible signed authorities network nowMs ∧
      Carried (fun key signature => c.Verifies key digest signature) authorities.roll
        signed.ballots authorities.threshold.toNat ∧
      (countedIds authorities.roll signed.ballots).card ≤ 255 := by
  have hchecks : ∀ key signature, Checks Except.ok
      (fun key signature => verifyP256Prehash c key digest signature) key signature ↔
        c.Verifies key digest signature := by
    intro key signature
    simp [Checks, Crypto.Verifies]
  simp only [verifySignedReleasePolicy, bind_eq_ok, refuse_eq_ok, exists_const, hdigest,
    ofOption_eq_ok, Option.some.injEq, exists_eq_left', not_not, not_or, gt_iff_lt,
    UInt64.lt_iff_toNat_lt, UInt8.lt_iff_toNat_lt, not_lt]
  constructor
  · rintro ⟨hversion, hnetwork, ⟨hthreshold, hkeys⟩, hset, hroot, hepoch, ⟨hfrom, hexpires⟩,
      hsignatures, m, hindex, accepted, htally, henough⟩
    obtain ⟨hvalid, hcount⟩ := (poll_eq_ok hindex).1 htally
    -- The count is the number of distinct ids, and no more than fits a `u8`.
    obtain ⟨hle, hnat⟩ := advance_countAccepted.1 hcount
    have hzero : (0 : UInt8).toNat = 0 := rfl
    refine ⟨⟨hversion, hnetwork, hthreshold, hkeys, hset, hroot, hepoch, hfrom, hexpires,
      hsignatures⟩, ⟨(exists_index_iff.1 ⟨m, hindex⟩).1, ?_, by omega⟩, by omega⟩
    intro id hid key signature hkey hsignature
    exact (hchecks key signature).1 (hvalid id hid key signature hkey hsignature)
  · rintro ⟨hadmissible, hcarried, hcard⟩
    obtain ⟨m, hindex⟩ :
        ∃ m, index Except.ok ErrorCode.releasePolicyInvalid authorities.roll [] = .ok m :=
      exists_index_iff.2 ⟨hcarried.roll_nodup, by simp, fun key _ => ⟨key, rfl⟩⟩
    -- With at most 255 of them the counter does not overflow.
    have hnat := hcarried.threshold_le
    refine ⟨hadmissible.version, hadmissible.network, ⟨hadmissible.threshold, hadmissible.keys⟩,
      hadmissible.authoritySetId, hadmissible.trustRoot, hadmissible.unrevoked,
      ⟨hadmissible.validFrom, hadmissible.unexpired⟩, hadmissible.signatures, m, hindex,
      UInt8.ofNat (countedIds authorities.roll signed.ballots).card, (poll_eq_ok hindex).2 ⟨?_, ?_⟩,
      ?_⟩
    · intro id hid key signature hkey hsignature
      exact (hchecks key signature).2 (hcarried.valid id hid key signature hkey hsignature)
    · rw [advance_countAccepted, UInt8.toNat_ofNat', Nat.mod_eq_of_lt (by omega)]
      have hzero : (0 : UInt8).toNat = 0 := rfl
      omega
    · rw [UInt8.toNat_ofNat', Nat.mod_eq_of_lt (by omega)]
      exact hnat

end ZolanaTvc.Protocol
