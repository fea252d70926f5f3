import ZolanaTvc.Gateway.Project
import ZolanaTvc.Gateway.Error
import ZolanaTvc.Protocol.Auth
import ZolanaTvc.Protocol.RoundTrip

/-!
# What the gateway signs

The provisioning key signs the descriptors of enrolled client keys, the grant key a grant for each
operation that is forwarded.
-/

namespace ZolanaTvc.Gateway

open Protocol Except

/-- The curve arithmetic of `p256`, with signing. -/
structure SigningCrypto extends Crypto where
  /-- `sign_p256_prehash`, from the secret. -/
  signP256Prehash : ByteArrayOf 32 → ByteArrayOf 32 → Option (ByteArrayOf RAW_P256_SIGNATURE_LEN)

/-- Signs the grant, replacing any signature it carries. -/
def signWalletGrant (c : SigningCrypto) (grant : WalletGrant) (secret : ByteArrayOf 32) :
    Option WalletGrant := do
  let grant := { grant with signature := [] }
  let signature ← c.signP256Prehash secret (← walletGrantDigest c.sha256 grant)
  return { grant with signature := signature.val }

/-- A validated enrollment request. -/
structure EnrollmentInput where
  organizationId : String
  turnkeyWalletId : String
  solanaAddress : String
  ownerPublicKey : ByteArrayOf 32
  clientPublicKey : ByteArrayOf SEC1_UNCOMPRESSED_LEN
  /-- When the owner signed, in Unix ms. -/
  issuedAtMs : UInt64

/-- Holds the provisioning key and the release policy descriptors are issued under. -/
structure Provisioner where
  secret : ByteArrayOf 32
  publicKey : ByteArrayOf SEC1_UNCOMPRESSED_LEN
  policy : ReleasePolicy
  descriptorTtlMs : UInt64

namespace Provisioner

/-- Refuses to issue descriptors once the release has expired. -/
def checkCurrent (p : Provisioner) (nowMs : UInt64) : Except ApiError Unit :=
  refuse (nowMs > p.policy.expiresAtMs) .releaseExpired

def sign (c : SigningCrypto) (p : Provisioner) (input : EnrollmentInput) :
    Except ApiError WalletDescriptor := do
  let descriptor : WalletDescriptor :=
    { version := API_VERSION
      securityDomainId := p.policy.securityDomainId
      network := p.policy.network
      turnkeyOrganizationId := input.organizationId
      turnkeyWalletId := input.turnkeyWalletId
      address := input.solanaAddress
      allowedClients := [⟨input.clientPublicKey.val, p.policy.allowedOperations⟩]
      expiresAtMs := saturatingAdd input.issuedAtMs p.descriptorTtlMs
      provisioningSignature := [] }
  let digest ← ofOption (descriptorDigest c.sha256 descriptor) .provisionerUnavailable
  let signature ← ofOption (c.signP256Prehash p.secret digest) .provisionerUnavailable
  return { descriptor with provisioningSignature := signature.val }

/-- Accepts a descriptor this provisioner signed under the current release that has not expired at
`nowMs`, with the protocol's clock skew. -/
def verify (c : SigningCrypto) (p : Provisioner) (descriptor : WalletDescriptor) (nowMs : UInt64) :
    Except ApiError Unit := do
  refuse (descriptor.version ≠ API_VERSION ∨
    descriptor.securityDomainId ≠ p.policy.securityDomainId ∨
    descriptor.network ≠ p.policy.network ∨ descriptor.allowedClients.length ≠ 1) .invalidDescriptor
  let digest ← ofOption (descriptorDigest c.sha256 descriptor) .invalidDescriptor
  expect (verifyP256Prehash c.toCrypto p.publicKey.val digest descriptor.provisioningSignature)
    .invalidDescriptor
  expect (descriptor.checkCurrent nowMs) .descriptorExpired

end Provisioner

/-- Holds the grant key. `new` checks the lifetime. -/
structure WalletGrants where
  secret : ByteArrayOf 32
  lifetimeMs : UInt64
  revokedClientKeyIds : List String
  bounded : 0 < lifetimeMs ∧ lifetimeMs ≤ MAX_WALLET_GRANT_LIFETIME_MS

namespace WalletGrants

def unrevoked (g : WalletGrants) (clientKeyId : String) : Except ApiError String := do
  refuse (clientKeyId ∈ g.revokedClientKeyIds) .clientKeyRevoked
  return clientKeyId

/-- Refuses a revoked client key before any Turnkey call is spent on it. -/
def checkClientKey (c : SigningCrypto) (g : WalletGrants) (clientPublicKey : Bytes) :
    Except ApiError Unit :=
  (g.unrevoked (clientKeyId c.toCrypto clientPublicKey)).map fun _ => ()

/-- A grant for the descriptor's only client key, attributed to the project. -/
def issue (c : SigningCrypto) (g : WalletGrants) (project : ProjectId) (descriptor : WalletDescriptor)
    (nowMs : UInt64) : Except ApiError WalletGrant :=
  match descriptor.allowedClients with
  | [client] => do
    let clientKeyId ← g.unrevoked (clientKeyId c.toCrypto client.clientPublicKey)
    let digest ← ofOption (descriptorDigest c.sha256 descriptor) .walletGrantUnavailable
    let unsigned : WalletGrant :=
      { version := API_VERSION
        descriptorDigest := digest
        clientKeyId := clientKeyId
        projectId := project.text
        issuedAtMs := nowMs
        expiresAtMs := saturatingAdd nowMs g.lifetimeMs
        signature := [] }
    ofOption (signWalletGrant c unsigned g.secret) .walletGrantUnavailable
  | _ => .error .invalidDescriptor

end WalletGrants

section Digests

variable {sha256 : Bytes → ByteArrayOf 32}

theorem exists_canonicalInput_without (domain : Bytes) (name : String)
    {ms : List (String × Serde.Value)} (h : FloatFree (.obj ms)) :
    ∃ input, canonicalInput domain (.obj (Serde.Variants.without name ms)) = some input := by
  obtain ⟨-, -, hvalues⟩ := Json.all_obj.1 h
  have hwithout : FloatFree (.obj (Serde.Variants.without name ms)) :=
    Json.all_obj.2 ⟨trivial, fun _ _ => trivial, fun m hm => hvalues m (List.mem_of_mem_filter hm)⟩
  obtain ⟨t, ht⟩ := exists_canonicalize_iff.2 hwithout
  exact ⟨_, congrArg (Option.map _) ht⟩

/-- Every descriptor has a digest. -/
theorem exists_descriptorDigest (descriptor : WalletDescriptor) :
    ∃ digest, descriptorDigest sha256 descriptor = some digest := by
  obtain ⟨input, hinput⟩ := exists_canonicalInput_without PROVISIONING_AUTH_DOMAIN
    "provisioning_signature" (WalletDescriptor.fits 0 descriptor).integral
  exact ⟨sha256 input, congrArg (Option.map sha256) hinput⟩

/-- Every grant has a digest. -/
theorem exists_walletGrantDigest (grant : WalletGrant) :
    ∃ digest, walletGrantDigest sha256 grant = some digest := by
  obtain ⟨input, hinput⟩ := exists_canonicalInput_without WALLET_GRANT_DOMAIN
    "signature" (WalletGrant.fits 0 grant).integral
  exact ⟨sha256 input, congrArg (Option.map sha256) hinput⟩

end Digests

variable {c : SigningCrypto} {e : ApiError}

/-- Signing a descriptor fails for want of the provisioning key only. -/
theorem Provisioner.sign_error {p : Provisioner} {input : EnrollmentInput}
    (h : p.sign c input = .error e) : e = .provisionerUnavailable := by
  simp only [Provisioner.sign, bind_eq_error, ofOption_eq_error, pure_ne_error] at h
  grind

/-- Issuing a grant fails with a refusal of the client key or for want of the grant key. -/
theorem WalletGrants.issue_error {g : WalletGrants} {project : ProjectId}
    {descriptor : WalletDescriptor} {nowMs : UInt64}
    (h : g.issue c project descriptor nowMs = .error e) :
    e = .clientKeyRevoked ∨ e = .walletGrantUnavailable ∨ e = .invalidDescriptor := by
  unfold WalletGrants.issue at h
  split at h
  · simp only [unrevoked, bind_eq_error, refuse_eq_error, ofOption_eq_error, pure_ne_error] at h
    grind
  · exact .inr (.inr (Except.error.inj h).symm)

/-- A grant that was issued for the only client key of a descriptor, which is not revoked. -/
structure Issued (c : SigningCrypto) (g : WalletGrants) (project : ProjectId)
    (descriptor : WalletDescriptor) (nowMs : UInt64) (grant : WalletGrant) : Prop where
  client : ∃ client, descriptor.allowedClients = [client] ∧
    grant.clientKeyId = clientKeyId c.toCrypto client.clientPublicKey
  unrevoked : grant.clientKeyId ∉ g.revokedClientKeyIds
  version : grant.version = API_VERSION
  digest : descriptorDigest c.sha256 descriptor = some grant.descriptorDigest
  project : grant.projectId = project.text
  issuedAt : grant.issuedAtMs = nowMs
  expiresAt : grant.expiresAtMs = saturatingAdd nowMs g.lifetimeMs
  signed : ∃ digest signature, walletGrantDigest c.sha256 { grant with signature := [] } = some digest ∧
    c.signP256Prehash g.secret digest = some signature ∧ grant.signature = signature.val

theorem signWalletGrant_eq_some {grant signed : WalletGrant} {secret : ByteArrayOf 32} :
    signWalletGrant c grant secret = some signed ↔ ∃ digest signature,
      walletGrantDigest c.sha256 { grant with signature := [] } = some digest ∧
        c.signP256Prehash secret digest = some signature ∧
        signed = { grant with signature := signature.val } := by
  simp only [signWalletGrant, Option.bind_eq_bind, Option.bind_eq_some_iff, Option.pure_def,
    Option.some.injEq]
  constructor
  · rintro ⟨digest, hdigest, signature, hsignature, rfl⟩
    exact ⟨digest, signature, hdigest, hsignature, rfl⟩
  · rintro ⟨digest, signature, hdigest, hsignature, rfl⟩
    exact ⟨digest, hdigest, signature, hsignature, rfl⟩

theorem WalletGrants.issue_ok {g : WalletGrants} {project : ProjectId}
    {descriptor : WalletDescriptor} {nowMs : UInt64} {grant : WalletGrant}
    (h : g.issue c project descriptor nowMs = .ok grant) : Issued c g project descriptor nowMs grant := by
  unfold WalletGrants.issue at h
  split at h
  · next client hclient =>
    simp only [unrevoked, bind_eq_ok, refuse_eq_ok, ofOption_eq_ok, pure_eq_ok, exists_const] at h
    obtain ⟨_, ⟨hrevoked, rfl⟩, digest, hdigest, hsigned⟩ := h
    obtain ⟨grantDigest, signature, hgrantDigest, hsignature, rfl⟩ := signWalletGrant_eq_some.1 hsigned
    exact
      { client := ⟨client, hclient, rfl⟩
        unrevoked := hrevoked
        version := rfl
        digest := hdigest
        project := rfl
        issuedAt := rfl
        expiresAt := rfl
        signed := ⟨grantDigest, signature, hgrantDigest, hsignature, rfl⟩ }
  · cases h

/-- A grant can be issued for the only client key of a descriptor, when it is not revoked and the grant
key signs. -/
theorem WalletGrants.exists_issue {g : WalletGrants} {descriptor : WalletDescriptor}
    {client : ClientGrant} (project : ProjectId) (nowMs : UInt64)
    (hclient : descriptor.allowedClients = [client])
    (unrevoked : clientKeyId c.toCrypto client.clientPublicKey ∉ g.revokedClientKeyIds)
    (signs : ∀ digest, ∃ signature, c.signP256Prehash g.secret digest = some signature) :
    ∃ grant, g.issue c project descriptor nowMs = .ok grant := by
  obtain ⟨digest, hdigest⟩ := @exists_descriptorDigest c.sha256 descriptor
  unfold WalletGrants.issue
  rw [hclient]
  simp only [WalletGrants.unrevoked, bind_eq_ok, refuse_eq_ok, ofOption_eq_ok, pure_eq_ok, exists_const]
  obtain ⟨grantDigest, hgrantDigest⟩ := @exists_walletGrantDigest c.sha256
    { version := API_VERSION, descriptorDigest := digest,
      clientKeyId := clientKeyId c.toCrypto client.clientPublicKey, projectId := project.text,
      issuedAtMs := nowMs, expiresAtMs := saturatingAdd nowMs g.lifetimeMs, signature := [] }
  obtain ⟨signature, hsignature⟩ := signs grantDigest
  exact ⟨_, _, ⟨unrevoked, rfl⟩, digest, hdigest,
    signWalletGrant_eq_some.2 ⟨grantDigest, signature, hgrantDigest, hsignature, rfl⟩⟩

end ZolanaTvc.Gateway
