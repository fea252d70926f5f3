import ZolanaTvc.Protocol.Canonical
import ZolanaTvc.Protocol.Constants
import ZolanaTvc.Protocol.Wire

/-!
# Domain-separated digests

Each digest constructor is SHA-256 of a domain tag, a zero byte and a payload. `DigestCall` is a call
of any of them, and `DigestCall.input` the byte string it feeds to SHA-256.
-/

namespace ZolanaTvc.Protocol

open Json Serde

def domainSeparated (domain payload : Bytes) : Bytes := domain ++ 0 :: payload

/-- The canonical bytes of a value under a domain tag. -/
def canonicalInput (domain : Bytes) (value : Value) : Option Bytes :=
  (canonicalizeJsonValue value).map fun canonical => domainSeparated domain (utf8 canonical)

/-- An object with one of its members replaced. -/
def replaceMember (name : String) (value : Value) (ms : List (String × Value)) :
    List (String × Value) :=
  ms.map fun m => if m.1 = name then (name, value) else m

/-- `request_digest` omits only `authorization.signature`; `client_key_id` stays. -/
def requestDigestInput (request : OperationRequest) : Option Bytes :=
  match OperationRequest.codec.encode request with
  | .obj value =>
    match get value "authorization" with
    | some (.obj authorization) =>
      if (get authorization "signature").isNone then none
      else if (get (Variants.without "signature" authorization) "client_key_id").isNone then none
      else
        canonicalInput REQUEST_DIGEST_DOMAIN (.obj (replaceMember "authorization"
          (.obj (Variants.without "signature" authorization)) value))
    | _ => none
  | _ => none

/-- The text a client key signs for a request. -/
def clientAuthMessage (requestDigest : ByteArrayOf 32) : String :=
  CLIENT_AUTH_DOMAIN ++ ":" ++ encodeLowerHex requestDigest.val

/-- The provisioner signs the descriptor without its own signature field. -/
def descriptorDigestInput (descriptor : WalletDescriptor) : Option Bytes :=
  match WalletDescriptor.codec.encode descriptor with
  | .obj object =>
    canonicalInput PROVISIONING_AUTH_DOMAIN
      (.obj (Variants.without "provisioning_signature" object))
  | _ => none

/-- Names the wallet a descriptor is for, and nothing about its clients. -/
def walletBindingDigestInput (descriptor : WalletDescriptor) : Option Bytes :=
  canonicalInput WALLET_BINDING_DOMAIN (.obj
    [("network", Network.codec.encode descriptor.network),
      ("security_domain_id", .str (encodeLowerHex descriptor.securityDomainId.val)),
      ("turnkey_organization_id", .str descriptor.turnkeyOrganizationId),
      ("turnkey_wallet_id", .str descriptor.turnkeyWalletId),
      ("address", .str descriptor.address)])

/-- The grant key signs the grant without its own signature field. -/
def walletGrantDigestInput (grant : WalletGrant) : Option Bytes :=
  match WalletGrant.codec.encode grant with
  | .obj object =>
    canonicalInput WALLET_GRANT_DOMAIN (.obj (Variants.without "signature" object))
  | _ => none

def policySigningDigestInput (policy : ReleasePolicy) : Option Bytes :=
  canonicalInput RELEASE_POLICY_DOMAIN (ReleasePolicy.codec.encode policy)

section Sha256

variable (sha256 : Bytes → ByteArrayOf 32)

def domainSeparatedHash (domain payload : Bytes) : ByteArrayOf 32 :=
  sha256 (domainSeparated domain payload)

def requestDigest (request : OperationRequest) : Option (ByteArrayOf 32) :=
  (requestDigestInput request).map sha256

/-- SHA-256 of the UTF-8 `client_auth_message`: the digest ECDSA signs. -/
def clientAuthDigest (requestDigest : ByteArrayOf 32) : ByteArrayOf 32 :=
  sha256 (utf8 (clientAuthMessage requestDigest))

def descriptorDigest (descriptor : WalletDescriptor) : Option (ByteArrayOf 32) :=
  (descriptorDigestInput descriptor).map sha256

def walletBindingDigest (descriptor : WalletDescriptor) : Option (ByteArrayOf 32) :=
  (walletBindingDigestInput descriptor).map sha256

def walletGrantDigest (grant : WalletGrant) : Option (ByteArrayOf 32) :=
  (walletGrantDigestInput grant).map sha256

def policySigningDigest (policy : ReleasePolicy) : Option (ByteArrayOf 32) :=
  (policySigningDigestInput policy).map sha256

def resultDigest (encryptedResult : Bytes) : ByteArrayOf 32 :=
  domainSeparatedHash sha256 RESULT_DIGEST_DOMAIN encryptedResult

/-- Digest of the exact sealed-seed wire bytes. -/
def sealedSeedDigest (sealedSeed : Bytes) : ByteArrayOf 32 :=
  domainSeparatedHash sha256 SEALED_SEED_DIGEST_DOMAIN sealedSeed

def walletIdHash (walletId : String) : ByteArrayOf 32 :=
  domainSeparatedHash sha256 WALLET_ID_HASH_DOMAIN (utf8 walletId)

def requestIdHash (requestId : ByteArrayOf 32) : ByteArrayOf 32 :=
  domainSeparatedHash sha256 REQUEST_ID_HASH_DOMAIN requestId.val

end Sha256

/-- A call of a digest constructor. -/
inductive DigestCall where
  | request (request : OperationRequest)
  | clientAuth (requestDigest : ByteArrayOf 32)
  | descriptor (descriptor : WalletDescriptor)
  | walletBinding (descriptor : WalletDescriptor)
  | walletGrant (grant : WalletGrant)
  | policy (policy : ReleasePolicy)
  | result (encryptedResult : Bytes)
  | sealedSeed (sealedSeed : Bytes)
  | walletId (walletId : String)
  | requestId (requestId : ByteArrayOf 32)

namespace DigestCall

/-- The byte string that a call feeds to SHA-256. -/
def input : DigestCall → Option Bytes
  | request r => requestDigestInput r
  | clientAuth d => some (utf8 (clientAuthMessage d))
  | descriptor d => descriptorDigestInput d
  | walletBinding d => walletBindingDigestInput d
  | walletGrant g => walletGrantDigestInput g
  | policy p => policySigningDigestInput p
  | result b => some (domainSeparated RESULT_DIGEST_DOMAIN b)
  | sealedSeed b => some (domainSeparated SEALED_SEED_DIGEST_DOMAIN b)
  | walletId w => some (domainSeparated WALLET_ID_HASH_DOMAIN (utf8 w))
  | requestId i => some (domainSeparated REQUEST_ID_HASH_DOMAIN i.val)

/-- The digest of a call. -/
def digest (sha256 : Bytes → ByteArrayOf 32) : DigestCall → Option (ByteArrayOf 32)
  | request r => requestDigest sha256 r
  | clientAuth d => some (clientAuthDigest sha256 d)
  | descriptor d => descriptorDigest sha256 d
  | walletBinding d => walletBindingDigest sha256 d
  | walletGrant g => walletGrantDigest sha256 g
  | policy p => policySigningDigest sha256 p
  | result b => some (resultDigest sha256 b)
  | sealedSeed b => some (sealedSeedDigest sha256 b)
  | walletId w => some (walletIdHash sha256 w)
  | requestId i => some (requestIdHash sha256 i)

theorem digest_eq (sha256 : Bytes → ByteArrayOf 32) (c : DigestCall) :
    c.digest sha256 = c.input.map sha256 := by
  cases c <;> rfl

end DigestCall

/-- The operation with its free-form documents in one order. -/
def Operation.sorted : Operation → Operation
  | .prove request prover =>
    .prove request.sorted
      { prover with attestation := prover.attestation.sorted, policy := prover.policy.sorted }
  | operation => operation

/-- What the signature of a client covers: the request without the signature itself, and its
free-form documents whatever the order of their members. -/
def OperationRequest.signed (r : OperationRequest) : OperationRequest :=
  { r with
    operation := r.operation.sorted
    authorization := { r.authorization with signature := [] } }

def WalletDescriptor.signed (d : WalletDescriptor) : WalletDescriptor :=
  { d with provisioningSignature := [] }

def WalletGrant.signed (g : WalletGrant) : WalletGrant := { g with signature := [] }

/-- What a sealed seed is bound to. -/
def WalletDescriptor.binding (d : WalletDescriptor) :
    Network × ByteArrayOf 32 × String × String × String :=
  (d.network, d.securityDomainId, d.turnkeyOrganizationId, d.turnkeyWalletId, d.address)

/-- Two calls of one constructor, on inputs that are equal but for what the constructor leaves out. -/
inductive DigestCall.Same : DigestCall → DigestCall → Prop where
  | request {r s : OperationRequest} : r.signed = s.signed → Same (.request r) (.request s)
  | clientAuth (d : ByteArrayOf 32) : Same (.clientAuth d) (.clientAuth d)
  | descriptor {d e : WalletDescriptor} : d.signed = e.signed → Same (.descriptor d) (.descriptor e)
  | walletBinding {d e : WalletDescriptor} : d.binding = e.binding →
      Same (.walletBinding d) (.walletBinding e)
  | walletGrant {g h : WalletGrant} : g.signed = h.signed → Same (.walletGrant g) (.walletGrant h)
  | policy (p : ReleasePolicy) : Same (.policy p) (.policy p)
  | result (b : Bytes) : Same (.result b) (.result b)
  | sealedSeed (b : Bytes) : Same (.sealedSeed b) (.sealedSeed b)
  | walletId (w : String) : Same (.walletId w) (.walletId w)
  | requestId (i : ByteArrayOf 32) : Same (.requestId i) (.requestId i)

end ZolanaTvc.Protocol
