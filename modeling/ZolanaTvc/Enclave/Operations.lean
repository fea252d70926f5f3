import ZolanaTvc.Enclave.Keys
import ZolanaTvc.Enclave.Prove

/-!
# The encrypted operation endpoint

`execute` takes one request body. What it does before it runs the operation is `authorize`.
-/

namespace ZolanaTvc.Enclave

open Protocol Except

variable {N V : Type}

/-- A UUID as it is written in the canonical form: hyphenated lowercase hex. -/
def isCanonicalUuid (value : String) : Bool :=
  let groups := value.toList.splitOn '-'
  groups.map List.length = [8, 4, 4, 4, 12] ∧
    groups.all fun g => g.all fun ch => '0' ≤ ch ∧ ch ≤ '9' ∨ 'a' ≤ ch ∧ ch ≤ 'f'

def checkEncryptedRequestBindings (outer : EncryptedRequest) (running : ServiceInfo) :
    Except ErrorCode Unit := do
  refuse (outer.version ≠ API_VERSION) .unsupportedVersion
  refuse (outer.quorumKeyId ≠ running.quorumKeyId) .releaseBindingMismatch
  refuse (outer.quorumKeyEpoch ≠ running.quorumKeyEpoch) .quorumKeyEpochMismatch

def checkRequestBindings (request : OperationRequest) (running : ServiceInfo) :
    Except ErrorCode Unit := do
  refuse (request.version ≠ API_VERSION) .unsupportedVersion
  refuse (request.walletDescriptor.network ≠ running.network) .networkMismatch
  refuse (request.targetReleaseId ≠ running.releaseId ∨
    request.targetManifestDigest ≠ running.manifestDigest ∨
    request.targetExecutableDigest ≠ running.executableDigest) .releaseBindingMismatch
  refuse (request.walletDescriptor.securityDomainId ≠ running.securityDomainId)
    .walletBindingMismatch
  refuse (request.walletDescriptor.turnkeyWalletId = "") .invalidWalletDescriptor
  refuse (request.quorumKeyId ≠ running.quorumKeyId) .releaseBindingMismatch
  refuse (request.quorumKeyEpoch ≠ running.quorumKeyEpoch) .quorumKeyEpochMismatch

/-- Binds the request to this release, checks its freshness, verifies the provisioner's signature over
the descriptor and the client's signature over the request, refuses an expired descriptor, and returns
the Turnkey key the descriptor names. -/
def validate (request : OperationRequest) (state : AppState N V) (env : Environment) :
    Except Failure WalletKey := do
  let crypto := state.runtime.crypto
  expect (checkRequestBindings request state.info) .invalid
  let kind := request.operation.kind
  let expectsSeed : Bool := kind ≠ .bootstrap
  refuse (kind ∉ state.info.supportedOperations ∨ request.sealedSeed.isSome ≠ expectsSeed) .invalid
  let now ← env.nowMs 0
  refuse (request.expiresAtMs < now ∨ request.issuedAtMs > saturatingAdd now MAX_CLOCK_SKEW_MS ∨
    request.expiresAtMs < request.issuedAtMs ∨
    request.expiresAtMs - request.issuedAtMs > MAX_REQUEST_AGE_MS) .invalid
  let descriptor := request.walletDescriptor
  let address ← ofOption (state.runtime.keys.pubkeyFromStr descriptor.address) .invalid
  refuse (descriptor.version ≠ API_VERSION ∨
    isCanonicalUuid descriptor.turnkeyOrganizationId = false ∨
    128 < (utf8 descriptor.turnkeyWalletId).length ∨
    descriptor.allowedClients.length ≠ 1) .invalid
  let digest ← ofOption (descriptorDigest crypto.sha256 descriptor) .invalid
  expect (verifyP256Prehash crypto state.runtime.provisioningPublic.val digest
    descriptor.provisioningSignature) .invalid
  let grant ← ofOption descriptor.allowedClients.head? .invalid
  refuse (grant.clientPublicKey.length ≠ 65 ∨ grant.allowedOperations ≠ OPERATIONS ∨
    request.authorization.clientKeyId ≠ clientKeyId crypto grant.clientPublicKey) .invalid
  expect (verifyClientAuthorization crypto request grant.clientPublicKey) .invalid
  -- Only an authorized request learns that its descriptor expired.
  expect (descriptor.checkCurrent now) .descriptorExpired
  return ⟨descriptor.turnkeyOrganizationId, descriptor.address, address⟩

/-- A request that may run. -/
structure Admitted where
  encrypted : EncryptedRequest
  request : OperationRequest
  wallet : WalletKey
  requestHash : ByteArrayOf 32

def authorize (state : AppState N V) (env : Environment) (body : Bytes) : Except Failure Admitted := do
  let runtime := state.runtime
  let body ← ofOption (fromUtf8 body) .invalid
  let encrypted ← ofOption (parseEncryptedRequest body) .invalid
  expect (checkEncryptedRequestBindings encrypted state.info) .invalid
  let plaintext ← ofOption (runtime.quorum.decrypt encrypted.ciphertext) .invalid
  let plaintext ← ofOption (fromUtf8 plaintext) .invalid
  refuse (isRfc8785 plaintext = false) .invalid
  let request ← ofOption (parseOperationRequest plaintext) .invalid
  let wallet ← validate request state env
  -- The gateway's grant is looked at last, with a clock reading of its own.
  let grant ← ofOption encrypted.walletGrant .invalid
  let now ← env.nowMs 1
  expect (verifyWalletGrant runtime.crypto grant runtime.grantPublic.val request.walletDescriptor
    request.authorization.clientKeyId now) .invalid
  let requestHash ← ofOption (requestDigest runtime.crypto.sha256 request) .invalid
  let _ ← expect (parseUncompressedSec1 runtime.crypto request.clientResponsePublicKey) .invalid
  return ⟨encrypted, request, wallet, requestHash⟩

/-- Leave time to respond before the proxy deadline; request expiry may shorten this. -/
def OPERATION_TIMEOUT_MS : ℕ := 75000

/-- What an App Proof names as the sealed seed when there is none. -/
def NO_SEALED_SEED : ByteArrayOf 32 := ⟨List.replicate 32 0, rfl⟩

/-- Runs a validated request's operation. Returns its result and the digest of the sealed seed it was
computed against. -/
def run (request : OperationRequest) (wallet : WalletKey) (runtime : Runtime N V)
    (env : Environment) : Except Failure (OperationResult × ByteArrayOf 32) :=
  match request.operation with
  | .bootstrap => do
    let now ← env.nowMs 2
    let untilExpiry := request.expiresAtMs.toNat - now.toNat
    refuse (env.outlasts (min OPERATION_TIMEOUT_MS untilExpiry) = true) .unavailable
    Bootstrap.run request wallet runtime env
  | .decrypt items => do
    let (roles, digest) ← Sealed.unseal request runtime
    return (← Keys.decrypt runtime.keys roles items, digest)
  | .derive items => do
    let (roles, digest) ← Sealed.unseal request runtime
    return (← Keys.derive runtime.keys roles items, digest)
  | .transactionKeys items => do
    let (roles, digest) ← Sealed.unseal request runtime
    return (← Keys.transactionKeys runtime.keys roles items, digest)
  | .prove body prover => do
    let (roles, digest) ← Sealed.unseal request runtime
    let now ← env.nowMs 2
    let sealedRequest ← Prove.sealTo body (runtime.keys.nullifierSecret roles.nullifierKey) prover
      runtime.prover env.entropy now
    return (.prove sealedRequest, digest)

/-- An operation that failed at a named stage answers inside the result, under the seed the request
presented. -/
def settle (sha256 : Bytes → ByteArrayOf 32) (request : OperationRequest) :
    Except Failure (OperationResult × ByteArrayOf 32) →
      Except Failure (OperationResult × ByteArrayOf 32)
  | .error (.stage stage) =>
    .ok (.failure request.operation.kind stage,
      request.sealedSeed.elim NO_SEALED_SEED (sealedSeedDigest sha256))
  | answer => answer

/-- The result of an operation, encrypted to the client, with the proof of the enclave that ran it. -/
def respond (state : AppState N V) (env : Environment) (admitted : Admitted)
    (result : OperationResult) (proofSeedDigest : ByteArrayOf 32) :
    Except Failure EncryptedResponse := do
  let runtime := state.runtime
  let request := admitted.request
  let resultPlaintext ← ofOption (jcsSerialize OperationResult.codec result) .unavailable
  let encryptedResult ← ofOption (runtime.qosEncrypt env.entropy request.clientResponsePublicKey
    (utf8 resultPlaintext)) .unavailable
  refuse (MAX_ENCRYPTED_RESPONSE_BYTES.toNat < encryptedResult.length) .unavailable
  let proof : OperationProofPayload :=
    { type := TVC_APP_PROOF_TYPE
      version := API_VERSION
      requestId := request.requestId
      requestDigest := admitted.requestHash
      resultDigest := resultDigest runtime.crypto.sha256 encryptedResult
      operation := request.operation.kind
      sealedSeedDigest := proofSeedDigest }
  let proofPayload ← ofOption (jcsSerialize OperationProofPayload.codec proof) .unavailable
  let signature ← ofOption (runtime.ephemeral.sign (utf8 proofPayload)) .unavailable
  let tvcAppProof : AppProof :=
    ⟨TVC_APP_PROOF_SCHEME, runtime.ephemeral.publicKey, proofPayload, signature⟩
  return ⟨API_VERSION, request.requestId, encryptedResult, tvcAppProof⟩

/-- An answered request body: the request that was run, if one was, and the answer. -/
structure Execution where
  ran : Option Admitted
  answer : Except Failure String

def execute (state : AppState N V) (env : Environment) (body : Bytes) : Execution :=
  match authorize state env body with
  | .error failure => ⟨none, .error failure⟩
  | .ok admitted =>
    { ran := some admitted
      answer := do
        let (result, proofSeedDigest) ← settle state.runtime.crypto.sha256 admitted.request
          (run admitted.request admitted.wallet state.runtime env)
        let response ← respond state env admitted result proofSeedDigest
        ofOption (jcsSerialize EncryptedResponse.codec response) .unavailable }

end ZolanaTvc.Enclave
