import ZolanaTvc.Control.Effectful
import ZolanaTvc.Wallet.AppProof
import ZolanaTvc.Wallet.Qos

/-!
# The client's operations

An operation is written into a request, which the client key signs. The signed request is encrypted to
the quorum key, sent, and answered with a result for the client alone.

What the clock, the random numbers, the signer, the caller's signal and the backend give is read from a
`Readings`.
-/

namespace ZolanaTvc.Wallet.OperationExecutor

open Except Effectful Json Protocol

def ENCRYPTED_RESPONSE_KEYS : List String :=
  ["version", "request_id", "encrypted_result", "tvc_app_proof"]

/-- Room for the grant a gateway adds to the request it forwards. -/
def GATEWAY_GRANT_BYTES : ℕ := 1024

section Types

/-- What an operation reads of the enclave's discovery. -/
structure ServiceInfo where
  network : JsString
  releaseId : JsString
  manifestDigest : JsString
  executableDigest : JsString
  quorumPublicKey : JsString
  quorumKeyId : JsString
  quorumKeyEpoch : JsString
  supportedOperations : List JsString
  maxEncryptedRequestBytes : JsString
  maxEncryptedResponseBytes : JsString

structure ClientGrant where
  clientPublicKey : JsString
  allowedOperations : List JsString

def ClientGrant.value (g : ClientGrant) : JsValue :=
  object [("client_public_key", .str g.clientPublicKey),
    ("allowed_operations", .arr (g.allowedOperations.map .str))]

structure WalletDescriptor where
  securityDomainId : JsString
  network : JsString
  turnkeyOrganizationId : JsString
  turnkeyWalletId : JsString
  address : JsString
  allowedClients : List ClientGrant
  expiresAtMs : JsString
  provisioningSignature : JsString

def WalletDescriptor.value (d : WalletDescriptor) : JsValue :=
  object [("version", apiVersion), ("security_domain_id", .str d.securityDomainId),
    ("network", .str d.network), ("turnkey_organization_id", .str d.turnkeyOrganizationId),
    ("turnkey_wallet_id", .str d.turnkeyWalletId), ("address", .str d.address),
    ("allowed_clients", .arr (d.allowedClients.map ClientGrant.value)),
    ("expires_at_ms", .str d.expiresAtMs),
    ("provisioning_signature", .str d.provisioningSignature)]

/-- The enclave's ingress, with what the provider of wallet grants answers if there is one; or a
gateway. -/
inductive Backend where
  | enclave (walletGrant : Option (Except Thrown JsValue))
  | gateway

structure OperationExecutionContext where
  backend : Backend
  info : ServiceInfo
  releasePolicyValidFromMs : ℤ
  releasePolicyExpiresAtMs : ℤ
  descriptor : WalletDescriptor
  /-- The signer's. -/
  clientKeyId : JsString

structure OperationRequest where
  requestId : JsString
  issuedAtMs : JsString
  expiresAtMs : JsString
  targetReleaseId : JsString
  targetManifestDigest : JsString
  targetExecutableDigest : JsString
  quorumKeyId : JsString
  quorumKeyEpoch : JsString
  walletDescriptor : WalletDescriptor
  /-- A string or `null`. -/
  sealedSeed : JsValue
  clientResponsePublicKey : JsString
  operation : JsValue
  clientKeyId : JsString
  signature : JsString

def OperationRequest.value (r : OperationRequest) : JsValue :=
  object [("version", apiVersion), ("request_id", .str r.requestId),
    ("issued_at_ms", .str r.issuedAtMs), ("expires_at_ms", .str r.expiresAtMs),
    ("target_release_id", .str r.targetReleaseId),
    ("target_manifest_digest", .str r.targetManifestDigest),
    ("target_executable_digest", .str r.targetExecutableDigest),
    ("quorum_key_id", .str r.quorumKeyId), ("quorum_key_epoch", .str r.quorumKeyEpoch),
    ("wallet_descriptor", r.walletDescriptor.value), ("sealed_seed", r.sealedSeed),
    ("client_response_public_key", .str r.clientResponsePublicKey), ("operation", r.operation),
    ("authorization", object
      [("client_key_id", .str r.clientKeyId), ("signature", .str r.signature)])]

structure OperationAnswer (BootProof : Type) where
  responseText : JsString
  bootProof : BootProof

/-- What one operation finds outside, in the order it asks. -/
structure Readings (BootProof : Type) where
  aborted : Bool
  nowMs : ℤ
  responseSecret : Bytes
  requestId : ByteArrayOf 32
  signature : Except Thrown Bytes
  /-- The signal is aborted once the request is signed. -/
  abortedSigned : Bool
  ephemeralSecret : Bytes
  nonce : Bytes
  answer : Except Thrown (OperationAnswer BootProof)

/-- What others see of an operation. -/
inductive Effect where
  /-- The client key is asked to sign a text for a request. -/
  | asked (request : JsValue) (message : JsString)
  | sent (body : JsString)

abbrev Call := Effectful Effect Thrown

end Types

def throwIfAborted (aborted : Bool) : Except Thrown Unit := refuse (aborted = true) .platform

def encodeDecimalU64 (value : ℤ) : Except Thrown JsString := do
  refuse (value < 0 ∨ value > 2 ^ 64 - 1) (spr "InvalidDecimal")
  return (Numeral.ofInt value).print

section Request

variable (c : QosCrypto) (context : OperationExecutionContext)

def requireCurrentReleasePolicy (nowMs : ℤ) : Except Thrown Unit :=
  refuse (nowMs < context.releasePolicyValidFromMs ∨ nowMs > context.releasePolicyExpiresAtMs)
    (spr "ExpiredRequest")

def sealedSeedFields (sealedSeed : Option JsString) : Except Thrown JsValue :=
  match sealedSeed with
  | none => return .null
  | some seed => do
    let _ ← requireHex (some (.str seed)) none
    return .str seed

/-- Grant identity the enclave derives from the client public key. -/
def clientKeyIdFor (clientPublicKey : Bytes) : JsString :=
  utf16Units "spr-client-p256-" ++ bytesToHex ((c.sha256 clientPublicKey).val.take 16)

/-- `find` stops at the first candidate with the id. -/
def findClient (clientKeyId : JsString) : List ClientGrant → Except Thrown (Option ClientGrant)
  | [] => return none
  | candidate :: candidates => do
    let key ← decodeLowerHex candidate.clientPublicKey
    if clientKeyIdFor c key = clientKeyId then return some candidate
    else findClient clientKeyId candidates

def matchingGrant (operation : Option JsValue) : Except Thrown ClientGrant := do
  let found ← findClient c context.clientKeyId context.descriptor.allowedClients
  let grant ← ofOption found (spr "OperationNotAllowed")
  refuse (grant.allowedOperations.any (fun allowed => operation = some (.str allowed)) = false)
    (spr "OperationNotAllowed")
  return grant

/-- What the request carries beside the ciphertext: the grant, unless a gateway adds it. -/
def requestGrant : Backend → Except Thrown (Option JsValue)
  | .gateway => return none
  | .enclave none => throw (spr "WalletGrantRequired")
  | .enclave (some walletGrant) => do
    let grant ← walletGrant
    return some grant

/-- Bytes the backend adds to a request before the enclave receives it. -/
def forwardedRequestBytes : Backend → ℕ
  | .gateway => GATEWAY_GRANT_BYTES
  | .enclave _ => 0

def encryptedRequest (info : ServiceInfo) (ciphertext : JsString) (grant : Option JsValue) :
    JsValue :=
  object ([("version", apiVersion), ("quorum_key_id", .str info.quorumKeyId),
    ("quorum_key_epoch", .str info.quorumKeyEpoch), ("ciphertext", .str ciphertext)] ++
      grant.toList.map fun grant => ("wallet_grant", grant))

/-- `te.encode(canonicalizeJsonValue(value)).length` -/
def byteLength (value : JsValue) : Except Thrown ℕ := do
  let text ← canonicalizeJsonValue value
  return (textEncode text).length

/-- The size of the request the enclave receives, including anything the backend adds. -/
def enclaveRequestBytes (request : JsValue) : Except Thrown ℕ := do
  let bytes ← byteLength request
  return bytes + forwardedRequestBytes context.backend

/-- The advertised request ceiling covers the entire UTF-8 HTTP body. -/
def checkRequestSize (info : ServiceInfo) (bytes : ℕ) : Except Thrown Unit := do
  let limit ← ofOption (bigInt info.maxEncryptedRequestBytes) .platform
  refuse ((bytes : ℤ) > limit) (spr "RequestTooLarge")

/-- The size that `prepareRequest` checks before the request is signed. -/
def preflightBytes (request : OperationRequest) (grant : Option JsValue) : Except Thrown ℕ := do
  let placeholder := bytesToHex (List.replicate RAW_P256_SIGNATURE_LEN 0)
  let signedBytes ← byteLength { request with signature := placeholder }.value
  let ciphertextBytes :=
    signedBytes + AES_GCM_NONCE_LEN + SEC1_UNCOMPRESSED_LEN + 4 + AES_GCM_TAG_LEN
  let bytes ← enclaveRequestBytes context (encryptedRequest context.info [] grant)
  return bytes + 2 * ciphertextBytes

end Request

section Execution

variable {BootProof : Type} (c : QosCrypto)
  (trustVerifier : TurnkeyAppProofWire → BootProof → Except Thrown Unit)
  (context : OperationExecutionContext) (operation : JsValue) (sealedSeed : Option JsString)
  (r : Readings BootProof)

/-- The request as it is shown to the signer, the entry of the client key and the grant. -/
def unsignedRequest : Except Thrown (OperationRequest × ClientGrant × Option JsValue) := do
  throwIfAborted r.aborted
  let kind ← property operation "type"
  refuse (context.info.supportedOperations.any (fun supported => kind = some (.str supported)) = false)
    (spr "OperationNotAllowed")
  refuse (context.descriptor.network ≠ context.info.network) (spr "NetworkMismatch")
  let client ← matchingGrant c context kind
  let grant ← requestGrant context.backend
  requireCurrentReleasePolicy context r.nowMs
  let responsePublic ← ofOption (c.publicKey r.responseSecret) .platform
  let issuedAtMs ← encodeDecimalU64 r.nowMs
  let expiresAtMs ← encodeDecimalU64 (r.nowMs + MAX_REQUEST_AGE_MS.toNat)
  let seed ← sealedSeedFields sealedSeed
  let request : OperationRequest :=
    { requestId := bytesToHex r.requestId.val
      issuedAtMs := issuedAtMs
      expiresAtMs := expiresAtMs
      targetReleaseId := context.info.releaseId
      targetManifestDigest := context.info.manifestDigest
      targetExecutableDigest := context.info.executableDigest
      quorumKeyId := context.info.quorumKeyId
      quorumKeyEpoch := context.info.quorumKeyEpoch
      walletDescriptor := context.descriptor
      sealedSeed := seed
      clientResponsePublicKey := bytesToHex responsePublic.val
      operation := operation
      clientKeyId := context.clientKeyId
      signature := [] }
  return (request, client, grant)

def prepareRequest : Call (OperationRequest × Option JsValue) := do
  let (request, client, grant) ← ofExcept (unsignedRequest c context operation sealedSeed r)
  let bytes ← ofExcept (preflightBytes context request grant)
  ofExcept (checkRequestSize context.info bytes)
  let requestDigestBytes ← ofExcept (requestDigest c.sha256 request.value)
  let message ← ofExcept (clientAuthMessage requestDigestBytes.val)
  let digest := c.sha256 (textEncode message)
  let signature ← act (.asked request.value message) r.signature
  let clientPublicKey ← ofExcept
    (requireHex (some (.str client.clientPublicKey)) (some SEC1_UNCOMPRESSED_LEN))
  ofExcept (verifyP256Prehash c.toCrypto clientPublicKey digest signature)
  return ({ request with signature := bytesToHex signature }, grant)

/-- The signed request and its encrypted form, once its size was checked again. -/
def encryptOperation : Call (OperationRequest × JsValue) := do
  let (request, grant) ← prepareRequest c context operation sealedSeed r
  ofExcept (throwIfAborted r.abortedSigned)
  let requestBody ← ofExcept (canonicalizeJsonValue request.value)
  let quorumPublicKey ← ofExcept
    (requireHex (some (.str context.info.quorumPublicKey)) (some QOS_P256_PUBLIC_LEN))
  let quorum ← ofExcept (parseQosP256Public c.toCrypto quorumPublicKey)
  let ciphertext ← ofExcept
    (qosEncryptWith c quorum.encryption (textEncode requestBody) r.ephemeralSecret r.nonce)
  let encrypted := encryptedRequest context.info (bytesToHex ciphertext) grant
  let bytes ← ofExcept (enclaveRequestBytes context encrypted)
  ofExcept (checkRequestSize context.info bytes)
  return (request, encrypted)

def operationBody (encrypted : JsValue) : Except Thrown JsString :=
  match context.backend with
  | .enclave _ => canonicalizeJsonValue encrypted
  | .gateway => canonicalizeJsonValue
      (object [("descriptor", context.descriptor.value), ("request", encrypted)])

/-- Sends one encrypted request. -/
def sendOperation (encrypted : JsValue) : Call (OperationAnswer BootProof) := do
  let body ← ofExcept (operationBody context encrypted)
  act (.sent body) r.answer

/-- The plaintext and the sealed seed's digest in the proof, of an answer to a request. -/
def openAnswer (request : OperationRequest) (maxResponseBytes : ℤ)
    (answer : OperationAnswer BootProof) : Except Thrown (JsString × Option JsValue) := do
  let response ← parseStrictJson answer.responseText (some (ENCRYPTED_RESPONSE_KEYS.map utf16Units))
  refuse ((← property response "version") ≠ some apiVersion) (spr "ReleaseBindingMismatch")
  let requestId ← requireHex (← property response "request_id") (some 32)
  let expected ← requireHex (some (.str request.requestId)) (some 32)
  refuse (requestId ≠ expected) (spr "ReleaseBindingMismatch")
  let encryptedResult ← requireHex (← property response "encrypted_result") none
  refuse ((encryptedResult.length : ℤ) > maxResponseBytes) (spr "ResponseTooLarge")
  let proof ← verifyOperationProof c.toCrypto trustVerifier request.value response answer.bootProof
  let bytes ← expect (qosDecrypt c r.responseSecret encryptedResult) (spr "InvalidEncryptedEnvelope")
  let plaintext ← ofOption (textDecode bytes) (spr "InvalidEncryptedEnvelope")
  refuse (isRfc8785 plaintext = false) (spr "InvalidCanonicalJson")
  return (plaintext, ← property proof "sealed_seed_digest")

def executeOperationEnvelope : Call (JsString × Option JsValue) := do
  let (request, encrypted) ← encryptOperation c context operation sealedSeed r
  let maxResponseBytes ← ofExcept
    (ofOption (bigInt context.info.maxEncryptedResponseBytes) .platform)
  let answer ← sendOperation context r encrypted
  ofExcept (openAnswer c trustVerifier r request maxResponseBytes answer)

end Execution

end ZolanaTvc.Wallet.OperationExecutor
