import ZolanaTvc.Wallet.Digest
import ZolanaTvc.Wallet.ReleasePolicy
import ZolanaTvc.Wallet.StrictJson

/-!
# The App Proofs that the client accepts

An App Proof is a payload that an enclave signed with its ephemeral key. The client accepts one as the
answer to a ping, and one as the answer to an operation.
-/

namespace ZolanaTvc.Wallet

open Except Json Protocol

section Values

/-- `API_VERSION` -/
def apiVersion : JsValue := .num (ofNumeral (.ofInt 1))

/-- A property of a value; `none` is `undefined`. -/
def property (value : JsValue) (name : String) : Except Thrown (Option JsValue) :=
  match value with
  | .null => throw .platform
  | .obj members => return members.lookup (utf16Units name)
  | _ => return none

/-- A property of what may be `undefined`. -/
def propertyOf (value : Option JsValue) (name : String) : Except Thrown (Option JsValue) := do
  property (← ofOption value .platform) name

/-- `===` of values that are no part of each other: no two objects are one. -/
def strictEquals : Option JsValue → Option JsValue → Bool
  | some (.arr _), _ | some (.obj _), _ => false
  | a, b => decide (a = b)

/-- The string that a value is, where only a string passes. -/
def asString (value : Option JsValue) (e : Thrown) : Except Thrown JsString :=
  match value with
  | some (.str s) => return s
  | _ => throw e

def requireHex (input : Option JsValue) (length : Option ℕ) : Except Thrown Bytes := do
  let decoded ← decodeLowerHex (← asString input (spr "InvalidHex"))
  refuse (∃ n ∈ length, decoded.length ≠ n) (spr "InvalidHex")
  return decoded

def assertExactObjectKeys (value : Option JsValue) (expected : List String)
    (invalidObjectCode : String) : Except Thrown Unit :=
  match value with
  | some (.obj members) => do
    refuse (members.any (fun m => !(expected.map utf16Units).contains m.1) = true)
      (spr "UnknownJsonField")
    refuse (members.length ≠ expected.length) (spr "InvalidCanonicalJson")
  | _ => throw (spr invalidObjectCode)

end Values

def QOS_P256_PUBLIC_LEN : ℕ := 130

def TVC_APP_PROOF_KEYS : List String := ["scheme", "public_key", "proof_payload", "signature"]

def OPERATION_PROOF_KEYS : List String :=
  ["type", "version", "request_id", "request_digest", "result_digest", "operation",
    "sealed_seed_digest"]

def PING_RESPONSE_KEYS : List String := ["version", "tvc_app_proof"]

structure QosP256Public where
  encryption : Bytes
  signing : Bytes

structure TurnkeyAppProofWire where
  scheme : JsString
  publicKey : JsString
  proofPayload : JsString
  signature : JsString

/-- A challenge encrypted to the quorum key, and the payload the enclave must sign. -/
structure QosPingChallenge where
  body : JsString
  payload : JsString

/-- An object literal. -/
def object (members : List (String × JsValue)) : JsValue :=
  .obj (members.map (Prod.map utf16Units id))

section Checks

variable (c : Crypto)

def parseQosP256Public (bytes : Bytes) : Except Thrown QosP256Public := do
  refuse (bytes.length ≠ QOS_P256_PUBLIC_LEN) (spr "InvalidPublicKey")
  let encryption ← parseUncompressedSec1 c (bytes.take SEC1_UNCOMPRESSED_LEN)
  let signing ← parseUncompressedSec1 c (bytes.drop SEC1_UNCOMPRESSED_LEN)
  return ⟨encryption, signing⟩

def verifyP256Message (publicSec1 message signature : Bytes) : Except Thrown Unit :=
  verifyP256Prehash c publicSec1 (c.sha256 message) signature

def requireQosPublicKey (value : JsString) : Except Thrown Bytes := do
  let bytes ← decodeLowerHex value
  refuse (bytes.length ≠ QOS_P256_PUBLIC_LEN) (spr "InvalidPublicKey")
  return bytes

/-- The payload of a ping, over the random bytes of its challenge. -/
def qosPingPayload (random : ByteArrayOf 32) : JsValue :=
  object [("type", .str (utf16Units TVC_QOS_PING_PROOF_TYPE)), ("version", apiVersion),
    ("challenge", .str (bytesToHex random.val))]

/-- A random challenge. `qosEncrypt` encrypts to a public key, with some randomness. -/
def qosPingChallenge (qosEncrypt : Bytes → Bytes → Except Thrown Bytes) (random : ByteArrayOf 32)
    (quorumPublicKey : JsString) : Except Thrown QosPingChallenge := do
  let quorumPublic ← parseQosP256Public c (← requireQosPublicKey quorumPublicKey)
  let payload ← canonicalizeJsonValue (qosPingPayload random)
  let ciphertext ← qosEncrypt quorumPublic.encryption (textEncode payload)
  let body ← canonicalizeJsonValue (object
    [("version", apiVersion), ("encrypted_challenge", .str (bytesToHex ciphertext))])
  return ⟨body, payload⟩

def verifyQosPingAnswer (text : JsString) (challenge : QosPingChallenge) :
    Except Thrown TurnkeyAppProofWire := do
  let parsed ← parseStrictJson text (some (PING_RESPONSE_KEYS.map utf16Units))
  refuse ((← property parsed "version") ≠ some apiVersion) (spr "UnsupportedVersion")
  let proof ← property parsed "tvc_app_proof"
  assertExactObjectKeys proof TVC_APP_PROOF_KEYS "TurnkeyEvidenceInvalid"
  let scheme ← propertyOf proof "scheme"
  let proofPayload ← propertyOf proof "proof_payload"
  refuse (scheme ≠ some (.str (utf16Units TVC_APP_PROOF_SCHEME)) ∨
    proofPayload ≠ some (.str challenge.payload)) (spr "TurnkeyEvidenceInvalid")
  let publicKey ← asString (← propertyOf proof "public_key") (spr "InvalidHex")
  let proofPublic ← parseQosP256Public c (← requireQosPublicKey publicKey)
  let signature ← asString (← propertyOf proof "signature") (spr "InvalidHex")
  verifyP256Message c proofPublic.signing (textEncode challenge.payload)
    (← decodeLowerHex signature)
  return ⟨utf16Units TVC_APP_PROOF_SCHEME, publicKey, challenge.payload, signature⟩

/-- `trustVerifier` is the boot proof verification, and any abort of the caller's. -/
def verifyOperationProof {BootProof : Type}
    (trustVerifier : TurnkeyAppProofWire → BootProof → Except Thrown Unit)
    (request response : JsValue) (bootProof : BootProof) : Except Thrown JsValue := do
  let proof ← property response "tvc_app_proof"
  assertExactObjectKeys proof TVC_APP_PROOF_KEYS "InvalidCanonicalJson"
  let scheme ← propertyOf proof "scheme"
  let proofPayload ← asString (← propertyOf proof "proof_payload") (spr "TurnkeyEvidenceInvalid")
  refuse (scheme ≠ some (.str (utf16Units TVC_APP_PROOF_SCHEME)) ∨ isRfc8785 proofPayload = false)
    (spr "TurnkeyEvidenceInvalid")
  let publicKey ← asString (← propertyOf proof "public_key") (spr "InvalidHex")
  let proofPublic ← parseQosP256Public c
    (← requireHex (some (.str publicKey)) (some QOS_P256_PUBLIC_LEN))
  let signature ← asString (← propertyOf proof "signature") (spr "InvalidHex")
  verifyP256Message c proofPublic.signing (textEncode proofPayload)
    (← requireHex (some (.str signature)) (some RAW_P256_SIGNATURE_LEN))
  -- The key is trusted before anything that it signed is read.
  trustVerifier ⟨utf16Units TVC_APP_PROOF_SCHEME, publicKey, proofPayload, signature⟩ bootProof
  let payload ← parseStrictJson proofPayload (some (OPERATION_PROOF_KEYS.map utf16Units))
  let mismatch := spr "ReleaseBindingMismatch"
  refuse ((← property payload "type") ≠ some (.str (utf16Units TVC_APP_PROOF_TYPE))) mismatch
  refuse ((← property payload "version") ≠ some apiVersion) mismatch
  refuse (strictEquals (← property payload "request_id") (← property request "request_id") = false)
    mismatch
  let digest ← requestDigest c.sha256 request
  refuse ((← property payload "request_digest") ≠ some (.str (bytesToHex digest.val))) mismatch
  let encryptedResult ← requireHex (← property response "encrypted_result") none
  let result := resultDigest c.sha256 encryptedResult
  refuse ((← property payload "result_digest") ≠ some (.str (bytesToHex result.val))) mismatch
  let kind ← propertyOf (← property request "operation") "type"
  refuse (strictEquals (← property payload "operation") kind = false) mismatch
  return payload

end Checks

/-- The payload of the App Proof in a response. -/
def appProofPayload (response : JsValue) : Except Thrown (Option JsValue) := do
  propertyOf (← property response "tvc_app_proof") "proof_payload"

section Facts

theorem asString_eq_ok {value : Option JsValue} {e : Thrown} {s : JsString} :
    asString value e = .ok s ↔ value = some (.str s) := by
  unfold asString
  split
  · simp
  · next hstring => simpa using hstring s

theorem jsonParse_of_parseStrictJson {text : JsString} {keys : Option (List JsString)} {v : JsValue}
    (h : parseStrictJson text keys = .ok v) : jsonParse text = some v := by
  simp only [parseStrictJson, bind_eq_ok, refuse_eq_ok, ofOption_eq_ok, exists_const] at h
  obtain ⟨rest, -, -, w, hw, h⟩ := h
  split at h
  · simp only [bind_eq_ok, refuse_eq_ok, pure_eq_ok, exists_const] at h
    obtain ⟨-, -, rfl⟩ := h
    exact hw
  · obtain rfl := pure_eq_ok.1 h
    exact hw

/-- The key that an App Proof names, of those a boot proof vouches for, signed its payload. -/
structure SignedBy (c : Crypto) (wire : TurnkeyAppProofWire) : Prop where
  scheme : wire.scheme = utf16Units TVC_APP_PROOF_SCHEME
  signature : ∃ key signature, decodeLowerHex wire.publicKey = .ok key ∧
    key.length = QOS_P256_PUBLIC_LEN ∧ decodeLowerHex wire.signature = .ok signature ∧
    c.Verifies (key.drop SEC1_UNCOMPRESSED_LEN) (c.sha256 (textEncode wire.proofPayload)) signature

/-- What `verifyOperationProof` has found in the payload that it returns. -/
structure OperationProven (c : Crypto) {BootProof : Type}
    (trustVerifier : TurnkeyAppProofWire → BootProof → Except Thrown Unit)
    (request response : JsValue) (bootProof : BootProof) (payload : JsValue) : Prop where
  proof : ∃ wire, SignedBy c wire ∧ trustVerifier wire bootProof = .ok () ∧
    appProofPayload response = .ok (some (.str wire.proofPayload)) ∧
    isRfc8785 wire.proofPayload = true ∧ jsonParse wire.proofPayload = some payload
  type : property payload "type" = .ok (some (.str (utf16Units TVC_APP_PROOF_TYPE)))
  version : property payload "version" = .ok (some apiVersion)
  requestId : ∃ a b, property payload "request_id" = .ok a ∧ property request "request_id" = .ok b ∧
    strictEquals a b = true
  requestDigest : ∃ d, requestDigest c.sha256 request = .ok d ∧
    property payload "request_digest" = .ok (some (.str (bytesToHex d.val)))
  resultDigest : ∃ value bytes, property response "encrypted_result" = .ok value ∧
    requireHex value none = .ok bytes ∧ property payload "result_digest" =
      .ok (some (.str (bytesToHex (resultDigest c.sha256 bytes).val)))
  operation : ∃ operation a b, property request "operation" = .ok operation ∧
    property payload "operation" = .ok a ∧ propertyOf operation "type" = .ok b ∧
    strictEquals a b = true

theorem requireHex_eq_ok {value : Option JsValue} {length : Option ℕ} {bytes : Bytes} :
    requireHex value length = .ok bytes ↔ ∃ s, value = some (.str s) ∧
      decodeLowerHex s = .ok bytes ∧ ∀ n ∈ length, bytes.length = n := by
  simp only [requireHex, bind_eq_ok, asString_eq_ok, refuse_eq_ok, pure_eq_ok, exists_const]
  constructor
  · rintro ⟨s, hs, decoded, hdecoded, hlength, rfl⟩
    exact ⟨s, hs, hdecoded, fun n hn => by_contra fun hne => hlength ⟨n, hn, hne⟩⟩
  · rintro ⟨s, hs, hdecoded, hlength⟩
    refine ⟨s, hs, bytes, hdecoded, ?_, rfl⟩
    rintro ⟨n, hn, hne⟩
    exact hne (hlength n hn)

theorem parseQosP256Public_eq_ok {c : Crypto} {bytes : Bytes} {key : QosP256Public}
    (h : parseQosP256Public c bytes = .ok key) :
    bytes.length = QOS_P256_PUBLIC_LEN ∧ key.signing = bytes.drop SEC1_UNCOMPRESSED_LEN := by
  simp only [parseQosP256Public, parseUncompressedSec1, bind_eq_ok, refuse_eq_ok, pure_eq_ok,
    exists_const, not_not] at h
  obtain ⟨hlength, _, ⟨-, -, -, rfl⟩, _, ⟨-, -, -, rfl⟩, rfl⟩ := h
  exact ⟨hlength, rfl⟩

theorem verifyOperationProof_eq_ok {c : Crypto} {BootProof : Type}
    {trustVerifier : TurnkeyAppProofWire → BootProof → Except Thrown Unit}
    {request response payload : JsValue} {bootProof : BootProof}
    (h : verifyOperationProof c trustVerifier request response bootProof = .ok payload) :
    OperationProven c trustVerifier request response bootProof payload := by
  simp only [verifyOperationProof, bind_eq_ok, refuse_eq_ok, asString_eq_ok, exists_const, not_not,
    not_or, ne_eq, Bool.not_eq_false, pure_eq_ok] at h
  -- The checks of the proof itself, in the order in which the verifier makes them.
  obtain ⟨proof, hproof, _, -, scheme, -, _, hpayload, text, htext, ⟨-, hcanonical⟩, _, -, publicKey,
    hpublic, key, hkey, parsed, hparsed, _, -, signature, hsignature, bytes, hbytes, _, hverify, _,
    htrust, h⟩ := h
  -- Those of the payload that it signs: type, version and request id.
  obtain ⟨payload', hparse, type, htype, htype', version, hversion, hversion', a, ha, b, hb, hid, h⟩ :=
    h
  -- And those of the two digests and the kind of operation.
  obtain ⟨d, hd, digest, hdigest, hdigest', value, hvalue, result, hresult, resultDigest,
    hresultDigest, hresultDigest', operation, hoperation, kind, hkind, k, hk, hequal, hpayload'⟩ := h
  subst htext htype' hversion' hdigest' hresultDigest' hpayload'
  obtain ⟨hlength, hsigning⟩ := parseQosP256Public_eq_ok hparsed
  obtain ⟨_, heq, hkeyHex, -⟩ := requireHex_eq_ok.1 hkey
  obtain rfl := Json.str.inj (Option.some.inj heq)
  obtain ⟨_, heq', hsignatureHex, -⟩ := requireHex_eq_ok.1 hbytes
  obtain rfl := Json.str.inj (Option.some.inj heq')
  rw [verifyP256Message, verifyP256Prehash_eq_ok, hsigning] at hverify
  exact
    { proof := ⟨⟨utf16Units TVC_APP_PROOF_SCHEME, publicKey, text, signature⟩,
        ⟨rfl, key, bytes, hkeyHex, hlength, hsignatureHex, hverify⟩, htrust,
        by rw [appProofPayload, hproof]; exact hpayload, hcanonical,
        jsonParse_of_parseStrictJson hparse⟩
      type := htype
      version := hversion
      requestId := ⟨a, b, ha, hb, hid⟩
      requestDigest := ⟨d, hd, hdigest⟩
      resultDigest := ⟨value, result, hvalue, hresult, hresultDigest⟩
      operation := ⟨operation, k, kind, hoperation, hk, hkind, hequal⟩ }

end Facts

end ZolanaTvc.Wallet
