import ZolanaTvc.Protocol.RoundTrip
import ZolanaTvc.Wallet.Prepared

/-!
# What the enclave makes of a request

The client signs a request and sends its canonical text. The enclave takes the text if it is canonical to
it and of the wire type, and checks the signature against a digest of what it read.

## Main results

* `understood_iff`: which requests the enclave reads as the client signed them.
-/

namespace ZolanaTvc.Wallet.OperationExecutor

open Except Effectful Json Protocol Serde OperationChecks

section Digests

variable {sha256 : Bytes → ByteArrayOf 32} {request : OperationRequest}

/-- The members of a request but for its authorization. -/
def OperationRequest.covered (r : OperationRequest) : List (String × JsValue) :=
  [("version", apiVersion), ("request_id", .str r.requestId),
    ("issued_at_ms", .str r.issuedAtMs), ("expires_at_ms", .str r.expiresAtMs),
    ("target_release_id", .str r.targetReleaseId),
    ("target_manifest_digest", .str r.targetManifestDigest),
    ("target_executable_digest", .str r.targetExecutableDigest),
    ("quorum_key_id", .str r.quorumKeyId), ("quorum_key_epoch", .str r.quorumKeyEpoch),
    ("wallet_descriptor", r.walletDescriptor.value), ("sealed_seed", r.sealedSeed),
    ("client_response_public_key", .str r.clientResponsePublicKey), ("operation", r.operation)]

/-- What the signature of a request covers. -/
def OperationRequest.signedValue (r : OperationRequest) : JsValue :=
  object (r.covered ++ [("authorization", object [("client_key_id", .str r.clientKeyId)])])

theorem value_eq (r : OperationRequest) : r.value = object (r.covered ++ [("authorization", object
    [("client_key_id", .str r.clientKeyId), ("signature", .str r.signature)])]) := rfl

theorem forall_covered {P : JsValue → Prop} {v w : JsValue} (hw : P w)
    (h : ∀ m ∈ request.covered ++ [("authorization", v)], P m.2) :
    ∀ m ∈ request.covered ++ [("authorization", w)], P m.2 := by
  rw [List.forall_mem_append, List.forall_mem_singleton] at h ⊢
  exact ⟨h.1, hw⟩

theorem legible_signedValue (h : Legible request.value) : Legible request.signedValue := by
  rw [value_eq, legible_object] at h
  rw [OperationRequest.signedValue, legible_object]
  refine forall_covered ?_ h
  rw [legible_object, List.forall_mem_singleton]
  exact legible_str _

theorem distinct_signedValue (h : request.value.Distinct) : request.signedValue.Distinct := by
  rw [value_eq] at h
  refine distinct_object (by simp [OperationRequest.covered]) (forall_covered ?_ (distinct_of_object h))
  refine distinct_object (by simp) ?_
  rw [List.forall_mem_singleton]
  exact distinct_str _

theorem isSome_append_signedValue (h : (jcs.append request.value).isSome) :
    (jcs.append request.signedValue).isSome := by
  rw [value_eq, isSome_append_object] at h
  rw [OperationRequest.signedValue, isSome_append_object]
  refine forall_covered (P := fun v => (jcs.append v).isSome = true) ?_ h
  rw [isSome_append_object, List.forall_mem_singleton]
  rfl

theorem requestDigest_value (sha256 : Bytes → ByteArrayOf 32) (request : OperationRequest) :
    requestDigest sha256 request.value =
      canonicalDigest sha256 REQUEST_DIGEST_DOMAIN request.signedValue := by
  rfl

theorem requestDigestInput_value {y : Protocol.OperationRequest}
    (hy : OperationRequest.codec.encode y = image request.value) :
    requestDigestInput y = canonicalInput (utf8 REQUEST_DIGEST_DOMAIN) (image request.signedValue) := by
  rw [requestDigestInput, hy, value_eq, OperationRequest.signedValue, image_object, image_object]
  rfl

/-- Requests that one signature covers have one digest. -/
theorem requestDigestInput_of_signed {r s : Protocol.OperationRequest} (h : r.signed = s.signed) {x : Bytes}
    (hx : requestDigestInput r = some x) : requestDigestInput s = some x := by
  have hwithout : ∀ r, (Json.obj (Variants.without "signature" (authorizationMembers r)) :
      Value).Distinct := fun r => Variants.distinct_without (distinct_authorizationMembers r)
  have hrequests : Reorder (.obj (requestMembers r)) (.obj (requestMembers s)) := by
    rw [← encode_unsigned, ← encode_unsigned, ← OperationRequest.codec.norm_eq_iff, OperationRequest.norm_eq,
      OperationRequest.norm_eq]
    exact h
  have hauthorization := reorder_without_iff (distinct_authorizationMembers r)
    (distinct_authorizationMembers s) ((get_signature r).trans (get_signature s).symm)
  have hreorder := (reorder_replaceMember_iff (distinct_requestMembers r) (distinct_requestMembers s)
    (hwithout r) (hwithout s) (get_authorization r) (get_authorization s) hauthorization).2 hrequests
  rw [requestDigestInput_eq] at hx ⊢
  obtain ⟨t, ht, rfl⟩ := Option.map_eq_some_iff.1 hx
  rw [canonicalInput, canonicalize_of_reorder
    (distinct_replaceMember (distinct_requestMembers r) (hwithout r)) hreorder ht]
  rfl

theorem sorted_sorted (operation : Protocol.Operation) : operation.sorted.sorted = operation.sorted := by
  have hdocument : ∀ d : Document, d.sorted.sorted = d.sorted := fun d =>
    Subtype.ext (sortBy_sortBy toList_injective d.property)
  cases operation with
  | prove request prover =>
    rw [Protocol.Operation.sorted, Protocol.Operation.sorted, hdocument, hdocument, hdocument]
  | _ => rfl

/-- The enclave computes the digest that the client signed. -/
theorem requestDigest_image (hdistinct : request.value.Distinct) (hlegible : Legible request.value)
    {y : Protocol.OperationRequest} (hy : OperationRequest.codec.encode y = image request.value)
    {digest : ByteArrayOf 32} (h : requestDigest sha256 request.value = .ok digest) :
    Protocol.requestDigest sha256 (OperationRequest.codec.norm y) = some digest := by
  rw [requestDigest_value] at h
  have hinput := canonicalDigest_image (distinct_signedValue hdistinct) (legible_signedValue hlegible) h
  rw [← requestDigestInput_value hy] at hinput
  obtain ⟨x, hx, rfl⟩ := Option.map_eq_some_iff.1 hinput
  have hsigned : y.signed = (OperationRequest.codec.norm y).signed := by
    rw [OperationRequest.norm_eq, Protocol.OperationRequest.signed, Protocol.OperationRequest.signed,
      sorted_sorted]
  rw [Protocol.requestDigest, requestDigestInput_of_signed hsigned hx]
  rfl

end Digests

section Main

/-- The embedded values came out of `JSON.parse`. -/
def IsParsed : Operation → Prop
  | .prove operation => (∃ t, jsonParse t = some (.obj operation.request)) ∧
      (∃ t, jsonParse t = some operation.prover.attestation) ∧ ∃ t, jsonParse t = some operation.prover.policy
  | _ => True

/-- The enclave takes what the client sends for canonical and for a request, and computes of it the digest
that the client computed. -/
def Understood (sha256 : Bytes → ByteArrayOf 32) (request : JsValue) : Prop :=
  ∃ body text r digest, canonicalizeJsonValue request = .ok body ∧ fromUtf8 (textEncode body) = some text ∧
    Protocol.isRfc8785 text = true ∧ parseOperationRequest text = some r ∧
      requestDigest sha256 request = .ok digest ∧ Protocol.requestDigest sha256 r = some digest

theorem distinct_operation {operation : Operation} (h : IsParsed operation) : operation.value.Distinct := by
  cases operation with
  | bootstrap => exact distinct_object (by decide) (by simp [Operation.type, Operation.fields])
  | decrypt operation =>
    have hitem : ∀ item : DecryptItem, item.value.Distinct := fun item =>
      distinct_object (by simp) (by simp)
    refine distinct_object (by simp [Operation.fields]) ?_
    simp [Operation.fields, hitem]
  | derive operation =>
    have hitem : ∀ item : DeriveItem, item.value.Distinct := by
      intro item
      cases item <;> exact distinct_object (by simp) (by simp)
    refine distinct_object (by simp [Operation.fields]) ?_
    simp [Operation.fields, hitem]
  | transactionKeys operation =>
    have hitem : ∀ item : TransactionKeyItem, item.value.Distinct := fun item =>
      distinct_object (by simp) (by simp)
    refine distinct_object (by simp [Operation.fields]) ?_
    simp [Operation.fields, hitem]
  | prove operation =>
    -- The free JSON of the caller came out of `JSON.parse`.
    obtain ⟨⟨_, hrequest⟩, ⟨_, hattestation⟩, ⟨_, hpolicy⟩⟩ := h
    have hprover : operation.prover.value.Distinct := by
      refine distinct_object (by simp) ?_
      simp only [List.forall_mem_cons, List.not_mem_nil, false_imp_iff, implies_true, and_true, distinct_str,
        distinct_of_jsonParse hattestation, distinct_of_jsonParse hpolicy]
    refine distinct_object (by simp [Operation.fields]) ?_
    simp only [Operation.fields, List.forall_mem_cons, List.not_mem_nil, false_imp_iff, implies_true, and_true,
      distinct_str, distinct_of_jsonParse hrequest, hprover]

variable {BootProof : Type} {c : QosCrypto} {context : OperationExecutionContext} {operation : Operation}
  {sealedSeed : Option JsString} {r : Readings BootProof} {request : OperationRequest}
  {grant : Option JsValue}

theorem canonicalize_of_prepared {operation : JsValue}
    (h : (prepareRequest c context operation sealedSeed r).result = .ok (request, grant)) :
    ∃ body, canonicalizeJsonValue request.value = .ok body := by
  obtain ⟨unsigned, client, n, signature, -, hchecked, hlength, rfl⟩ := prepareRequest_ok h
  obtain ⟨signedBytes, hsigned, -⟩ := bind_eq_ok.1 hchecked.preflight
  have hplaceholder : textLength.of (jcs.quote (bytesToHex (List.replicate RAW_P256_SIGNATURE_LEN 0))) =
      textLength.of (jcs.quote (bytesToHex signature)) := by
    rw [quote_hex, quote_hex, List.length_replicate, hlength]
  obtain ⟨body, hbody, -⟩ := bind_eq_ok.1 ((byteLength_signature hplaceholder).1 hsigned)
  exact ⟨body, hbody⟩

theorem requestDigest_of_canonicalize {sha256 : Bytes → ByteArrayOf 32} {body : JsString}
    (h : canonicalizeJsonValue request.value = .ok body) :
    ∃ digest, requestDigest sha256 request.value = .ok digest := by
  have happend := isSome_append_signedValue (Option.isSome_of_eq_some (canonicalizeJsonValue_eq_ok.1 h))
  obtain ⟨text, htext⟩ := Option.isSome_iff_exists.1 happend
  rw [requestDigest_value, canonicalDigest, canonicalizeJsonValue_eq_ok.2 htext]
  exact ⟨_, rfl⟩

/-- The enclave understands a request if and only if the descriptor and the release are of its types, and the
numbers, the names and the nesting of the operation are within what it reads. -/
theorem understood_iff (hcheck : PassesCheck operation) (hparsed : IsParsed operation)
    (h : (prepareRequest c context operation.value sealedSeed r).result = .ok (request, grant)) :
    Understood c.sha256 request.value ↔
      context.Readable ∧ Legible operation.value ∧ operation.value.depth < recursionLimit := by
  have hprepared := prepared_of_ok h
  have hoperation := distinct_operation hparsed
  have hdistinct := hprepared.distinct hoperation
  constructor
  · rintro ⟨body, text, y, digest, hbody, htext, hcanonical, hparse, -, -⟩
    obtain rfl : lossy body = text := Option.some.inj ((fromUtf8_utf8 (lossy body)).symm.trans htext)
    -- A text that the enclave finds canonical has numbers and nesting that it reads.
    obtain ⟨hlegible, hdepth⟩ := legible_of_isRfc8785 hbody hcanonical
    rw [parseOperationRequest, Protocol.parseStrictJson, strictValue_image hdistinct hlegible hdepth hbody,
      Option.bind_some] at hparse
    exact ⟨readable_of_decode hprepared hparse, hprepared.legible_iff.1 hlegible,
      hprepared.depth_iff.1 hdepth⟩
  · rintro ⟨hcontext, hlegible, hdepth⟩
    -- From the operation to the request, and from the request to its text and its digest.
    obtain ⟨x, hx⟩ := exists_encode_operation hcheck hoperation hlegible
    obtain ⟨y, hy⟩ := exists_encode_request hprepared hcontext hx
    obtain ⟨body, hbody⟩ := canonicalize_of_prepared h
    obtain ⟨digest, hdigest⟩ := @requestDigest_of_canonicalize request c.sha256 body hbody
    have hlegible' := hprepared.legible_iff.2 hlegible
    have hdepth' := hprepared.depth_iff.2 hdepth
    refine ⟨body, lossy body, OperationRequest.codec.norm y, digest, hbody, fromUtf8_utf8 _,
      (isRfc8785_lossy_iff hdistinct hbody).2 ⟨hlegible', hdepth'⟩, ?_, hdigest,
      requestDigest_image hdistinct hlegible' hy hdigest⟩
    rw [parseOperationRequest, Protocol.parseStrictJson, strictValue_image hdistinct hlegible' hdepth' hbody,
      Option.bind_some, ← hy]
    exact OperationRequest.exact .value y

end Main

section Samples

variable (c : QosCrypto) (key : Bytes)

def sampleDescriptor : WalletDescriptor :=
  { sampleContext.descriptor with
    securityDomainId := bytesToHex sampleReadings.requestId.val
    allowedClients := [⟨bytesToHex key, [utf16Units "Bootstrap", utf16Units "Prove"]⟩] }

/-- A wallet with one client, of a release that takes requests of a size. -/
def releaseContext (limit : ℕ) : OperationExecutionContext :=
  { sampleContext with
    info :=
      { sampleContext.info with
        manifestDigest := bytesToHex sampleReadings.requestId.val
        executableDigest := bytesToHex sampleReadings.requestId.val
        supportedOperations := [utf16Units "Bootstrap", utf16Units "Prove"]
        maxEncryptedRequestBytes := printDigits (digitsOf limit) }
    descriptor := sampleDescriptor key
    clientKeyId := clientKeyIdFor c key }

theorem readable_sampleDescriptor : (sampleDescriptor key).Readable where
  securityDomainId := ⟨sampleReadings.requestId, rfl⟩
  network := ⟨.devnet, rfl⟩
  allowedClients := by
    intro g hg
    obtain rfl := List.mem_singleton.1 hg
    refine ⟨⟨key, rfl⟩, ?_⟩
    intro name hname
    obtain rfl | hname := List.mem_cons.1 hname
    · exact ⟨.bootstrap, rfl⟩
    · obtain rfl := List.mem_singleton.1 hname
      exact ⟨.prove, rfl⟩
  expiresAtMs := ⟨2000, show utf16Units "2000" = _ by rfl⟩
  provisioningSignature := ⟨[], rfl⟩

theorem readable_releaseContext (limit : ℕ) : (releaseContext c key limit).Readable where
  descriptor := readable_sampleDescriptor key
  manifestDigest := ⟨sampleReadings.requestId, rfl⟩
  executableDigest := ⟨sampleReadings.requestId, rfl⟩
  quorumKeyEpoch := ⟨1, show utf16Units "1" = _ by rfl⟩

/-- The request to sign for an operation of the wallet. -/
def draft (responsePublic : Bytes) (operation : JsValue) (signature : JsString) : OperationRequest where
  requestId := bytesToHex sampleReadings.requestId.val
  issuedAtMs := (Numeral.ofInt 1000).print
  expiresAtMs := (Numeral.ofInt (1000 + MAX_REQUEST_AGE_MS.toNat)).print
  targetReleaseId := utf16Units "release-1"
  targetManifestDigest := bytesToHex sampleReadings.requestId.val
  targetExecutableDigest := bytesToHex sampleReadings.requestId.val
  quorumKeyId := utf16Units "quorum-1"
  quorumKeyEpoch := utf16Units "1"
  walletDescriptor := sampleDescriptor key
  sealedSeed := .null
  clientResponsePublicKey := bytesToHex responsePublic
  operation := operation
  clientKeyId := clientKeyIdFor c key
  signature := signature

variable {c key} {operation : JsValue} {kind : String}

theorem unsignedRequest_sample {responsePublic : ByteArrayOf 65}
    (hpublic : c.publicKey sampleReadings.responseSecret = some responsePublic) (limit : ℕ)
    (hkind : kind ∈ ["Bootstrap", "Prove"])
    (htype : property operation "type" = .ok (some (.str (utf16Units kind)))) :
    ∃ client, unsignedRequest c (releaseContext c key limit) operation none sampleReadings =
      .ok (draft c key responsePublic.val operation [], client, none) ∧
        client.clientPublicKey = bytesToHex key := by
  have hallowed : ∀ kind ∈ ["Bootstrap", "Prove"], ([utf16Units "Bootstrap", utf16Units "Prove"].any
      fun allowed => some (.str (utf16Units kind) : JsValue) = some (.str allowed)) ≠ false := by
    simp
  have hfound : findClient c (releaseContext c key limit).clientKeyId
      (releaseContext c key limit).descriptor.allowedClients =
        .ok (some ⟨bytesToHex key, [utf16Units "Bootstrap", utf16Units "Prove"]⟩) := by
    refine bind_eq_ok.2 ⟨key, decodeLowerHex_eq_ok.2 rfl, ?_⟩
    exact if_pos rfl
  have hmatching : matchingGrant c (releaseContext c key limit) (some (.str (utf16Units kind))) =
      .ok ⟨bytesToHex key, [utf16Units "Bootstrap", utf16Units "Prove"]⟩ := by
    refine bind_eq_ok.2 ⟨_, hfound, bind_eq_ok.2 ⟨_, rfl, bind_eq_ok.2 ⟨(), ?_, rfl⟩⟩⟩
    exact refuse_eq_ok.2 (hallowed kind hkind)
  refine ⟨⟨bytesToHex key, [utf16Units "Bootstrap", utf16Units "Prove"]⟩, ?_, rfl⟩
  refine bind_eq_ok.2 ⟨(), rfl, bind_eq_ok.2 ⟨_, htype, bind_eq_ok.2 ⟨(), ?_, bind_eq_ok.2 ⟨(), ?_,
    bind_eq_ok.2 ⟨_, hmatching, bind_eq_ok.2 ⟨_, rfl, bind_eq_ok.2 ⟨(), ?_, bind_eq_ok.2
      ⟨responsePublic, ofOption_eq_ok.2 hpublic, ?_⟩⟩⟩⟩⟩⟩⟩⟩
  · exact refuse_eq_ok.2 (hallowed kind hkind)
  · exact refuse_eq_ok.2 fun h => h rfl
  · refine refuse_eq_ok.2 ?_
    show ¬((1000 : ℤ) < 0 ∨ (1000 : ℤ) > 2000)
    decide
  · exact bind_eq_ok.2 ⟨_, rfl, bind_eq_ok.2 ⟨_, rfl, rfl⟩⟩

theorem isSome_num {n : JsNumber} (h : n.numeral.isSome) : (jcs.append (.num n)).isSome := by
  rw [Writer.append, jcs.number_eq, Option.isSome_map]
  exact h

theorem isSome_apiVersion : (jcs.append apiVersion).isSome :=
  isSome_num (Option.isSome_of_eq_some numeral_one)

theorem isSome_draft (responsePublic : Bytes) (signature : JsString)
    (hoperation : (jcs.append operation).isSome) :
    (jcs.append (draft c key responsePublic operation signature).value).isSome := by
  have hstr : ∀ s : JsString, (jcs.append (.str s)).isSome = true := fun _ => rfl
  have hversion : (jcs.append apiVersion).isSome = true := isSome_apiVersion
  have hdescriptor : (jcs.append (sampleDescriptor key).value).isSome = true := by
    rw [WalletDescriptor.value, isSome_append_object]
    simp only [List.forall_mem_cons, List.not_mem_nil, false_imp_iff, implies_true, and_true, hstr, hversion,
      true_and]
    rfl
  rw [OperationRequest.value, isSome_append_object]
  simp only [List.forall_mem_cons, List.not_mem_nil, false_imp_iff, implies_true, and_true, hstr, hversion,
    hdescriptor, hoperation, true_and, draft, isSome_append_object]
  rfl

theorem preflightBytes_sample (responsePublic : Bytes) (hoperation : (jcs.append operation).isSome) :
    ∃ n, ∀ limit, preflightBytes (releaseContext c key limit) (draft c key responsePublic operation []) none =
      .ok n := by
  have hversion : (jcs.append apiVersion).isSome = true := isSome_apiVersion
  have hempty : (jcs.append (encryptedRequest (releaseContext c key 0).info [] none)).isSome := by
    rw [encryptedRequest, isSome_append_object]
    simp only [Option.toList, List.map_nil, List.append_nil, List.forall_mem_cons, List.not_mem_nil,
      false_imp_iff, implies_true, and_true, hversion, true_and]
    exact ⟨rfl, rfl, rfl⟩
  obtain ⟨m, hm⟩ : ∃ m, byteLength (draft c key responsePublic operation
      (bytesToHex (List.replicate RAW_P256_SIGNATURE_LEN 0))).value = .ok m :=
    ⟨_, byteLength_eq_ok.2 ⟨isSome_draft responsePublic _ hoperation, rfl⟩⟩
  obtain ⟨k, hk⟩ : ∃ k, byteLength (encryptedRequest (releaseContext c key 0).info [] none) = .ok k :=
    ⟨_, byteLength_eq_ok.2 ⟨hempty, rfl⟩⟩
  exact ⟨k + GATEWAY_GRANT_BYTES +
      2 * (m + AES_GCM_NONCE_LEN + SEC1_UNCOMPRESSED_LEN + 4 + AES_GCM_TAG_LEN),
    fun limit => bind_eq_ok.2 ⟨m, hm, bind_eq_ok.2 ⟨_, bind_eq_ok.2 ⟨k, hk, rfl⟩, rfl⟩⟩⟩

/-- The client asks its key to sign a request of whatever size, of a release that takes it. -/
theorem exists_prepared {responsePublic : ByteArrayOf 65}
    (hpublic : c.publicKey sampleReadings.responseSecret = some responsePublic)
    (hkey : key.length = SEC1_UNCOMPRESSED_LEN)
    (hverify : ∀ digest, verifyP256Prehash c.toCrypto key digest (List.replicate 64 1) = .ok ())
    (hkind : kind ∈ ["Bootstrap", "Prove"])
    (htype : property operation "type" = .ok (some (.str (utf16Units kind))))
    (hoperation : (jcs.append operation).isSome) :
    ∃ limit request,
      (prepareRequest c (releaseContext c key limit) operation none sampleReadings).result =
        .ok (request, none) := by
  obtain ⟨n, hn⟩ := @preflightBytes_sample c key operation responsePublic.val hoperation
  obtain ⟨client, hunsigned, hclient⟩ :=
    @unsignedRequest_sample c key operation kind responsePublic hpublic n hkind htype
  obtain ⟨body, hbody⟩ := Option.isSome_iff_exists.1
    (@isSome_draft c key operation responsePublic.val [] hoperation)
  obtain ⟨digest, hdigest⟩ := @requestDigest_of_canonicalize _ c.sha256 body
    (canonicalizeJsonValue_eq_ok.2 hbody)
  have hlimit : checkRequestSize (releaseContext c key n).info n = .ok () := by
    refine bind_eq_ok.2 ⟨_, ofOption_eq_ok.2 (bigInt_printDigits n), refuse_eq_ok.2 ?_⟩
    exact lt_irrefl _
  obtain ⟨message, hmessage⟩ : ∃ message, clientAuthMessage digest.val = .ok message :=
    ⟨_, bind_eq_ok.2 ⟨(), refuse_eq_ok.2 fun h => h digest.property, rfl⟩⟩
  refine ⟨n, draft c key responsePublic.val operation (bytesToHex (List.replicate 64 1)), ?_⟩
  simp only [prepareRequest, result_bind, bind_eq_ok, Prod.exists]
  refine ⟨_, client, none, hunsigned, n, hn n, (), hlimit, digest, hdigest, message, hmessage, _, rfl, key,
    ?_, (), hverify _, rfl⟩
  rw [hclient]
  refine requireHex_bytesToHex ?_
  rintro _ ⟨⟩
  exact hkey

def mergeRequest : List (JsString × JsValue) :=
  [(utf16Units "circuitType", .str (utf16Units "merge")), (utf16Units "inputs", .arr [.null]),
    (utf16Units "userNullifierSecret", .null)]

def unsignedPolicy : SignedProverPolicyFile := ⟨⟨[], []⟩, ⟨[], []⟩⟩

/-- An operation to prove, with a number in its attestation. -/
def attested (n : JsNumber) : ProveOperation where
  request := mergeRequest
  prover :=
    { target := utf16Units "/prove/merge_1_1"
      nonce := bytesToHex sampleReadings.requestId.val
      attestation := object [("n", .num n)]
      policy := unsignedPolicy.value }

theorem passesCheck_attested (n : JsNumber) : PassesCheck (.prove (attested n)) := by
  have hsealing : assertExactObjectKeys (some (attested n).prover.value) SEALING_KEYS
      "InvalidProverRequest" = .ok () := assertExactObjectKeys_object
  have hfile : assertExactObjectKeys (some (attested n).prover.policy) SIGNED_POLICY_KEYS
      "InvalidProverRequest" = .ok () := assertExactObjectKeys_object
  have hnonce : requireHexText (attested n).prover.nonce (some 32) = .ok () := requireHexText_array _
  have hpart := checkSignedPart_value ⟨[], []⟩
  have hcircuit : ¬Prover.isProveCircuit (mergeRequest.lookup (utf16Units "circuitType")) = false := by
    decide +kernel
  have hopened : isOpen "userNullifierSecret" (.obj mergeRequest) ≠ false := by decide +kernel
  have hmerge : mergeRequest.lookup (utf16Units "circuitType") = some (.str (utf16Units "merge")) := by
    decide +kernel
  have htarget : utf16Units "/prove/merge_1_1" = Prover.proverTarget (utf16Units "merge_1_1") := by
    decide +kernel
  have hkey : Prover.provingKeyName (.obj mergeRequest) = .ok (utf16Units "merge_1_1") := by
    decide +kernel
  show checkProve (attested n) = .ok (attested n)
  refine bind_eq_ok.2 ⟨(), hsealing, bind_eq_ok.2 ⟨(), hfile, bind_eq_ok.2 ⟨_, rfl, bind_eq_ok.2 ⟨(), hpart,
    bind_eq_ok.2 ⟨_, rfl, bind_eq_ok.2 ⟨(), hpart, bind_eq_ok.2 ⟨(), hnonce, bind_eq_ok.2 ⟨(), rfl,
    bind_eq_ok.2 ⟨_, rfl, bind_eq_ok.2 ⟨(), ?_, bind_eq_ok.2 ⟨_, rfl, ?_⟩⟩⟩⟩⟩⟩⟩⟩⟩⟩⟩
  · exact refuse_eq_ok.2 hcircuit
  · refine bind_eq_ok.2 ⟨(), refuse_eq_ok.2 (by decide), bind_eq_ok.2 ⟨(), ?_, bind_eq_ok.2 ⟨_, hkey,
      bind_eq_ok.2 ⟨(), ?_, rfl⟩⟩⟩⟩
    · refine refuse_eq_ok.2 ?_
      rw [if_pos (.inl hmerge)]
      exact hopened
    · exact refuse_eq_ok.2 fun h => h htarget

theorem isParsed_attested {n : JsNumber} {text : String}
    (h : jsonParse (utf16Units text) = some (object [("n", .num n)])) : IsParsed (.prove (attested n)) := by
  refine ⟨⟨utf16Units "\x7b\"circuitType\":\"merge\",\"inputs\":[null],\"userNullifierSecret\":null\x7d", ?_⟩,
    ⟨_, h⟩, ⟨utf16Units ("\x7b\"release\":\x7b\"payload\":\"\",\"signatures\":[]\x7d," ++
      "\"freshness\":\x7b\"payload\":\"\",\"signatures\":[]\x7d\x7d"), ?_⟩⟩
  · show _ = some (Json.obj mergeRequest : JsValue)
    decide +kernel
  · show _ = some unsignedPolicy.value
    decide +kernel

theorem isSome_attested {n : JsNumber} (h : n.numeral.isSome) :
    (jcs.append (Operation.prove (attested n)).value).isSome := by
  have hstr : ∀ s : JsString, (jcs.append (.str s)).isSome = true := fun _ => rfl
  have hrequest : (jcs.append (object [("circuitType", .str (utf16Units "merge")),
      ("inputs", .arr [.null]), ("userNullifierSecret", .null)])).isSome = true := by
    rw [isSome_append_object]
    simp only [List.forall_mem_cons, List.not_mem_nil, false_imp_iff, implies_true, and_true, hstr, true_and]
    exact ⟨rfl, rfl⟩
  have hpolicy : (jcs.append unsignedPolicy.value).isSome = true := by
    simp only [SignedProverPolicyFile.value, SignedProverPolicyPart.value, isSome_append_object,
      List.forall_mem_cons, List.not_mem_nil, false_imp_iff, implies_true, and_true, hstr, true_and]
    exact ⟨rfl, rfl⟩
  have hattestation : (jcs.append (attested n).prover.attestation).isSome = true := by
    refine isSome_append_object.2 ?_
    simpa using isSome_num h
  have hprover : (jcs.append (attested n).prover.value).isSome = true := by
    rw [ProverSealing.value, isSome_append_object]
    simp only [List.forall_mem_cons, List.not_mem_nil, false_imp_iff, implies_true, and_true, hstr,
      hattestation, true_and]
    exact hpolicy
  rw [Operation.value, isSome_append_object]
  simp only [Operation.fields, List.forall_mem_cons, List.not_mem_nil, false_imp_iff, implies_true, and_true,
    hstr, hprover, true_and]
  exact hrequest

theorem exists_prepared_fixture {operation : JsValue} {kind : String} (hkind : kind ∈ ["Bootstrap", "Prove"])
    (htype : property operation "type" = .ok (some (.str (utf16Units kind))))
    (hoperation : (jcs.append operation).isSome) :
    ∃ limit request, (prepareRequest fixtureCrypto (releaseContext fixtureCrypto fixtureReceiver.val limit)
      operation none sampleReadings).result = .ok (request, none) := by
  refine @exists_prepared _ _ _ _ fixtureEphemeral publicKey_ephemeral fixtureReceiver.property ?_ hkind
    htype hoperation
  intro digest
  rfl

theorem legible_attested {n : JsNumber} :
    Legible (Operation.prove (attested n)).value ↔ LegibleNumber n := by
  have hrequest : Legible (.obj mergeRequest) := by
    show Legible (object [("circuitType", .str (utf16Units "merge")), ("inputs", .arr [.null]),
      ("userNullifierSecret", .null)])
    rw [legible_object]
    simp only [List.forall_mem_cons, List.not_mem_nil, false_imp_iff, implies_true, and_true, legible_str]
    exact ⟨trivial, .arr (by simp), .null⟩
  have hpolicy : Legible unsignedPolicy.value := by
    have hpart : Legible (SignedProverPolicyPart.value ⟨[], []⟩) := by
      rw [SignedProverPolicyPart.value, legible_object]
      simp only [List.forall_mem_cons, List.not_mem_nil, false_imp_iff, implies_true, and_true]
      exact ⟨legible_str [], .arr (by simp)⟩
    rw [SignedProverPolicyFile.value, legible_object]
    simp only [List.forall_mem_cons, List.not_mem_nil, false_imp_iff, implies_true, and_true]
    exact ⟨hpart, hpart⟩
  have hattestation : Legible (attested n).prover.attestation ↔ LegibleNumber n := by
    refine legible_object.trans ?_
    rw [List.forall_mem_singleton]
    exact all_num
  have hprover : Legible (attested n).prover.value ↔ LegibleNumber n := by
    rw [ProverSealing.value, legible_object, ← hattestation]
    simp only [List.forall_mem_cons, List.not_mem_nil, false_imp_iff, implies_true, and_true, legible_str,
      true_and]
    exact and_iff_left hpolicy
  rw [Operation.value, legible_object, ← hprover]
  simp only [Operation.fields, List.forall_mem_cons, List.not_mem_nil, false_imp_iff, implies_true, and_true,
    legible_str, true_and]
  exact and_iff_right hrequest

/-- An attestation whose number the enclave reads. -/
theorem understood_iff_attested : ∃ limit request,
    (prepareRequest fixtureCrypto (releaseContext fixtureCrypto fixtureReceiver.val limit)
      (Operation.prove (attested (ofNumeral (.ofInt 1)))).value none sampleReadings).result =
        .ok (request, none) ∧ Understood fixtureCrypto.sha256 request.value := by
  have hparse : jsonParse (utf16Units "\x7b\"n\":1\x7d") =
      some (object [("n", .num (ofNumeral (.ofInt 1)))]) := by decide +kernel
  have hlegible : Legible (Operation.prove (attested (ofNumeral (.ofInt 1)))).value :=
    legible_attested.2 ⟨1, numeral_one, by decide⟩
  have hdepth : (Operation.prove (attested (ofNumeral (.ofInt 1)))).value.depth < recursionLimit := by
    decide
  obtain ⟨limit, request, h⟩ := exists_prepared_fixture (by simp : "Prove" ∈ ["Bootstrap", "Prove"]) rfl
    (isSome_attested (n := ofNumeral (.ofInt 1)) (Option.isSome_of_eq_some numeral_one))
  exact ⟨limit, request, h, (understood_iff (passesCheck_attested _) (isParsed_attested hparse) h).2
    ⟨readable_releaseContext _ _ _, hlegible, hdepth⟩⟩

/-- The client signs an attestation with the number 2 ^ 64, which the enclave takes for no integer. -/
theorem not_understood_attested :
    (∃ text, jsonParse (utf16Units text) = some (object [("n", .num (ofNumeral (.ofInt (2 ^ 64))))])) ∧
    PassesCheck (.prove (attested (ofNumeral (.ofInt (2 ^ 64))))) ∧
    IsParsed (.prove (attested (ofNumeral (.ofInt (2 ^ 64))))) ∧
    ∃ limit request,
      (releaseContext fixtureCrypto fixtureReceiver.val limit).Readable ∧
      (prepareRequest fixtureCrypto (releaseContext fixtureCrypto fixtureReceiver.val limit)
        (Operation.prove (attested (ofNumeral (.ofInt (2 ^ 64))))).value none sampleReadings).result =
          .ok (request, none) ∧ ¬Understood fixtureCrypto.sha256 request.value := by
  have hparse : jsonParse (utf16Units "\x7b\"n\":18446744073709551616\x7d") =
      some (object [("n", .num (ofNumeral (.ofInt (2 ^ 64))))]) := by decide +kernel
  have hnumeral : (ofNumeral (.ofInt (2 ^ 64))).numeral = some (.ofInt 18446744073709552000) := by
    decide +kernel
  obtain ⟨limit, request, h⟩ := exists_prepared_fixture (by simp : "Prove" ∈ ["Bootstrap", "Prove"]) rfl
    (isSome_attested (n := ofNumeral (.ofInt (2 ^ 64))) (by rw [hnumeral]; rfl))
  refine ⟨⟨_, hparse⟩, passesCheck_attested _, isParsed_attested hparse, limit, request,
    readable_releaseContext _ _ _, h, ?_⟩
  rintro ⟨body, text, -, -, hbody, htext, hcanonical, -⟩
  obtain rfl : lossy body = text := Option.some.inj ((fromUtf8_utf8 (lossy body)).symm.trans htext)
  obtain ⟨k, hk, hrange⟩ :=
    legible_attested.1 ((prepared_of_ok h).legible_iff.1 (legible_of_isRfc8785 hbody hcanonical).1)
  obtain rfl := Numeral.ofInt_injective (Option.some.inj (hnumeral.symm.trans hk))
  omega

end Samples

end ZolanaTvc.Wallet.OperationExecutor
