import ZolanaTvc.Wallet.Drafts

/-!
# The size that is checked before the key is asked

## Main results

* `preflight_exact`: the size that is checked before a request is signed is the size of what reaches the
  enclave, so that nothing is refused for its size once the key was asked.
-/

namespace ZolanaTvc.Wallet

open Except Effectful Json Protocol Serde Wallet.OperationExecutor

section Runs

variable {BootProof : Type} {c : QosCrypto}
  {trustVerifier : TurnkeyAppProofWire → BootProof → Except Thrown Unit}
  {context : OperationExecutionContext} {r : Readings BootProof}

theorem property_ne (value : JsValue) (name : String) :
    property value name ≠ .error (spr "RequestTooLarge") := by
  unfold property
  split <;> simp

theorem propertyOf_ne (value : Option JsValue) (name : String) :
    propertyOf value name ≠ .error (spr "RequestTooLarge") := by
  simp [propertyOf, bind_eq_error, property_ne]

theorem asString_ne {code : String} (value : Option JsValue) (hcode : code ≠ "RequestTooLarge") :
    asString value (spr code) ≠ .error (spr "RequestTooLarge") := by
  unfold asString
  split <;> simp [hcode]

theorem parseStrictJson_ne (text : JsString) (exactKeys : Option (List JsString)) :
    parseStrictJson text exactKeys ≠ .error (spr "RequestTooLarge") := by
  intro h
  obtain h | h := parseStrictJson_error h
  · simp [ScanError] at h
  · simp at h

theorem assertExactObjectKeys_ne (value : Option JsValue) (expected : List String) :
    assertExactObjectKeys value expected "InvalidCanonicalJson" ≠ .error (spr "RequestTooLarge") := by
  unfold assertExactObjectKeys
  split <;> simp [bind_eq_error]

theorem requestDigest_ne (sha256 : Bytes → ByteArrayOf 32) (request : JsValue) :
    Wallet.requestDigest sha256 request ≠ .error (spr "RequestTooLarge") := by
  unfold Wallet.requestDigest
  split
  · split <;> simp [bind_eq_error, canonicalDigest, canonicalizeJsonValue, -bind_pure_comp]
  · simp

/-- A proof is refused for its size only where the verification of its boot proof says so. -/
theorem verifyOperationProof_error {request response : JsValue} {bootProof : BootProof}
    (h : verifyOperationProof c.toCrypto trustVerifier request response bootProof =
      .error (spr "RequestTooLarge")) :
    ∃ wire, trustVerifier wire bootProof = .error (spr "RequestTooLarge") := by
  simp only [verifyOperationProof, ne_eq, verifyP256Message, bind_eq_error, property_ne,
    assertExactObjectKeys_ne, propertyOf_ne, String.reduceEq, not_false_eq_true, asString_ne,
    refuse_eq_error, Thrown.sprEmbeddedWalletError.injEq, and_false, refuse_eq_ok, not_or,
    Decidable.not_not, Bool.not_eq_false, requireHex_ne, parseQosP256Public_ne, verifyP256Prehash_ne,
    parseStrictJson_ne, requestDigest_ne, pure_ne_error, exists_const, or_self, exists_false, or_false,
    exists_and_right, false_or, ↓existsAndEq, true_and, exists_and_left] at h
  obtain ⟨_, -, -, -, _, -, _, -, -, _, -, _, -, _, -, _, -, _, -, _, -, _, -, -, h⟩ := h
  exact ⟨_, h⟩

theorem openAnswer_error {request : Wallet.OperationExecutor.OperationRequest} {maxResponseBytes : ℤ}
    {answer : OperationAnswer BootProof}
    (h : openAnswer c trustVerifier r request maxResponseBytes answer = .error (spr "RequestTooLarge")) :
    ∃ wire, trustVerifier wire answer.bootProof = .error (spr "RequestTooLarge") := by
  simp only [openAnswer, ne_eq, gt_iff_lt, bind_eq_error, parseStrictJson_ne, property_ne,
    refuse_eq_error, Thrown.sprEmbeddedWalletError.injEq, String.reduceEq, and_false, refuse_eq_ok,
    Decidable.not_not, requireHex_ne, not_lt, expect_eq_error, expect_eq_ok, ofOption_eq_error,
    ofOption_eq_ok, Bool.not_eq_false, pure_ne_error, exists_const, or_self, exists_false, or_false,
    false_or, ↓existsAndEq, true_and] at h
  obtain ⟨_, -, -, _, -, _, -, -, _, -, _, -, -, h⟩ := h
  exact verifyOperationProof_error h

theorem sendOperation_error {encrypted : JsValue}
    (h : (sendOperation context r encrypted).result = .error (spr "RequestTooLarge")) :
    r.answer = .error (spr "RequestTooLarge") := by
  have hbody : operationBody context encrypted ≠ .error (spr "RequestTooLarge") := by
    unfold operationBody
    split <;> simp [canonicalizeJsonValue]
  rw [sendOperation, result_bind, bind_eq_error] at h
  obtain h | ⟨_, -, h⟩ := h
  · exact absurd h hbody
  · exact h

/-- Once the key was asked, no step but a call out refuses the size. -/
theorem tooLarge_after_asked
    (hgcm : ∀ key nonce aad m, (c.gcmEncrypt key nonce aad m).length = m.length + AES_GCM_TAG_LEN)
    {operation : JsValue} {sealedSeed : Option JsString} {request : JsValue} {message : JsString}
    (he : .asked request message ∈
      (executeOperationEnvelope c trustVerifier context operation sealedSeed r).effects)
    (h : (executeOperationEnvelope c trustVerifier context operation sealedSeed r).result =
      .error (spr "RequestTooLarge")) :
    r.signature = .error (spr "RequestTooLarge") ∨ r.answer = .error (spr "RequestTooLarge") ∨
      ∃ answer wire, r.answer = .ok answer ∧
        trustVerifier wire answer.bootProof = .error (spr "RequestTooLarge") := by
  rw [executeOperationEnvelope, result_bind, bind_eq_error] at h
  obtain h | ⟨⟨signed, encrypted⟩, hencrypt, h⟩ := h
  · rw [executeOperationEnvelope, mem_effects_bind] at he
    obtain he | ⟨_, hok, -⟩ := he
    · exact .inl (not_tooLarge_after_asked hgcm he h)
    · cases h.symm.trans hok
  · simp only [result_bind, bind_eq_error] at h
    obtain h | ⟨_, -, h⟩ := h
    · cases (ofOption_eq_error.1 h).2
    obtain h | ⟨answer, hanswer, h⟩ := h
    · exact .inr (.inl (sendOperation_error h))
    · obtain ⟨wire, hwire⟩ := openAnswer_error h
      obtain ⟨_, -, hanswer⟩ := bind_eq_ok.1 (result_bind.symm.trans hanswer)
      exact .inr (.inr ⟨answer, wire, hanswer, hwire⟩)

/-- The size checked before signing is the size checked after encrypting, and covers what reaches the
enclave: the body sent, or the request that a gateway forwards with a grant. So the size is refused only
before the key is asked, unless a call out answers so, and no request sent is above the limit that the
enclave advertises. -/
theorem preflight_exact (c : QosCrypto)
    (hgcm : ∀ key nonce aad m, (c.gcmEncrypt key nonce aad m).length = m.length + AES_GCM_TAG_LEN)
    (trustVerifier : TurnkeyAppProofWire → BootProof → Except Thrown Unit)
    (context : OperationExecutionContext) (operation : JsValue) (sealedSeed : Option JsString)
    (r : Readings BootProof) :
    (∀ request client grant n signature body receiver secret nonce ciphertext,
      unsignedRequest c context operation sealedSeed r = .ok (request, client, grant) →
      preflightBytes context request grant = .ok n →
      signature.length = RAW_P256_SIGNATURE_LEN →
      canonicalizeJsonValue { request with signature := bytesToHex signature }.value = .ok body →
      qosEncryptWith c receiver (textEncode body) secret nonce = .ok ciphertext →
        enclaveRequestBytes context (encryptedRequest context.info (bytesToHex ciphertext) grant) =
          .ok n) ∧
    (∀ request message,
      .asked request message ∈ (encryptOperation c context operation sealedSeed r).effects →
      (encryptOperation c context operation sealedSeed r).result = .error (spr "RequestTooLarge") →
        r.signature = .error (spr "RequestTooLarge")) ∧
    (∀ request message, .asked request message ∈
        (executeOperationEnvelope c trustVerifier context operation sealedSeed r).effects →
      (executeOperationEnvelope c trustVerifier context operation sealedSeed r).result =
        .error (spr "RequestTooLarge") →
      r.signature = .error (spr "RequestTooLarge") ∨ r.answer = .error (spr "RequestTooLarge") ∨
        ∃ answer wire, r.answer = .ok answer ∧
          trustVerifier wire answer.bootProof = .error (spr "RequestTooLarge")) ∧
    ∀ body, .sent body ∈
        (executeOperationEnvelope c trustVerifier context operation sealedSeed r).effects →
      ∃ request client grant n ciphertext,
        unsignedRequest c context operation sealedSeed r = .ok (request, client, grant) ∧
        Checked context request grant n ∧
        operationBody context (encryptedRequest context.info (bytesToHex ciphertext) grant) = .ok body ∧
        (∀ walletGrant, context.backend = .enclave walletGrant → (textEncode body).length = n) ∧
        (context.backend = .gateway →
          ∀ e crypto g project descriptor nowMs walletGrant bytes, IsSent context.info ciphertext e →
            Gateway.WalletGrants.issue crypto g project descriptor nowMs = .ok walletGrant →
            toVec EncryptedRequest.codec { e with walletGrant := some walletGrant } = some bytes →
              bytes.length ≤ n) ∧
        (context.info.maxEncryptedRequestBytes =
            utf16Units (Protocol.encodeDecimalU64 MAX_ENCRYPTED_REQUEST_BYTES) →
          n ≤ bodyLimit MAX_ENCRYPTED_REQUEST_BYTES) := by
  refine ⟨fun request client grant n signature body receiver secret nonce ciphertext _ hpreflight
      hlength hbody hciphertext => enclaveRequestBytes_signed hgcm hpreflight hlength hbody hciphertext,
    fun request message hasked => not_tooLarge_after_asked hgcm hasked,
    fun request message hasked => tooLarge_after_asked hgcm hasked, ?_⟩
  intro body hsent
  -- A body is sent only after the request was encrypted, and with it checked.
  obtain ⟨signed, encrypted, hencrypt, hbody⟩ := executeOperationEnvelope_sent hsent
  obtain ⟨request, client, grant, n, ciphertext, hunsigned, hchecked, rfl, hsize⟩ :=
    encryptOperation_ok hgcm hencrypt
  refine ⟨request, client, grant, n, ciphertext, hunsigned, hchecked, hbody, ?_, ?_, ?_⟩
  · exact fun walletGrant hbackend => length_body hbackend hbody hsize
  · intro hbackend e crypto g project descriptor nowMs walletGrant bytes he hissue hbytes
    exact length_forwarded hbackend hunsigned hsize he (Gateway.WalletGrants.issue_ok hissue) hbytes
  · exact fun hadvertised => le_bodyLimit hadvertised hchecked.limit

end Runs

section Sample

/-- A grant as a provider of grants hands it to a client. -/
def grantValue (descriptorDigest clientKeyId projectId issuedAtMs expiresAtMs signature : JsString) :
    JsValue :=
  object [("version", apiVersion), ("descriptor_digest", .str descriptorDigest),
    ("client_key_id", .str clientKeyId), ("project_id", .str projectId),
    ("issued_at_ms", .str issuedAtMs), ("expires_at_ms", .str expiresAtMs),
    ("signature", .str signature)]

theorem size_grantValue (digest id project issued expires signature : JsString) :
    jcs.size textLength (grantValue digest id project issued expires signature) =
      111 + quoted digest + quoted id + quoted project + quoted issued + quoted expires +
        quoted signature := by
  have hnames : (utf8 "version").length + (utf8 "descriptor_digest").length +
      (utf8 "client_key_id").length + (utf8 "project_id").length + (utf8 "issued_at_ms").length +
      (utf8 "expires_at_ms").length + (utf8 "signature").length = 81 := by decide
  simp (disch := decide) only [grantValue, size_object, List.map_cons, List.map_nil, Prod.map_apply,
    Writer.sizeMembers, Writer.size, id_eq, quote_units, size_version, quoted]
  omega

def sampleGrant : JsValue :=
  grantValue (bytesToHex sampleReadings.requestId.val) (clientKeyIdFor fixtureCrypto fixtureReceiver.val)
    (utf16Units "00000000-0000-4000-8000-000000000000") (utf16Units "1000") (utf16Units "3601000")
    (bytesToHex (List.replicate 64 1))

/-- A wallet with one client, which sends its requests to the enclave itself. -/
def directContext : OperationExecutionContext :=
  { sampleContext with
    backend := .enclave (some (.ok sampleGrant))
    info :=
      { sampleContext.info with
        manifestDigest := bytesToHex sampleReadings.requestId.val
        executableDigest := bytesToHex sampleReadings.requestId.val
        maxEncryptedRequestBytes := utf16Units (Protocol.encodeDecimalU64 MAX_ENCRYPTED_REQUEST_BYTES) }
    descriptor :=
      { sampleContext.descriptor with securityDomainId := bytesToHex sampleReadings.requestId.val } }

theorem ready_direct : Ready directContext sampleReadings fixtureCrypto Operation.bootstrap.value none
    (utf16Units "Bootstrap") fixtureReceiver.val [utf16Units "Bootstrap"] (some sampleGrant)
    fixtureEphemeral (utf16Units (Protocol.encodeDecimalU64 1000))
    (utf16Units (Protocol.encodeDecimalU64 301000)) .null (List.replicate 64 1) where
  wanted := ⟨rfl, rfl⟩
  type := property_type .bootstrap
  supported := List.mem_singleton_self _
  network := rfl
  found := findClient_head fixtureReceiver.val []
  clientKey := fixtureReceiver.property
  allowed := List.mem_singleton_self _
  grant := rfl
  current := by
    show (0 : ℤ) ≤ 1000 ∧ (1000 : ℤ) ≤ 2000
    decide
  responseKey := publicKey_ephemeral
  issued := encodeDecimalU64_eq_ok.2 ⟨1000, rfl, rfl⟩
  expires := encodeDecimalU64_eq_ok.2 ⟨301000, rfl, rfl⟩
  seed := rfl
  signs := rfl
  verifies := fun _ => verifyP256Prehash_eq_ok.2 rfl

theorem size_sampleGrant : jcs.size textLength sampleGrant = 410 := by
  have hid := quoted_clientKeyId fixtureCrypto fixtureReceiver.val
  have hproject : quoted (utf16Units "00000000-0000-4000-8000-000000000000") = 38 :=
    quoted_units ⟨by decide, by decide⟩
  have hissued : quoted (utf16Units "1000") = 6 := quoted_units ⟨by decide, by decide⟩
  have hexpires : quoted (utf16Units "3601000") = 9 := quoted_units ⟨by decide, by decide⟩
  have hrequest := sampleReadings.requestId.property
  rw [sampleGrant, size_grantValue, quoted_hex, quoted_hex, hid, hproject, hissued, hexpires, hrequest,
    List.length_replicate]

theorem size_directDescriptor : jcs.size textLength directContext.descriptor.value = 446 := by
  have hclient := size_client ⟨bytesToHex fixtureReceiver.val, [utf16Units "Bootstrap"]⟩
  have hkinds : jcs.size textLength (.arr ([utf16Units "Bootstrap"].map .str)) = 13 := by decide
  have hsingleton :=
    size_singleton (ClientGrant.value ⟨bytesToHex fixtureReceiver.val, [utf16Units "Bootstrap"]⟩)
  have hnetwork : quoted (utf16Units "devnet") = 8 := quoted_units ⟨by decide, by decide⟩
  have hexpires : quoted (utf16Units "2000") = 6 := quoted_units ⟨by decide, by decide⟩
  have hempty : quoted [] = 2 := by decide
  have hkey : fixtureReceiver.val.length = 65 := fixtureReceiver.property
  have hdomain := sampleReadings.requestId.property
  rw [size_descriptor]
  simp only [directContext, sampleContext, List.map_cons, List.map_nil, quoted_hex, hnetwork, hexpires,
    hempty, hdomain]
  simp only [quoted_hex] at hclient
  omega

/-- The request that is drawn up. -/
def directRequest (signature : JsString) : Wallet.OperationExecutor.OperationRequest :=
  drafted directContext sampleReadings (utf16Units (Protocol.encodeDecimalU64 1000))
    (utf16Units (Protocol.encodeDecimalU64 301000)) fixtureEphemeral.val Operation.bootstrap.value .null
    signature

theorem size_directRequest {signature : Bytes} (hsignature : signature.length = 64) :
    jcs.size textLength (directRequest (bytesToHex signature)).value = 1317 := by
  have hdescriptor := size_directDescriptor
  have hoperation : jcs.size textLength Operation.bootstrap.value = 20 := by decide
  have hissued : quoted (utf16Units (Protocol.encodeDecimalU64 1000)) = 6 :=
    quoted_units ⟨by decide +kernel, by decide +kernel⟩
  have hexpires : quoted (utf16Units (Protocol.encodeDecimalU64 301000)) = 8 :=
    quoted_units ⟨by decide +kernel, by decide +kernel⟩
  have hrelease : quoted (utf16Units "release-1") = 11 := quoted_units ⟨by decide, by decide⟩
  have hkey : quoted (utf16Units "quorum-1") = 10 := quoted_units ⟨by decide, by decide⟩
  have hepoch : quoted (utf16Units "1") = 3 := quoted_units ⟨by decide, by decide⟩
  have hid := quoted_clientKeyId fixtureCrypto fixtureReceiver.val
  have hresponse : fixtureEphemeral.val.length = 65 := fixtureEphemeral.property
  have hrequest := sampleReadings.requestId.property
  have hseed : jcs.size textLength .null = 4 := rfl
  rw [size_request]
  simp only [directRequest, drafted, quoted_hex, hissued, hexpires, hoperation, hdescriptor, hseed]
  simp only [directContext, sampleContext, quoted_hex, hrelease, hkey, hepoch, hid]
  omega

theorem legible_sampleGrant : Legible sampleGrant := by
  rw [sampleGrant, grantValue, legible_object]
  simp [legible_apiVersion, legible_str]

theorem written_directRequest (signature : JsString) : (jcs.append (directRequest signature).value).isSome :=
  isSome_of_legible (legible_drafted legible_bootstrap .null)

theorem preflight_direct : preflightBytes directContext (directRequest []) (some sampleGrant) = .ok 3333 := by
  have hm : byteLength (directRequest (bytesToHex (List.replicate RAW_P256_SIGNATURE_LEN 0))).value =
      .ok 1317 :=
    byteLength_eq_ok.2 ⟨written_directRequest _,
      (@size_directRequest (List.replicate RAW_P256_SIGNATURE_LEN 0) List.length_replicate).symm⟩
  have hkey : quoted directContext.info.quorumKeyId = 10 := quoted_units ⟨by decide, by decide⟩
  have hepoch : quoted directContext.info.quorumKeyEpoch = 3 := quoted_units ⟨by decide, by decide⟩
  have hk : byteLength (encryptedRequest directContext.info [] (some sampleGrant)) = .ok 505 := by
    refine byteLength_eq_ok.2 ⟨isSome_of_legible (legible_encryptedRequest ?_), ?_⟩
    · rintro _ ⟨⟩
      exact legible_sampleGrant
    · rw [size_encryptedRequest, hkey, hepoch, Option.elim, size_sampleGrant]
  exact preflightBytes_drafted hm (bind_eq_ok.2 ⟨505, hk, rfl⟩)

theorem checkRequestSize_direct : checkRequestSize directContext.info 3333 = .ok () :=
  bind_eq_ok.2 ⟨262144, ofOption_eq_ok.2 (bigInt_encodeDecimalU64 262144), refuse_eq_ok.2 (by decide)⟩

theorem length_directQuorum : (fixtureReceiver.val ++ fixtureReceiver.val).length = QOS_P256_PUBLIC_LEN := by
  rw [List.length_append, fixtureReceiver.property]
  rfl

def directQuorum : ByteArrayOf QOS_P256_PUBLIC_LEN :=
  ⟨fixtureReceiver.val ++ fixtureReceiver.val, length_directQuorum⟩

theorem quorumPublicKey_direct : directContext.info.quorumPublicKey = bytesToHex directQuorum.val := by
  simp only [directContext, sampleContext, directQuorum]

theorem take_directQuorum : directQuorum.val.take SEC1_UNCOMPRESSED_LEN = fixtureReceiver.val :=
  List.take_left' fixtureReceiver.property

theorem parse_directQuorum : parseQosP256Public fixtureCrypto.toCrypto directQuorum.val =
    .ok ⟨fixtureReceiver.val, fixtureReceiver.val⟩ := by
  have hkey := parse_key fixtureCrypto_sound publicKey_receiver
  have hdrop : directQuorum.val.drop SEC1_UNCOMPRESSED_LEN = fixtureReceiver.val :=
    List.drop_left' fixtureReceiver.property
  refine bind_eq_ok.2 ⟨(), refuse_eq_ok.2 (not_not.2 directQuorum.property), ?_⟩
  rw [take_directQuorum, hdrop]
  exact bind_eq_ok.2 ⟨_, hkey, bind_eq_ok.2 ⟨_, hkey, rfl⟩⟩

theorem length_sampleNonce : (List.replicate 12 (2 : UInt8)).length = AES_GCM_NONCE_LEN := rfl

/-- The fixture's keys encrypt any plaintext. -/
theorem exists_encrypted_fixture (plaintext : Bytes) : ∃ ciphertext, qosEncryptWith fixtureCrypto
    fixtureReceiver.val plaintext sampleReadings.ephemeralSecret sampleReadings.nonce = .ok ciphertext :=
  exists_qosEncryptWith fixtureCrypto_sound fixtureReceiverSecret fixtureEphemeralSecret publicKey_receiver
    publicKey_ephemeral ⟨List.replicate 12 2, length_sampleNonce⟩

theorem sent_direct : ∃ body, .sent body ∈ (executeOperationEnvelope fixtureCrypto (fun _ _ => .ok ())
    directContext Operation.bootstrap.value none sampleReadings).effects := by
  obtain ⟨request, ciphertext, hencrypt⟩ := ready_direct.encrypted fixtureCrypto_sound preflight_direct
    checkRequestSize_direct written_directRequest quorumPublicKey_direct parse_directQuorum
    exists_encrypted_fixture
  have hlegible : Legible (encryptedRequest directContext.info (bytesToHex ciphertext) (some sampleGrant)) := by
    refine legible_encryptedRequest ?_
    rintro _ ⟨⟩
    exact legible_sampleGrant
  obtain ⟨body, hbody⟩ := Option.isSome_iff_exists.1 (isSome_of_legible hlegible)
  refine ⟨body, ?_⟩
  rw [executeOperationEnvelope, mem_effects_bind]
  refine .inr ⟨_, hencrypt, ?_⟩
  refine mem_ofExcept_bind.2 ⟨262144, ofOption_eq_ok.2 (by decide +kernel), mem_effects_bind.2 (.inl ?_)⟩
  exact mem_ofExcept_bind.2 ⟨body, canonicalizeJsonValue_eq_ok.2 hbody, List.mem_singleton_self _⟩

/-- The request for a seed, sent to the enclave: the body has the size that was checked. -/
theorem preflight_exact_sent : ∃ body, .sent body ∈ (executeOperationEnvelope fixtureCrypto
    (fun _ _ => .ok ()) directContext Operation.bootstrap.value none sampleReadings).effects ∧
      (textEncode body).length = 3333 := by
  obtain ⟨body, hsent⟩ := sent_direct
  refine ⟨body, hsent, ?_⟩
  obtain ⟨request, client, grant, n, ciphertext, hunsigned, hchecked, -, hlength, -⟩ :=
    (preflight_exact fixtureCrypto fixtureCrypto_sound.length_gcmEncrypt (fun _ _ => .ok ()) directContext
      Operation.bootstrap.value none sampleReadings).2.2.2 body hsent
  obtain ⟨rfl, -, rfl⟩ : request = directRequest [] ∧ _ = client ∧ some sampleGrant = grant := by
    simpa [directRequest, eq_comm] using hunsigned.symm.trans ready_direct.unsigned
  obtain rfl := Except.ok.inj (hchecked.preflight.symm.trans preflight_direct)
  exact hlength _ rfl

end Sample

end ZolanaTvc.Wallet
