import ZolanaTvc.Enclave.Operations

/-!
# What an enclave has checked before it runs an operation

## Main results

* `execute_authorized`: an operation is run, or answered, for an authorized request alone.
-/

namespace ZolanaTvc.Enclave

open Protocol Except

variable {N V : Type}

/-- The request is of the running release, inside its own window of time, and signed by the one client
of a descriptor that the provisioner signed. -/
structure Signed (state : AppState N V) (now : UInt64) (r : OperationRequest) : Prop where
  version : r.version = API_VERSION
  release : r.targetReleaseId = state.info.releaseId
  manifest : r.targetManifestDigest = state.info.manifestDigest
  executable : r.targetExecutableDigest = state.info.executableDigest
  quorumKey : r.quorumKeyId = state.info.quorumKeyId
  quorumKeyEpoch : r.quorumKeyEpoch = state.info.quorumKeyEpoch
  network : r.walletDescriptor.network = state.info.network
  securityDomain : r.walletDescriptor.securityDomainId = state.info.securityDomainId
  supported : r.operation.kind ∈ state.info.supportedOperations
  seed : r.sealedSeed.isSome = true ↔ r.operation.kind ≠ .bootstrap
  unexpired : now.toNat ≤ r.expiresAtMs.toNat
  issued : r.issuedAtMs.toNat ≤ now.toNat + 60000
  ordered : r.issuedAtMs.toNat ≤ r.expiresAtMs.toNat
  lifetime : r.expiresAtMs.toNat ≤ r.issuedAtMs.toNat + 300000
  descriptorVersion : r.walletDescriptor.version = API_VERSION
  organization : isCanonicalUuid r.walletDescriptor.turnkeyOrganizationId = true
  wallet : r.walletDescriptor.turnkeyWalletId ≠ "" ∧
    (utf8 r.walletDescriptor.turnkeyWalletId).length ≤ 128
  address : (state.runtime.keys.pubkeyFromStr r.walletDescriptor.address).isSome
  provisioned : ∃ d, descriptorDigest state.runtime.crypto.sha256 r.walletDescriptor = some d ∧
    state.runtime.crypto.Verifies state.runtime.provisioningPublic.val d
      r.walletDescriptor.provisioningSignature
  client : ∃ client, r.walletDescriptor.allowedClients = [client] ∧
    client.clientPublicKey.length = 65 ∧ client.allowedOperations = OPERATIONS ∧
    r.authorization.clientKeyId = clientKeyId state.runtime.crypto client.clientPublicKey ∧
    ∃ d, requestDigest state.runtime.crypto.sha256 r = some d ∧
      state.runtime.crypto.Verifies client.clientPublicKey
        (clientAuthDigest state.runtime.crypto.sha256 d) r.authorization.signature

theorem checkRequestBindings_eq_ok {r : OperationRequest} {info : ServiceInfo} {u : Unit} :
    checkRequestBindings r info = .ok u ↔ r.version = API_VERSION ∧
      r.walletDescriptor.network = info.network ∧
      (r.targetReleaseId = info.releaseId ∧ r.targetManifestDigest = info.manifestDigest ∧
        r.targetExecutableDigest = info.executableDigest) ∧
      r.walletDescriptor.securityDomainId = info.securityDomainId ∧
      r.walletDescriptor.turnkeyWalletId ≠ "" ∧ r.quorumKeyId = info.quorumKeyId ∧
      r.quorumKeyEpoch = info.quorumKeyEpoch := by
  simp only [checkRequestBindings, bind_eq_ok, refuse_eq_ok, exists_const, not_or, not_not, ne_eq]

theorem checkEncryptedRequestBindings_eq_ok {e : EncryptedRequest} {info : ServiceInfo} {u : Unit} :
    checkEncryptedRequestBindings e info = .ok u ↔ e.version = API_VERSION ∧
      e.quorumKeyId = info.quorumKeyId ∧ e.quorumKeyEpoch = info.quorumKeyEpoch := by
  simp only [checkEncryptedRequestBindings, bind_eq_ok, refuse_eq_ok, exists_const, not_not, ne_eq]

/-- The window of time that a request gives itself. -/
theorem fresh_iff {r : OperationRequest} {now : UInt64} :
    ¬(r.expiresAtMs < now ∨ r.issuedAtMs > saturatingAdd now MAX_CLOCK_SKEW_MS ∨
      r.expiresAtMs < r.issuedAtMs ∨ r.expiresAtMs - r.issuedAtMs > MAX_REQUEST_AGE_MS) ↔
    now.toNat ≤ r.expiresAtMs.toNat ∧ r.issuedAtMs.toNat ≤ now.toNat + 60000 ∧
      r.issuedAtMs.toNat ≤ r.expiresAtMs.toNat ∧
      r.expiresAtMs.toNat ≤ r.issuedAtMs.toNat + 300000 := by
  have hskew : MAX_CLOCK_SKEW_MS.toNat = 60000 := by decide
  have hage : MAX_REQUEST_AGE_MS.toNat = 300000 := by decide
  rw [lt_saturatingAdd_iff, hskew, not_or, not_or, not_or, gt_iff_lt, UInt64.not_lt, UInt64.not_lt,
    UInt64.not_lt, UInt64.le_iff_toNat_le, UInt64.le_iff_toNat_le, UInt64.le_iff_toNat_le, hage]
  refine and_congr_right fun _ => and_congr Nat.not_lt (and_congr_right fun hle => ?_)
  rw [UInt64.toNat_sub_of_le _ _ (UInt64.le_iff_toNat_le.2 hle)]
  omega

theorem clientKeyId_ne_empty (c : Crypto) (key : Bytes) : clientKeyId c key ≠ "" := by
  intro h
  have hlength := congrArg (fun s : String => s.toList.length) h
  rw [clientKeyId, String.toList_append, List.length_append] at hlength
  have hprefix : CLIENT_KEY_ID_PREFIX.toList.length = 16 := by decide
  have hempty : "".toList.length = 0 := rfl
  omega

/-- What `validate` finds before it looks at the age of the descriptor. -/
theorem signed_iff {r : OperationRequest} {state : AppState N V} {now : UInt64} :
    Signed state now r ↔ checkRequestBindings r state.info = .ok () ∧
      ¬(r.operation.kind ∉ state.info.supportedOperations ∨
        r.sealedSeed.isSome ≠ decide (r.operation.kind ≠ .bootstrap)) ∧
      ¬(r.expiresAtMs < now ∨ r.issuedAtMs > saturatingAdd now MAX_CLOCK_SKEW_MS ∨
        r.expiresAtMs < r.issuedAtMs ∨ r.expiresAtMs - r.issuedAtMs > MAX_REQUEST_AGE_MS) ∧
      (∃ address, state.runtime.keys.pubkeyFromStr r.walletDescriptor.address = some address) ∧
      ¬(r.walletDescriptor.version ≠ API_VERSION ∨
        isCanonicalUuid r.walletDescriptor.turnkeyOrganizationId = false ∨
        128 < (utf8 r.walletDescriptor.turnkeyWalletId).length ∨
        r.walletDescriptor.allowedClients.length ≠ 1) ∧
      (∃ d, descriptorDigest state.runtime.crypto.sha256 r.walletDescriptor = some d ∧
        state.runtime.crypto.Verifies state.runtime.provisioningPublic.val d
          r.walletDescriptor.provisioningSignature) ∧
      ∃ g, r.walletDescriptor.allowedClients.head? = some g ∧
        ¬(g.clientPublicKey.length ≠ 65 ∨ g.allowedOperations ≠ OPERATIONS ∨
          r.authorization.clientKeyId ≠ clientKeyId state.runtime.crypto g.clientPublicKey) ∧
        verifyClientAuthorization state.runtime.crypto r g.clientPublicKey = .ok () := by
  rw [checkRequestBindings_eq_ok, fresh_iff]
  simp only [not_or, not_not, ne_eq, verifyClientAuthorization_eq_ok, Bool.not_eq_false, not_lt]
  -- One to one, but for the list of clients: the source takes the first of a list that it found to
  -- have one element, and `Signed` names that client.
  constructor
  · intro h
    obtain ⟨client, hclients, hkey, hoperations, hid, hverified⟩ := h.client
    refine ⟨⟨h.version, h.network, ⟨h.release, h.manifest, h.executable⟩, h.securityDomain,
      h.wallet.1, h.quorumKey, h.quorumKeyEpoch⟩, ⟨h.supported, ?_⟩,
      ⟨h.unexpired, h.issued, h.ordered, h.lifetime⟩, Option.isSome_iff_exists.1 h.address,
      ⟨h.descriptorVersion, h.organization, h.wallet.2, by rw [hclients]; rfl⟩, h.provisioned,
      client, by rw [hclients]; rfl, ⟨hkey, hoperations, hid⟩, ?_, hverified⟩
    · rw [Bool.eq_iff_iff, decide_eq_true_iff]
      exact h.seed
    · rw [hid]
      exact clientKeyId_ne_empty _ _
  · rintro ⟨⟨hversion, hnetwork, ⟨hrelease, hmanifest, hexecutable⟩, hdomain, hwallet, hquorum,
      hepoch⟩, ⟨hsupported, hexpects⟩, ⟨hunexpired, hissued, hordered, hlifetime⟩, haddress,
      ⟨hdversion, huuid, hwalletLength, hlength⟩, hprovisioned, g, hhead, ⟨hkey, hoperations, hid⟩,
      -, hverified⟩
    obtain ⟨client, hclients⟩ := List.length_eq_one_iff.1 hlength
    obtain rfl : client = g := by simpa [hclients] using hhead
    exact
      { version := hversion
        release := hrelease
        manifest := hmanifest
        executable := hexecutable
        quorumKey := hquorum
        quorumKeyEpoch := hepoch
        network := hnetwork
        securityDomain := hdomain
        supported := hsupported
        seed := by rw [hexpects, decide_eq_true_iff]
        unexpired := hunexpired
        issued := hissued
        ordered := hordered
        lifetime := hlifetime
        descriptorVersion := hdversion
        organization := huuid
        wallet := ⟨hwallet, hwalletLength⟩
        address := Option.isSome_iff_exists.2 haddress
        provisioned := hprovisioned
        client := ⟨client, hclients, hkey, hoperations, hid, hverified⟩ }

theorem validate_eq_ok {r : OperationRequest} {state : AppState N V} {env : Environment}
    {w : WalletKey} : validate r state env = .ok w ↔
      (∃ now, env.clock 0 = some now ∧ Signed state now r ∧
        now.toNat ≤ r.walletDescriptor.expiresAtMs.toNat + MAX_CLOCK_SKEW_MS.toNat) ∧
      w.Names state.runtime.keys r.walletDescriptor := by
  simp only [validate, bind_eq_ok, expect_eq_ok, refuse_eq_ok, ofOption_eq_ok, exists_const,
    checkCurrent_eq_ok, Environment.nowMs_eq_ok, pure_eq_ok, signed_iff]
  constructor
  · rintro ⟨_, hbindings, hseed, now, hnow, hfresh, address, haddress, hdescriptor, d, hd, _,
      hprovisioned, g, hg, hclient, _, hauthorized, hcurrent, rfl⟩
    exact ⟨⟨now, hnow, ⟨hbindings, hseed, hfresh, ⟨address, haddress⟩, hdescriptor,
      ⟨d, hd, hprovisioned⟩, g, hg, hclient, hauthorized⟩, hcurrent⟩, rfl, rfl, haddress⟩
  · rintro ⟨⟨now, hnow, ⟨hbindings, hseed, hfresh, -, hdescriptor, ⟨d, hd, hprovisioned⟩, g, hg,
      hclient, hauthorized⟩, hcurrent⟩, horganization, hsign, haddress⟩
    refine ⟨(), hbindings, hseed, now, hnow, hfresh, w.publicKey, haddress, hdescriptor, d, hd, (),
      hprovisioned, g, hg, hclient, (), hauthorized, hcurrent, ?_⟩
    rw [← horganization, ← hsign]

/-- Only an authorized request learns that its descriptor expired. -/
theorem validate_eq_descriptorExpired {r : OperationRequest} {state : AppState N V}
    {env : Environment} (h : validate r state env = .error .descriptorExpired) :
    ∃ now, env.clock 0 = some now ∧ Signed state now r ∧
      r.walletDescriptor.expiresAtMs.toNat + MAX_CLOCK_SKEW_MS.toNat < now.toNat := by
  simp only [validate, bind_eq_error, expect_eq_error, refuse_eq_error, ofOption_eq_error,
    expect_eq_ok, refuse_eq_ok, ofOption_eq_ok, Environment.nowMs,
    exists_const, reduceCtorEq, and_false, and_true, false_or, or_false, pure_ne_error,
    WalletDescriptor.checkCurrent, exists_eq_right'] at h
  obtain ⟨_, hbindings, hseed, now, hnow, hfresh, address, haddress, hdescriptor, d, hd, _,
    hprovisioned, g, hg, hclient, _, hauthorized, hexpired⟩ := h
  exact ⟨now, hnow, signed_iff.2 ⟨hbindings, hseed, hfresh, ⟨address, haddress⟩, hdescriptor,
    ⟨d, hd, hprovisioned⟩, g, hg, hclient, hauthorized⟩, lt_saturatingAdd_iff.1 hexpired⟩

/-- A request that its body, the running release and the keys of the network authorize. -/
structure Authorized (state : AppState N V) (env : Environment) (body : Bytes) (a : Admitted) :
    Prop where
  text : ∃ t, fromUtf8 body = some t ∧ parseEncryptedRequest t = some a.encrypted
  version : a.encrypted.version = API_VERSION
  quorumKey : a.encrypted.quorumKeyId = state.info.quorumKeyId
  quorumKeyEpoch : a.encrypted.quorumKeyEpoch = state.info.quorumKeyEpoch
  plaintext : ∃ p t, state.runtime.quorum.decrypt a.encrypted.ciphertext = some p ∧
    fromUtf8 p = some t ∧ isRfc8785 t = true ∧ parseOperationRequest t = some a.request
  signed : ∃ now, env.clock 0 = some now ∧ Signed state now a.request ∧
    now.toNat ≤ a.request.walletDescriptor.expiresAtMs.toNat + MAX_CLOCK_SKEW_MS.toNat
  wallet : a.wallet.Names state.runtime.keys a.request.walletDescriptor
  granted : ∃ grant now, a.encrypted.walletGrant = some grant ∧ env.clock 1 = some now ∧
    GrantInForce state.runtime.crypto grant state.runtime.grantPublic.val a.request.walletDescriptor
      a.request.authorization.clientKeyId now
  requestHash : requestDigest state.runtime.crypto.sha256 a.request = some a.requestHash
  responseKey : ∃ k, parseUncompressedSec1 state.runtime.crypto a.request.clientResponsePublicKey =
    .ok k

theorem authorize_eq_ok {state : AppState N V} {env : Environment} {body : Bytes} {a : Admitted} :
    authorize state env body = .ok a ↔ Authorized state env body a := by
  simp only [authorize, bind_eq_ok, expect_eq_ok, refuse_eq_ok, ofOption_eq_ok, exists_const,
    Environment.nowMs_eq_ok, checkEncryptedRequestBindings_eq_ok, verifyWalletGrant_eq_ok,
    validate_eq_ok, pure_eq_ok, Bool.not_eq_false]
  constructor
  · rintro ⟨t, ht, encrypted, hencrypted, ⟨hversion, hquorum, hepoch⟩, p, hp, u, hu, hcanonical,
      request, hrequest, wallet, ⟨hsigned, hwallet⟩, grant, hgrant, now, hnow, hforce, hash, hhash,
      key, hkey, rfl⟩
    exact ⟨⟨t, ht, hencrypted⟩, hversion, hquorum, hepoch, ⟨p, u, hp, hu, hcanonical, hrequest⟩,
      hsigned, hwallet, ⟨grant, now, hgrant, hnow, hforce⟩, hhash, key, hkey⟩
  · rintro ⟨⟨t, ht, hencrypted⟩, hversion, hquorum, hepoch, ⟨p, u, hp, hu, hcanonical, hrequest⟩,
      hsigned, hwallet, ⟨grant, now, hgrant, hnow, hforce⟩, hhash, key, hkey⟩
    exact ⟨t, ht, a.encrypted, hencrypted, ⟨hversion, hquorum, hepoch⟩, p, hp, u, hu, hcanonical,
      a.request, hrequest, a.wallet, ⟨hsigned, hwallet⟩, grant, hgrant, now, hnow, hforce,
      a.requestHash, hhash, key, hkey, rfl⟩

/-- A request refused for the age of its descriptor is signed all the same. -/
theorem authorize_eq_descriptorExpired {state : AppState N V} {env : Environment} {body : Bytes}
    (h : authorize state env body = .error .descriptorExpired) :
    ∃ request now, env.clock 0 = some now ∧ Signed state now request ∧
      request.walletDescriptor.expiresAtMs.toNat + MAX_CLOCK_SKEW_MS.toNat < now.toNat := by
  simp only [authorize, bind_eq_error, expect_eq_error, refuse_eq_error, ofOption_eq_error,
    Environment.nowMs, reduceCtorEq, and_false, false_or, or_false, pure_ne_error, exists_false] at h
  obtain ⟨_, -, encrypted, -, _, -, p, -, t, -, _, -, request, -, hvalidate⟩ := h
  exact ⟨request, validate_eq_descriptorExpired hvalidate⟩

/-- The answer names the request and its digest, in a proof over exactly the encrypted result. -/
structure Answers (state : AppState N V) (a : Admitted) (response : EncryptedResponse) : Prop where
  requestId : response.requestId = a.request.requestId
  proof : ∃ proof, jcsSerialize OperationProofPayload.codec proof =
      some response.tvcAppProof.proofPayload ∧
    proof.requestId = a.request.requestId ∧ proof.requestDigest = a.requestHash ∧
    proof.operation = a.request.operation.kind ∧
    proof.resultDigest = resultDigest state.runtime.crypto.sha256 response.encryptedResult

theorem respond_eq_ok {state : AppState N V} {env : Environment} {a : Admitted}
    {result : OperationResult} {digest : ByteArrayOf 32} {response : EncryptedResponse}
    (h : respond state env a result digest = .ok response) : Answers state a response := by
  simp only [respond, bind_eq_ok, refuse_eq_ok, ofOption_eq_ok, pure_eq_ok, exists_const] at h
  obtain ⟨_, -, encryptedResult, -, -, payload, hpayload, signature, -, rfl⟩ := h
  exact ⟨rfl, _, hpayload, rfl, rfl, rfl, rfl⟩

/-- An operation is run, or answered, for an authorized request alone, and for every one it is run;
and the age of a descriptor is told to the signer of a request alone. -/
theorem execute_authorized (state : AppState N V) (env : Environment) (body : Bytes) :
    (∀ a, (execute state env body).ran = some a ↔ Authorized state env body a) ∧
    (∀ t, (execute state env body).answer = .ok t → ∃ a response, Authorized state env body a ∧
      Answers state a response ∧ jcsSerialize EncryptedResponse.codec response = some t) ∧
    ((execute state env body).answer = .error .descriptorExpired →
      ∃ request now, env.clock 0 = some now ∧ Signed state now request) := by
  cases hauthorize : authorize state env body with
  | error failure =>
    have hexecute : execute state env body = ⟨none, .error failure⟩ := by rw [execute, hauthorize]
    rw [hexecute]
    refine ⟨fun a => ?_, fun t ht => (nomatch ht), fun hexpired => ?_⟩
    · rw [← authorize_eq_ok, hauthorize]
      simp
    · obtain rfl : failure = .descriptorExpired := Except.error.inj hexpired
      obtain ⟨request, now, hnow, hsigned, -⟩ := authorize_eq_descriptorExpired hauthorize
      exact ⟨request, now, hnow, hsigned⟩
  | ok admitted =>
    have hran : (execute state env body).ran = some admitted := by rw [execute, hauthorize]
    have hauthorized := authorize_eq_ok.1 hauthorize
    refine ⟨fun a => ?_, fun t ht => ?_, fun _ => ?_⟩
    · rw [hran, ← authorize_eq_ok, hauthorize, Option.some.injEq, Except.ok.injEq]
    · simp only [execute, hauthorize, bind_eq_ok, ofOption_eq_ok] at ht
      obtain ⟨⟨result, digest⟩, -, response, hresponse, htext⟩ := ht
      exact ⟨admitted, response, hauthorized, respond_eq_ok hresponse, htext⟩
    · obtain ⟨now, hnow, hsigned, -⟩ := hauthorized.signed
      exact ⟨admitted.request, now, hnow, hsigned⟩

end ZolanaTvc.Enclave
