import ZolanaTvc.Wallet.SentRequest

/-!
# What the client holds of the enclave's values

The client holds the enclave's discovery and the gateway's descriptor as texts. A request that it draws up
of these is one of the enclave's, field by field.

## Main results

* `exists_drawn`: the request that the enclave reads of what the client prepared.
-/

namespace ZolanaTvc.Wallet.OperationExecutor

open Except Effectful Json Protocol Serde

section Views

/-- The discovery of an enclave. -/
def infoOf (info : Protocol.ServiceInfo) : ServiceInfo where
  network := utf16Units info.network.asStr
  releaseId := utf16Units info.releaseId
  manifestDigest := bytesToHex info.manifestDigest.val
  executableDigest := bytesToHex info.executableDigest.val
  quorumPublicKey := bytesToHex info.quorumPublicKey
  quorumKeyId := utf16Units info.quorumKeyId
  quorumKeyEpoch := utf16Units (Protocol.encodeDecimalU64 info.quorumKeyEpoch)
  supportedOperations := info.supportedOperations.map fun kind => utf16Units kind.asStr
  maxEncryptedRequestBytes := utf16Units (Protocol.encodeDecimalU64 info.maxEncryptedRequestBytes)
  maxEncryptedResponseBytes := utf16Units (Protocol.encodeDecimalU64 info.maxEncryptedResponseBytes)

def clientOf (g : Protocol.ClientGrant) : ClientGrant where
  clientPublicKey := bytesToHex g.clientPublicKey
  allowedOperations := g.allowedOperations.map fun kind => utf16Units kind.asStr

/-- The descriptor that the gateway answers an enrollment with. -/
def descriptorOf (d : Protocol.WalletDescriptor) : WalletDescriptor where
  securityDomainId := bytesToHex d.securityDomainId.val
  network := utf16Units d.network.asStr
  turnkeyOrganizationId := utf16Units d.turnkeyOrganizationId
  turnkeyWalletId := utf16Units d.turnkeyWalletId
  address := utf16Units d.address
  allowedClients := d.allowedClients.map clientOf
  expiresAtMs := utf16Units (Protocol.encodeDecimalU64 d.expiresAtMs)
  provisioningSignature := bytesToHex d.provisioningSignature

theorem image_clientOf (g : Protocol.ClientGrant) :
    image (clientOf g).value = ClientGrant.codec.encode g := by
  have hobject : ClientGrant.codec.encode g = .obj
      [("client_public_key", Protocol.hex.encode g.clientPublicKey),
        ("allowed_operations", OperationKind.codec.list.encode g.allowedOperations)] := rfl
  have hkinds : image (.arr ((g.allowedOperations.map fun kind => utf16Units kind.asStr).map .str)) =
      OperationKind.codec.list.encode g.allowedOperations := by
    rw [image_arr, List.map_map, List.map_map]
    show _ = Json.arr (g.allowedOperations.map OperationKind.codec.encode)
    congr 2
    funext kind
    exact image_units _
  rw [hobject, ClientGrant.value, image_object]
  simp only [clientOf, List.map_cons, List.map_nil, Prod.map, id, image_hex, hkinds]

theorem image_descriptorOf {d : Protocol.WalletDescriptor} (hversion : d.version = API_VERSION) :
    image (descriptorOf d).value = WalletDescriptor.codec.encode d := by
  have hobject : WalletDescriptor.codec.encode d = .obj
      [("version", u8.encode d.version), ("security_domain_id", (hexArray 32).encode d.securityDomainId),
        ("network", .str d.network.asStr), ("turnkey_organization_id", .str d.turnkeyOrganizationId),
        ("turnkey_wallet_id", .str d.turnkeyWalletId), ("address", .str d.address),
        ("allowed_clients", ClientGrant.codec.list.encode d.allowedClients),
        ("expires_at_ms", decimalU64.encode d.expiresAtMs),
        ("provisioning_signature", Protocol.hex.encode d.provisioningSignature)] := rfl
  have hclients : image (.arr ((d.allowedClients.map clientOf).map ClientGrant.value)) =
      ClientGrant.codec.list.encode d.allowedClients := by
    rw [image_arr, List.map_map, List.map_map]
    show _ = Json.arr (d.allowedClients.map ClientGrant.codec.encode)
    congr 2
    funext g
    exact image_clientOf g
  rw [hobject, WalletDescriptor.value, image_object, hversion]
  simp only [descriptorOf, List.map_cons, List.map_nil, Prod.map, id, hclients, encode_version, image_hex,
    encode_hexArray, image_units, encode_decimal]

/-- An operation is of the kind that its type names. -/
theorem kind_of_image {operation : Operation} {x : Protocol.Operation}
    (hx : Operation.codec.encode x = image operation.value) :
    utf16Units operation.type = utf16Units x.kind.asStr := by
  have htype : ∃ members, Operation.codec.encode x = .obj (("type", .str x.kind.asStr) :: members) := by
    cases x <;> exact ⟨_, rfl⟩
  obtain ⟨members, hmembers⟩ := htype
  rw [hmembers, Operation.value, image_object, List.map_cons] at hx
  have hhead := List.head_eq_of_cons_eq (Json.obj.inj hx)
  have htext : lossy (utf16Units operation.type) = x.kind.asStr :=
    (Json.str.inj (Prod.mk.inj hhead).2).symm
  rw [← htext, lossy_units]

end Views

section Drawing

theorem asStr_injective : Function.Injective OperationKind.asStr := by
  intro k k' h
  cases k <;> cases k' <;> first | rfl | exact absurd h (by decide)

theorem toNat_maxRequestAge : MAX_REQUEST_AGE_MS.toNat = 300000 := by decide

/-- What the enclave reads of the request of a client that holds its discovery and a descriptor. -/
structure Drawn {BootProof : Type} (c : QosCrypto) (info : Protocol.ServiceInfo)
    (d : Protocol.WalletDescriptor) (context : OperationExecutionContext) (x : Protocol.Operation)
    (sealedSeed : Option JsString) (r : Readings BootProof) (request : OperationRequest)
    (y : Protocol.OperationRequest) : Prop where
  encoded : OperationRequest.codec.encode y = image request.value
  version : y.version = API_VERSION
  requestId : y.requestId = r.requestId
  issued : (y.issuedAtMs.toNat : ℤ) = r.nowMs
  expires : y.expiresAtMs.toNat = y.issuedAtMs.toNat + 300000
  release : y.targetReleaseId = info.releaseId
  manifest : y.targetManifestDigest = info.manifestDigest
  executable : y.targetExecutableDigest = info.executableDigest
  quorumKey : y.quorumKeyId = info.quorumKeyId
  quorumKeyEpoch : y.quorumKeyEpoch = info.quorumKeyEpoch
  descriptor : y.walletDescriptor = d
  seed : sealedSeed = y.sealedSeed.map bytesToHex
  responseKey : ∃ key, c.publicKey r.responseSecret = some key ∧ y.clientResponsePublicKey = key.val
  operation : y.operation = x
  kind : x.kind ∈ info.supportedOperations
  /-- The key that signed is the first one of the descriptor with the id of the signer. -/
  signed : ∃ g ∈ d.allowedClients, y.authorization.clientKeyId = clientKeyId c.toCrypto g.clientPublicKey ∧
    ∃ digest, requestDigest c.sha256 request.value = .ok digest ∧
      c.toCrypto.Verifies g.clientPublicKey (clientAuthDigest c.sha256 digest) y.authorization.signature

theorem textEncode_clientAuthMessage {digest : ByteArrayOf 32} {message : JsString}
    (h : clientAuthMessage digest.val = .ok message) :
    textEncode message = utf8 (Protocol.clientAuthMessage digest) := by
  simp only [clientAuthMessage, bind_eq_ok, refuse_eq_ok, exists_const, pure_eq_ok] at h
  obtain ⟨-, rfl⟩ := h
  have happend : ∀ s t : String, utf16Units (s ++ t) = utf16Units s ++ utf16Units t := by
    intro s t
    rw [utf16Units, String.toList_append, transcodes_encode.append]
    rfl
  rw [← textEncode_utf16Units, Protocol.clientAuthMessage, happend, happend]
  rfl

theorem clientKeyIdFor_eq (c : QosCrypto) (key : Bytes) :
    clientKeyIdFor c key = utf16Units (clientKeyId c.toCrypto key) := by
  rw [clientKeyId, utf16Units, String.toList_append, transcodes_encode.append]
  rfl

/-- A text is a number's decimals, if the number is one of 64 bits. -/
theorem encodeDecimalU64_eq_ok {value : ℤ} {text : JsString} :
    encodeDecimalU64 value = .ok text ↔
      ∃ n : UInt64, (n.toNat : ℤ) = value ∧ text = utf16Units (Protocol.encodeDecimalU64 n) := by
  have hprint : ∀ n : UInt64, (n.toNat : ℤ) = value →
      utf16Units (Protocol.encodeDecimalU64 n) = (Numeral.ofInt value).print := by
    rintro n rfl
    rw [utf16Units_encodeDecimalU64, Numeral.ofInt, Numeral.print]
    simp [printFrac, printExp, digitsEquiv]
  simp only [encodeDecimalU64, bind_eq_ok, refuse_eq_ok, exists_const, not_or, not_lt, pure_eq_ok]
  constructor
  · rintro ⟨⟨hnonneg, hle⟩, rfl⟩
    have hvalue : ((UInt64.ofNat value.toNat).toNat : ℤ) = value := by
      rw [UInt64.toNat_ofNat', Nat.mod_eq_of_lt] <;> omega
    exact ⟨_, hvalue, (hprint _ hvalue).symm⟩
  · rintro ⟨n, hn, rfl⟩
    have hlt := n.toNat_lt
    exact ⟨by omega, (hprint n hn).symm⟩

theorem bytesToHex_injective : Function.Injective bytesToHex := by
  intro a b h
  have ha : decodeLowerHex (bytesToHex b) = .ok a := decodeLowerHex_eq_ok.2 h.symm
  exact Except.ok.inj (ha.symm.trans (decodeLowerHex_eq_ok.2 rfl))

/-- The client that is found is one of the descriptor, with the id looked for. -/
theorem findClient_eq_ok {c : QosCrypto} {id : JsString} {gs : List Protocol.ClientGrant} {g : ClientGrant}
    (h : findClient c id (gs.map clientOf) = .ok (some g)) :
    ∃ g' ∈ gs, g = clientOf g' ∧ id = clientKeyIdFor c g'.clientPublicKey := by
  induction gs with
  | nil => cases h
  | cons g' gs ih =>
    rw [List.map_cons, findClient] at h
    obtain ⟨key, hkey, h⟩ := bind_eq_ok.1 h
    have hkey := decodeLowerHex_eq_ok.1 hkey
    split_ifs at h with hid
    · obtain rfl := Option.some.inj (Except.ok.inj h)
      refine ⟨g', List.mem_cons_self, rfl, ?_⟩
      rw [← hid, bytesToHex_injective hkey]
    · obtain ⟨g'', hmem, hg⟩ := ih h
      exact ⟨g'', List.mem_cons_of_mem _ hmem, hg⟩

theorem sealedSeedFields_eq_ok {sealedSeed : Option JsString} {value : JsValue}
    (h : sealedSeedFields sealedSeed = .ok value) :
    ∃ seed : Option Bytes, sealedSeed = seed.map bytesToHex ∧
      (Protocol.hex.option hex_decode_null).encode seed = image value := by
  cases sealedSeed with
  | none =>
    obtain rfl := Except.ok.inj h
    exact ⟨none, rfl, rfl⟩
  | some text =>
    obtain ⟨bytes, hbytes, h⟩ := bind_eq_ok.1 h
    obtain rfl := Except.ok.inj h
    obtain ⟨s, heq, hs, -⟩ := requireHex_eq_ok.1 hbytes
    obtain rfl := Json.str.inj (Option.some.inj heq)
    obtain rfl := decodeLowerHex_eq_ok.1 hs
    refine ⟨some bytes, rfl, ?_⟩
    rw [image_hex]
    rfl

variable {BootProof : Type} {c : QosCrypto} {info : Protocol.ServiceInfo} {d : Protocol.WalletDescriptor}
  {context : OperationExecutionContext} {operation : Operation} {x : Protocol.Operation}
  {sealedSeed : Option JsString} {r : Readings BootProof} {request : OperationRequest}
  {grant : Option JsValue}

theorem encode_request (y : Protocol.OperationRequest) : OperationRequest.codec.encode y = .obj
    [("version", u8.encode y.version), ("request_id", (hexArray 32).encode y.requestId),
      ("issued_at_ms", decimalU64.encode y.issuedAtMs), ("expires_at_ms", decimalU64.encode y.expiresAtMs),
      ("target_release_id", .str y.targetReleaseId),
      ("target_manifest_digest", (hexArray 32).encode y.targetManifestDigest),
      ("target_executable_digest", (hexArray 32).encode y.targetExecutableDigest),
      ("quorum_key_id", .str y.quorumKeyId), ("quorum_key_epoch", decimalU64.encode y.quorumKeyEpoch),
      ("wallet_descriptor", WalletDescriptor.codec.encode y.walletDescriptor),
      ("sealed_seed", (Protocol.hex.option hex_decode_null).encode y.sealedSeed),
      ("client_response_public_key", Protocol.hex.encode y.clientResponsePublicKey),
      ("operation", Operation.codec.encode y.operation),
      ("authorization", ClientAuthorization.codec.encode y.authorization)] := rfl

theorem exists_drawn (hinfo : context.info = infoOf info) (hdescriptor : context.descriptor = descriptorOf d)
    (hversion : d.version = API_VERSION) (hx : Operation.codec.encode x = image operation.value)
    (h : (prepareRequest c context operation.value sealedSeed r).result = .ok (request, grant)) :
    ∃ y, Drawn c info d context x sealedSeed r request y := by
  simp only [prepareRequest, result_bind, bind_eq_ok, Prod.exists] at h
  obtain ⟨unsigned, client, grant', hunsigned, n, -, _, -, digest, hdigest, message, hmessage, signature, -,
    key, hkey, _, hverify, h⟩ := h
  -- The request is the unsigned one with the signature put in.
  obtain ⟨rfl, rfl⟩ := Prod.mk.inj (Except.ok.inj h)
  have hunsigned : unsignedRequest c context operation.value sealedSeed r = .ok (unsigned, client, grant') :=
    hunsigned
  simp only [unsignedRequest, bind_eq_ok, pure_eq_ok, Prod.mk.injEq, refuse_eq_ok, exists_const] at hunsigned
  obtain ⟨_, -, kind, hkind, hsupported, -, g, hgrant, _, -, _, -, responsePublic, hresponse, issuedAtMs,
    hissued, expiresAtMs, hexpires, seed, hseed, rfl, rfl, rfl⟩ := hunsigned
  obtain ⟨issued, hissuedAt, rfl⟩ := encodeDecimalU64_eq_ok.1 hissued
  obtain ⟨expires, hexpiresAt, rfl⟩ := encodeDecimalU64_eq_ok.1 hexpires
  obtain ⟨sealed, hsealed, hsealedImage⟩ := sealedSeedFields_eq_ok hseed
  -- The kind of the operation is one that the enclave supports.
  obtain rfl := Except.ok.inj ((property_type operation).symm.trans hkind)
  have hkinds : x.kind ∈ info.supportedOperations := by
    rw [hinfo, infoOf, Bool.not_eq_false, List.any_eq_true] at hsupported
    obtain ⟨text, htext, hequal⟩ := hsupported
    obtain ⟨kind, hmem, rfl⟩ := List.mem_map.1 htext
    have hequal := of_decide_eq_true hequal
    rw [kind_of_image hx, Option.some.injEq, Json.str.injEq, utf16Units_injective.eq_iff] at hequal
    exact asStr_injective hequal ▸ hmem
  -- The key that was asked is that of an allowed client of the descriptor.
  obtain ⟨g', hmem, hid, hkey⟩ : ∃ g' ∈ d.allowedClients,
      context.clientKeyId = clientKeyIdFor c g'.clientPublicKey ∧ key = g'.clientPublicKey := by
    simp only [matchingGrant, bind_eq_ok, ofOption_eq_ok, refuse_eq_ok, pure_eq_ok, exists_const] at hgrant
    obtain ⟨_, hfound, _, rfl, -, rfl⟩ := hgrant
    rw [hdescriptor] at hfound
    obtain ⟨g', hmem, rfl, hid⟩ := findClient_eq_ok hfound
    obtain ⟨s, heq, hs, -⟩ := requireHex_eq_ok.1 hkey
    obtain rfl := Json.str.inj (Option.some.inj heq)
    exact ⟨g', hmem, hid, bytesToHex_injective (decodeLowerHex_eq_ok.1 hs).symm⟩
  subst hkey
  have hauthorization : ClientAuthorization.codec.encode ⟨clientKeyId c.toCrypto g'.clientPublicKey, signature⟩ =
      image (object [("client_key_id", .str (clientKeyIdFor c g'.clientPublicKey)),
        ("signature", .str (bytesToHex signature))]) := by
    rw [image_object, clientKeyIdFor_eq]
    simp only [List.map_cons, List.map_nil, Prod.map, id, image_hex, image_units]
    rfl
  refine ⟨⟨API_VERSION, r.requestId, issued, expires, info.releaseId, info.manifestDigest,
    info.executableDigest, info.quorumKeyId, info.quorumKeyEpoch, d, sealed, responsePublic.val, x,
    ⟨clientKeyId c.toCrypto g'.clientPublicKey, signature⟩⟩, ?_⟩
  exact
    { encoded := by
        rw [encode_request, OperationRequest.value, image_object, hinfo, hdescriptor, hid]
        simp only [infoOf, List.map_cons, List.map_nil, Prod.map, id, hsealedImage, hx, hauthorization,
          image_descriptorOf hversion, encode_version, image_hex, encode_hexArray, image_units,
          encode_decimal]
      version := rfl
      requestId := rfl
      issued := hissuedAt
      expires := by
        rw [toNat_maxRequestAge] at hexpiresAt
        show expires.toNat = issued.toNat + 300000
        omega
      release := rfl
      manifest := rfl
      executable := rfl
      quorumKey := rfl
      quorumKeyEpoch := rfl
      descriptor := rfl
      seed := hsealed
      responseKey := ⟨responsePublic, ofOption_eq_ok.1 hresponse, rfl⟩
      operation := rfl
      kind := hkinds
      signed := by
        refine ⟨g', hmem, rfl, digest, hdigest, ?_⟩
        rw [clientAuthDigest, ← textEncode_clientAuthMessage hmessage]
        exact verifyP256Prehash_eq_ok.1 hverify }

end Drawing

section Reading

variable {BootProof : Type} {c : QosCrypto} {context : OperationExecutionContext} {operation : Operation}
  {sealedSeed : Option JsString} {r : Readings BootProof} {request : OperationRequest}
  {grant : Option JsValue}

/-- A request that the enclave reads as the client signed it. -/
structure Read (c : QosCrypto) (request : OperationRequest) (y : Protocol.OperationRequest) (body : JsString) :
    Prop where
  written : canonicalizeJsonValue request.value = .ok body
  canonical : Protocol.isRfc8785 (lossy body) = true
  parsed : parseOperationRequest (lossy body) = some (OperationRequest.codec.norm y)
  digest : ∃ digest, requestDigest c.sha256 request.value = .ok digest ∧
    Protocol.requestDigest c.sha256 (OperationRequest.codec.norm y) = some digest

/-- The enclave reads the request that was drawn up, and computes the digest that the client signed. -/
theorem exists_read (hparsed : IsParsed operation) (hlegible : Legible operation.value)
    (hdepth : operation.value.depth < recursionLimit)
    (h : (prepareRequest c context operation.value sealedSeed r).result = .ok (request, grant))
    {y : Protocol.OperationRequest} (hy : OperationRequest.codec.encode y = image request.value) :
    ∃ body, Read c request y body := by
  have hprepared := prepared_of_ok h
  have hdistinct := hprepared.distinct (distinct_operation hparsed)
  have hlegible' := hprepared.legible_iff.2 hlegible
  have hdepth' := hprepared.depth_iff.2 hdepth
  obtain ⟨body, hbody⟩ := canonicalize_of_prepared h
  obtain ⟨digest, hdigest⟩ := @requestDigest_of_canonicalize request c.sha256 body hbody
  refine ⟨body, hbody, (isRfc8785_lossy_iff hdistinct hbody).2 ⟨hlegible', hdepth'⟩, ?_, digest, hdigest,
    requestDigest_image hdistinct hlegible' hy hdigest⟩
  rw [parseOperationRequest, Protocol.parseStrictJson, strictValue_image hdistinct hlegible' hdepth' hbody,
    Option.bind_some, ← hy]
  exact OperationRequest.exact .value y

end Reading

end ZolanaTvc.Wallet.OperationExecutor
