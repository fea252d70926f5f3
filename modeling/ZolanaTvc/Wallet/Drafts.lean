import ZolanaTvc.Gateway.Record
import ZolanaTvc.Wallet.Views

/-!
# The requests that a client draws up

## Main results

* `Ready.encrypted`: a client that may run an operation encrypts a request for it.
* `size_request`, `size_encryptedRequest`: how long a request is.
-/

namespace ZolanaTvc.Wallet.OperationExecutor

open Except Effectful Json Protocol Serde

section Preparing

variable {BootProof : Type} (context : OperationExecutionContext) (r : Readings BootProof)

/-- The request that a client draws up. -/
def drafted (issuedAtMs expiresAtMs : JsString) (responsePublic : Bytes) (operation seed : JsValue)
    (signature : JsString) : OperationRequest where
  requestId := bytesToHex r.requestId.val
  issuedAtMs := issuedAtMs
  expiresAtMs := expiresAtMs
  targetReleaseId := context.info.releaseId
  targetManifestDigest := context.info.manifestDigest
  targetExecutableDigest := context.info.executableDigest
  quorumKeyId := context.info.quorumKeyId
  quorumKeyEpoch := context.info.quorumKeyEpoch
  walletDescriptor := context.descriptor
  sealedSeed := seed
  clientResponsePublicKey := bytesToHex responsePublic
  operation := operation
  clientKeyId := context.clientKeyId
  signature := signature

/-- A client that may run an operation and finds what it asks for. -/
structure Ready (c : QosCrypto) (operation : JsValue) (sealedSeed : Option JsString) (kind : JsString)
    (key : Bytes) (kinds : List JsString) (grant : Option JsValue) (responsePublic : ByteArrayOf 65)
    (issued expires : JsString) (seed : JsValue) (signature : Bytes) : Prop where
  wanted : r.aborted = false ∧ r.abortedSigned = false
  type : property operation "type" = .ok (some (.str kind))
  supported : kind ∈ context.info.supportedOperations
  network : context.descriptor.network = context.info.network
  found : findClient c context.clientKeyId context.descriptor.allowedClients = .ok (some ⟨bytesToHex key, kinds⟩)
  clientKey : key.length = SEC1_UNCOMPRESSED_LEN
  allowed : kind ∈ kinds
  grant : requestGrant context.backend = .ok grant
  current : context.releasePolicyValidFromMs ≤ r.nowMs ∧ r.nowMs ≤ context.releasePolicyExpiresAtMs
  responseKey : c.publicKey r.responseSecret = some responsePublic
  issued : encodeDecimalU64 r.nowMs = .ok issued
  expires : encodeDecimalU64 (r.nowMs + MAX_REQUEST_AGE_MS.toNat) = .ok expires
  seed : sealedSeedFields sealedSeed = .ok seed
  signs : r.signature = .ok signature
  verifies : ∀ digest, verifyP256Prehash c.toCrypto key digest signature = .ok ()

variable {context r} {c : QosCrypto} {operation seed : JsValue} {sealedSeed : Option JsString}
  {kind issued expires : JsString} {kinds : List JsString} {key signature : Bytes} {grant : Option JsValue}
  {responsePublic : ByteArrayOf 65}

theorem findClient_head {c : QosCrypto} {kinds : List JsString} (key : Bytes) (clients : List ClientGrant) :
    findClient c (clientKeyIdFor c key) (⟨bytesToHex key, kinds⟩ :: clients) =
      .ok (some ⟨bytesToHex key, kinds⟩) :=
  bind_eq_ok.2 ⟨key, decodeLowerHex_eq_ok.2 rfl, if_pos rfl⟩

theorem any_of_mem {names : List JsString} (h : kind ∈ names) :
    ¬names.any (fun name => some (.str kind : JsValue) = some (.str name)) = false := by
  rw [Bool.not_eq_false, List.any_eq_true]
  exact ⟨kind, h, decide_eq_true rfl⟩

theorem Ready.unsigned (h : Ready context r c operation sealedSeed kind key kinds grant responsePublic issued
    expires seed signature) : unsignedRequest c context operation sealedSeed r =
      .ok (drafted context r issued expires responsePublic.val operation seed [],
        ⟨bytesToHex key, kinds⟩, grant) := by
  have hmatching : matchingGrant c context (some (.str kind)) = .ok ⟨bytesToHex key, kinds⟩ :=
    bind_eq_ok.2 ⟨_, h.found, bind_eq_ok.2 ⟨_, rfl,
      bind_eq_ok.2 ⟨(), refuse_eq_ok.2 (any_of_mem h.allowed), rfl⟩⟩⟩
  have hcurrent : requireCurrentReleasePolicy context r.nowMs = .ok () :=
    refuse_eq_ok.2 (not_or.2 ⟨not_lt.2 h.current.1, not_lt.2 h.current.2⟩)
  have hwanted : throwIfAborted r.aborted = .ok () :=
    refuse_eq_ok.2 (by rw [h.wanted.1]; exact Bool.false_ne_true)
  refine bind_eq_ok.2 ⟨(), hwanted, bind_eq_ok.2 ⟨_, h.type, bind_eq_ok.2 ⟨(),
    refuse_eq_ok.2 (any_of_mem h.supported), bind_eq_ok.2 ⟨(), refuse_eq_ok.2 (not_not.2 h.network),
    bind_eq_ok.2 ⟨_, hmatching, bind_eq_ok.2 ⟨_, h.grant, bind_eq_ok.2 ⟨(), hcurrent, bind_eq_ok.2
      ⟨_, ofOption_eq_ok.2 h.responseKey, bind_eq_ok.2 ⟨_, h.issued, bind_eq_ok.2 ⟨_, h.expires,
        bind_eq_ok.2 ⟨_, h.seed, rfl⟩⟩⟩⟩⟩⟩⟩⟩⟩⟩⟩

/-- The size of what is sent, by the sizes of the signed request and of what stands around it. -/
theorem preflightBytes_drafted {m k : ℕ}
    (hm : byteLength (drafted context r issued expires responsePublic.val operation seed
      (bytesToHex (List.replicate RAW_P256_SIGNATURE_LEN 0))).value = .ok m)
    (hk : enclaveRequestBytes context (encryptedRequest context.info [] grant) = .ok k) :
    preflightBytes context (drafted context r issued expires responsePublic.val operation seed []) grant =
      .ok (k + 2 * (m + AES_GCM_NONCE_LEN + SEC1_UNCOMPRESSED_LEN + 4 + AES_GCM_TAG_LEN)) :=
  bind_eq_ok.2 ⟨m, hm, bind_eq_ok.2 ⟨k, hk, rfl⟩⟩

theorem Ready.prepared (h : Ready context r c operation sealedSeed kind key kinds grant responsePublic issued
    expires seed signature) {n : ℕ}
    (hn : preflightBytes context (drafted context r issued expires responsePublic.val operation seed []) grant =
      .ok n) (hlimit : checkRequestSize context.info n = .ok ()) {digest : ByteArrayOf 32}
    (hdigest : requestDigest c.sha256
      (drafted context r issued expires responsePublic.val operation seed []).value = .ok digest) :
    (prepareRequest c context operation sealedSeed r).result =
      .ok (drafted context r issued expires responsePublic.val operation seed (bytesToHex signature),
        grant) := by
  obtain ⟨message, hmessage⟩ : ∃ message, clientAuthMessage digest.val = .ok message :=
    ⟨_, bind_eq_ok.2 ⟨(), refuse_eq_ok.2 fun h => h digest.property, rfl⟩⟩
  have hkey : requireHex (some (.str (bytesToHex key))) (some SEC1_UNCOMPRESSED_LEN) = .ok key := by
    refine requireHex_bytesToHex ?_
    rintro _ ⟨⟩
    exact h.clientKey
  simp only [prepareRequest, result_bind, bind_eq_ok, Prod.exists]
  exact ⟨_, _, grant, h.unsigned, n, hn, (), hlimit, digest, hdigest, message, hmessage, signature,
    h.signs, key, hkey, (), h.verifies _, rfl⟩

theorem Ready.encrypted (h : Ready context r c operation sealedSeed kind key kinds grant responsePublic issued
    expires seed signature) (sound : c.Sound) {n : ℕ}
    (hn : preflightBytes context (drafted context r issued expires responsePublic.val operation seed []) grant =
      .ok n) (hlimit : checkRequestSize context.info n = .ok ())
    (hwritten : ∀ s, (jcs.append
      (drafted context r issued expires responsePublic.val operation seed s).value).isSome)
    {quorumPublic : ByteArrayOf 130} (hquorum : context.info.quorumPublicKey = bytesToHex quorumPublic.val)
    {quorum : QosP256Public} (hparsed : parseQosP256Public c.toCrypto quorumPublic.val = .ok quorum)
    (hencrypt : ∀ plaintext, ∃ ciphertext,
      qosEncryptWith c quorum.encryption plaintext r.ephemeralSecret r.nonce = .ok ciphertext) :
    ∃ request ciphertext, (encryptOperation c context operation sealedSeed r).result =
      .ok (request, encryptedRequest context.info (bytesToHex ciphertext) grant) := by
  obtain ⟨unsigned, hunsigned⟩ := Option.isSome_iff_exists.1 (hwritten [])
  obtain ⟨digest, hdigest⟩ := @requestDigest_of_canonicalize _ c.sha256 unsigned
    (canonicalizeJsonValue_eq_ok.2 hunsigned)
  have hprepared := h.prepared hn hlimit hdigest
  -- The signed draft is written as the unsigned one was, with a longer signature.
  obtain ⟨body, hbody⟩ := Option.isSome_iff_exists.1 (hwritten (bytesToHex signature))
  have hbody := canonicalizeJsonValue_eq_ok.2 hbody
  obtain ⟨ciphertext, hciphertext⟩ := hencrypt (textEncode body)
  have hkey : requireHex (some (.str context.info.quorumPublicKey)) (some QOS_P256_PUBLIC_LEN) =
      .ok quorumPublic.val := by
    rw [hquorum]
    refine requireHex_bytesToHex ?_
    rintro _ ⟨⟩
    exact quorumPublic.property
  -- The preflight counted a signature of this length.
  have hlength : signature.length = RAW_P256_SIGNATURE_LEN := by
    have hverifies : c.toCrypto.Verifies key digest signature := verifyP256Prehash_eq_ok.1 (h.verifies digest)
    simp only [Crypto.Verifies, Protocol.verifyP256Prehash, rejectDer, bind_eq_ok, refuse_eq_ok, exists_const,
      not_not] at hverifies
    obtain ⟨-, -, ⟨-, hlength⟩, -⟩ := hverifies
    exact hlength
  have hsize := enclaveRequestBytes_signed sound.length_gcmEncrypt hn hlength hbody hciphertext
  have hwanted : throwIfAborted r.abortedSigned = .ok () :=
    refuse_eq_ok.2 (by rw [h.wanted.2]; exact Bool.false_ne_true)
  refine ⟨drafted context r issued expires responsePublic.val operation seed (bytesToHex signature),
    ciphertext, ?_⟩
  simp only [encryptOperation, result_bind, bind_eq_ok, Prod.exists]
  exact ⟨_, grant, hprepared, (), hwanted, body, hbody, _, hkey, quorum, hparsed, ciphertext, hciphertext, n,
    hsize, (), hlimit, rfl⟩

/-- The client encrypts whatever it has to encrypt. -/
theorem exists_qosEncryptWith (sound : c.Sound) (receiverSecret ephemeralSecret : ByteArrayOf 32)
    {receiver ephemeral : ByteArrayOf SEC1_UNCOMPRESSED_LEN}
    (hreceiver : c.publicKey receiverSecret.val = some receiver)
    (hephemeral : c.publicKey ephemeralSecret.val = some ephemeral) (nonce : ByteArrayOf AES_GCM_NONCE_LEN)
    {plaintext : Bytes} :
    ∃ bytes, qosEncryptWith c receiver.val plaintext ephemeralSecret.val nonce.val = .ok bytes :=
  ⟨_, (qosEncryptWith_eq_ok sound hreceiver hephemeral).2
    (encodeQosEnvelope_eq_ok.2 ⟨nonce.property, ephemeral.property, rfl⟩)⟩

end Preparing

section Sizes

open Gateway (asciiChar utf8_asciiChars)

/-- A byte of ASCII that a string literal holds as it is. -/
def isUnescapedByte (byte : UInt8) : Bool := decide (32 ≤ byte ∧ byte < 128 ∧ byte ≠ 34 ∧ byte ≠ 92)

theorem unescaped_asciiChar : ∀ n : Fin 128, isUnescapedByte (UInt8.ofNat n) = true →
    IsUnescaped (Char.ofNat n) := by decide

theorem quote_units {t : String} (ht : (utf8 t).all isUnescapedByte = true) :
    textLength.of (jcs.quote (utf16Units t)) = (utf8 t).length + 2 := by
  rw [List.all_eq_true] at ht
  have hascii : ∀ byte ∈ utf8 t, byte < 128 := fun byte hbyte => (of_decide_eq_true (ht byte hbyte)).2.1
  have hchars : String.ofList ((utf8 t).map asciiChar) = t := utf8_injective (utf8_asciiChars hascii)
  have hlength : t.length = (utf8 t).length := by
    conv_lhs => rw [← hchars, String.length_ofList, List.length_map]
  rw [quote_lossy, lossy_units, ← hlength]
  refine quote_unescaped fun ch hch => ?_
  rw [← hchars, String.toList_ofList] at hch
  obtain ⟨byte, hbyte, rfl⟩ := List.mem_map.1 hch
  refine unescaped_asciiChar ⟨byte.toNat, hascii byte hbyte⟩ ?_
  rw [UInt8.ofNat_toNat]
  exact ht byte hbyte

theorem size_version : jcs.size textLength apiVersion = 1 := by
  have hnumeral : jcs.numeral (ofNumeral (.ofInt 1)) = some (.ofInt 1) :=
    numeral_one
  show jcs.numberSize textLength _ = 1
  rw [Writer.numberSize, jcs.number_eq, hnumeral]
  rfl

/-- How long a string is in quotes. -/
def quoted (s : JsString) : ℕ := textLength.of (jcs.quote s)

theorem size_client (g : ClientGrant) : jcs.size textLength g.value =
    44 + quoted g.clientPublicKey + jcs.size textLength (.arr (g.allowedOperations.map .str)) := by
  have hnames : (utf8 "client_public_key").length = 17 ∧ (utf8 "allowed_operations").length = 18 := by decide
  simp (disch := decide) only [ClientGrant.value, size_object, List.map_cons,
    List.map_nil, Prod.map_apply, Writer.sizeMembers, Writer.size, id_eq, quote_units, hnames, quoted]
  omega

theorem size_descriptor (d : WalletDescriptor) : jcs.size textLength d.value =
    167 + quoted d.securityDomainId + quoted d.network + quoted d.turnkeyOrganizationId +
      quoted d.turnkeyWalletId + quoted d.address +
      jcs.size textLength (.arr (d.allowedClients.map ClientGrant.value)) +
      quoted d.expiresAtMs + quoted d.provisioningSignature := by
  have hnames : (utf8 "version").length + (utf8 "security_domain_id").length + (utf8 "network").length +
      (utf8 "turnkey_organization_id").length + (utf8 "turnkey_wallet_id").length + (utf8 "address").length +
      (utf8 "allowed_clients").length + (utf8 "expires_at_ms").length +
      (utf8 "provisioning_signature").length = 129 := by decide
  simp (disch := decide) only [WalletDescriptor.value, size_object,
    List.map_cons, List.map_nil, Prod.map_apply, Writer.sizeMembers, Writer.size, id_eq, quote_units,
    size_version, quoted]
  omega

theorem size_request (r : OperationRequest) : jcs.size textLength r.value =
    299 + quoted r.requestId + quoted r.issuedAtMs + quoted r.expiresAtMs + quoted r.targetReleaseId +
      quoted r.targetManifestDigest + quoted r.targetExecutableDigest + quoted r.quorumKeyId +
      quoted r.quorumKeyEpoch + jcs.size textLength r.walletDescriptor.value +
      jcs.size textLength r.sealedSeed + quoted r.clientResponsePublicKey +
      jcs.size textLength r.operation + quoted r.clientKeyId + quoted r.signature := by
  have hnames : (utf8 "version").length + (utf8 "request_id").length + (utf8 "issued_at_ms").length +
      (utf8 "expires_at_ms").length + (utf8 "target_release_id").length +
      (utf8 "target_manifest_digest").length + (utf8 "target_executable_digest").length +
      (utf8 "quorum_key_id").length + (utf8 "quorum_key_epoch").length +
      (utf8 "wallet_descriptor").length + (utf8 "sealed_seed").length +
      (utf8 "client_response_public_key").length + (utf8 "operation").length +
      (utf8 "authorization").length + (utf8 "client_key_id").length + (utf8 "signature").length = 232 := by
    decide
  simp (disch := decide) only [OperationRequest.value, size_object,
    List.map_cons, List.map_nil, Prod.map_apply, Writer.sizeMembers, Writer.size, id_eq, quote_units,
    size_version, quoted]
  omega

theorem quoted_hex (bytes : Bytes) : quoted (bytesToHex bytes) = 2 * bytes.length + 2 := quote_hex bytes

theorem quoted_decimal (n : UInt64) : quoted (utf16Units (Protocol.encodeDecimalU64 n)) ≤ 22 := by
  rw [quoted, quote_lossy, lossy_units]
  have hquote : utf8Length.of (serdeJson.quote (Protocol.encodeDecimalU64 n)) =
      (Protocol.encodeDecimalU64 n).length + 2 :=
    quote_unescaped (unescaped_decimal n)
  have hlength := length_decimal n
  omega

theorem quoted_clientKeyId (c : QosCrypto) (key : Bytes) :
    quoted (clientKeyIdFor c key) = 50 := by
  rw [clientKeyIdFor_eq, quoted, quote_lossy, lossy_units]
  exact (quote_unescaped (unescaped_clientKeyId _ _)).trans
    (congrArg (· + 2) (length_clientKeyId _ _))

theorem quoted_units {t : String} {n : ℕ} (h : (utf8 t).all isUnescapedByte = true ∧ (utf8 t).length = n) :
    quoted (utf16Units t) = n + 2 :=
  h.2 ▸ quote_units h.1

theorem size_singleton (w : JsValue) : jcs.size textLength (.arr [w]) = jcs.size textLength w + 2 := by
  have hsize : jcs.size textLength (.arr [w]) = 1 + max 1 (jcs.size textLength w + 1 + 0) := rfl
  omega

/-- The size of the descriptor of a wallet with one client. -/
theorem size_descriptorOf {d : Protocol.WalletDescriptor} {key : ByteArrayOf SEC1_UNCOMPRESSED_LEN}
    (hclients : d.allowedClients = [⟨key.val, OPERATIONS⟩]) (hsignature : d.provisioningSignature.length = 64) :
    jcs.size textLength (descriptorOf d).value ≤ 700 + quoted (utf16Units d.turnkeyOrganizationId) +
      quoted (utf16Units d.turnkeyWalletId) + quoted (utf16Units d.address) := by
  have hkinds :
      jcs.size textLength (.arr ((OPERATIONS.map fun kind => utf16Units kind.asStr).map .str)) ≤ 60 := by
    decide
  have hnetwork : quoted (utf16Units d.network.asStr) ≤ 20 := by
    cases d.network <;> exact (quoted_units ⟨by decide, rfl⟩).le.trans (by decide)
  have hclient := size_client ⟨bytesToHex key.val, OPERATIONS.map fun kind => utf16Units kind.asStr⟩
  have hsingleton := size_singleton
    (ClientGrant.value
      ⟨bytesToHex key.val, OPERATIONS.map fun kind => utf16Units kind.asStr⟩)
  have hkey : key.val.length = 65 := key.property
  have hdomain := d.securityDomainId.property
  have hexpires := quoted_decimal d.expiresAtMs
  rw [size_descriptor]
  simp only [descriptorOf, hclients, List.map_cons, List.map_nil, clientOf, quoted_hex]
  simp only [quoted_hex] at hclient
  omega

theorem size_encryptedRequest (info : ServiceInfo) (grant : Option JsValue) :
    jcs.size textLength (encryptedRequest info [] grant) =
      66 + quoted info.quorumKeyId + quoted info.quorumKeyEpoch +
        grant.elim 0 fun grant => 16 + jcs.size textLength grant := by
  have hnames : (utf8 "version").length + (utf8 "quorum_key_id").length + (utf8 "quorum_key_epoch").length +
      (utf8 "ciphertext").length = 46 := by decide
  have hgrant : (utf8 "wallet_grant").length = 12 := by decide
  have hempty : textLength.of (jcs.quote []) = 2 := by decide
  cases grant with
  | none =>
    simp (disch := decide) only [encryptedRequest, Option.toList, List.map_nil, List.append_nil,
      size_object, List.map_cons, Prod.map_apply, Writer.sizeMembers, Writer.size, id_eq, quote_units,
      size_version, quoted, hempty, Option.elim]
    omega
  | some grant =>
    simp (disch := decide) only [encryptedRequest, Option.toList, List.map_nil, List.cons_append,
      List.nil_append, size_object, List.map_cons, Prod.map_apply, Writer.sizeMembers, Writer.size, id_eq,
      quote_units, size_version, quoted, hempty, hgrant, Option.elim]
    omega

theorem legible_drafted {BootProof : Type} {context : OperationExecutionContext} {r : Readings BootProof}
    {issued expires : JsString} {responsePublic : Bytes} {operation seed : JsValue} {signature : JsString}
    (hoperation : Legible operation) (hseed : Legible seed) :
    Legible (drafted context r issued expires responsePublic operation seed signature).value := by
  rw [OperationRequest.value, legible_object]
  simp only [List.forall_mem_cons, List.not_mem_nil, false_imp_iff, implies_true, and_true, legible_str,
    legible_apiVersion, legible_descriptor, legible_object, drafted, hoperation, hseed]

theorem legible_bootstrap : Legible Operation.bootstrap.value := by
  rw [Operation.value, legible_object]
  simp [Operation.fields, legible_str]

theorem legible_encryptedRequest {info : ServiceInfo} {ciphertext : JsString} {grant : Option JsValue}
    (hgrant : ∀ g ∈ grant, Legible g) : Legible (encryptedRequest info ciphertext grant) := by
  rw [encryptedRequest, legible_object]
  cases grant with
  | none => simp [legible_apiVersion, legible_str]
  | some grant => simpa [legible_apiVersion, legible_str] using hgrant

theorem isSome_of_legible {w : JsValue} (h : Legible w) : (jcs.append w).isSome := by
  refine Format.isSome_append.2 (h.mono (fun _ h => h) (fun n hn => ?_) fun _ _ => trivial)
  obtain ⟨k, hk, -⟩ := hn
  exact Option.isSome_of_eq_some hk

end Sizes

end ZolanaTvc.Wallet.OperationExecutor
