import ZolanaTvc.Gateway.Signing
import ZolanaTvc.Protocol.Size
import ZolanaTvc.Wallet.OperationExecutor

/-!
# The size of a request

The client checks how long a request will be before its key is asked to sign it.

## Main results

* `enclaveRequestBytes_signed`: the size that is checked before a request is signed is its size once it
  is signed and encrypted.
* `not_tooLarge_after_asked`: no request is refused for its size once the key was asked.
-/

namespace ZolanaTvc.Wallet

open Except Effectful Json Protocol OperationExecutor

section Texts

/-- How long a string is once it is encoded. -/
def textLength : Measure UInt16 where
  of s := (textEncode s).length
  nil := rfl
  split a b c hc := by
    have hunit : (CodeUnit.ascii c : UInt16).toNat = c.toNat :=
      show CodeUnit.code (CodeUnit.ascii c : UInt16) = c.toNat from CodeUnit.code_ascii c hc
    have hhigh : Utf16.isHigh (CodeUnit.ascii c) = false := by
      rw [Bool.eq_false_iff, ne_eq, Utf16.isHigh_iff, hunit]
      omega
    have hlow : Utf16.isLow (CodeUnit.ascii c) = false := by
      rw [Bool.eq_false_iff, ne_eq, Utf16.isLow_iff, hunit]
      omega
    simp only [textEncode]
    rw [Utf16.decodeLossy_append hhigh hlow, hunit, Char.ofNat_toNat]
    exact utf8Length.split _ _ c hc

/-- What a string becomes once it is encoded: U+FFFD stands for a surrogate alone. -/
def lossy (s : JsString) : String := String.ofList (Utf16.decodeLossy s)

/-- A surrogate that is not followed by its second half stands alone. -/
theorem decodeLossy_alone {u x : UInt16} {s : JsString}
    (hu : (Utf16.isHigh u || Utf16.isLow u) = true)
    (hx : ¬(Utf16.isHigh u && Utf16.isLow x) = true) :
    Utf16.decodeLossy (u :: x :: s) = Char.ofNat 0xfffd :: Utf16.decodeLossy (x :: s) := by
  rw [Utf16.decodeLossy, if_neg hx, if_pos hu]

theorem jsonUnit_surrogate {u : UInt16} (hu : (Utf16.isHigh u || Utf16.isLow u) = true) :
    jsonUnit u = [u] := by
  refine jsonUnit_plain ?_
  rw [Bool.or_eq_true, Utf16.isHigh_iff, Utf16.isLow_iff] at hu
  omega

/-- One unit that is no surrogate is written as its character is. -/
theorem decodeLossy_jsonUnit {u : UInt16} (hu : ¬(Utf16.isHigh u || Utf16.isLow u) = true)
    (s : JsString) : Utf16.decodeLossy (jsonUnit u ++ s) =
      jsonChar (Char.ofNat u.toNat) ++ Utf16.decodeLossy s := by
  rw [Bool.or_eq_true, not_or, Bool.not_eq_true, Bool.not_eq_true] at hu
  have hunits := jsonUnit_units (Char.ofNat u.toNat)
  rw [Utf16.units_of_scalar hu.1 hu.2, List.flatMap_singleton] at hunits
  rw [hunits, Utf16.decodeLossy_encode_append]

/-- A string is written alike before and after it is encoded. -/
theorem decodeLossy_appendJsonString (s : JsString) :
    Utf16.decodeLossy (appendJsonString s) = Protocol.appendJsonString (lossy s) := by
  -- The quote at the end is needed: a half surrogate there must not find its other half.
  have hchars : ∀ s : JsString, Utf16.decodeLossy (s.flatMap jsonUnit ++ asciiText ['"']) =
      (Utf16.decodeLossy s).flatMap jsonChar ++ ['"'] := by
    intro s
    induction s using Utf16.decodeLossy.induct with
    | case1 => rfl
    | case2 u hu =>
      rw [List.flatMap_singleton, jsonUnit_surrogate hu, Utf16.decodeLossy, if_pos hu]
      exact decodeLossy_alone hu (by simp [Utf16.isLow, CodeUnit.ascii])
    | case3 u hu =>
      rw [List.flatMap_singleton, decodeLossy_jsonUnit hu, Utf16.decodeLossy, if_neg hu,
        List.flatMap_singleton]
      rfl
    | case4 u v s hpair ih =>
      obtain ⟨hu, hv⟩ := Bool.and_eq_true_iff.1 hpair
      have hcombine : jsonChar (Utf16.combine u v) = [Utf16.combine u v] := by
        have hunits := jsonUnit_units (Utf16.combine u v)
        rw [Utf16.units_combine hu hv, List.flatMap_cons, List.flatMap_singleton,
          jsonUnit_surrogate (by rw [hu]; rfl), jsonUnit_surrogate (by rw [hv, Bool.or_true]),
          List.singleton_append, ← Utf16.units_combine hu hv] at hunits
        exact Utf16.encode_injective (hunits.symm.trans (List.flatMap_singleton _ _).symm)
      rw [List.flatMap_cons, List.flatMap_cons, jsonUnit_surrogate (by rw [hu]; rfl),
        jsonUnit_surrogate (by rw [hv, Bool.or_true]), Utf16.decodeLossy, if_pos hpair,
        List.flatMap_cons, hcombine, List.append_assoc, List.append_assoc, List.singleton_append,
        List.singleton_append, Utf16.decodeLossy, if_pos hpair, ih]
      rfl
    | case5 u v s hpair hu ih =>
      -- What follows the surrogate is no second half: neither `v` nor what `v` is written with.
      obtain ⟨x, xs, hxs, hx⟩ : ∃ x xs, (v :: s).flatMap jsonUnit ++ asciiText ['"'] = x :: xs ∧
          ¬(Utf16.isHigh u && Utf16.isLow x) = true := by
        rw [List.flatMap_cons, List.append_assoc]
        obtain hv | ⟨-, -, hv⟩ := jsonUnit_cases v
        · rw [hv]
          exact ⟨v, _, rfl, hpair⟩
        · obtain ⟨x, xs, hjson⟩ := List.exists_cons_of_ne_nil (jsonUnit_ne_nil v)
          refine ⟨x, _, by rw [hjson]; rfl, ?_⟩
          rw [(hv x (hjson ▸ List.mem_cons_self)).2, Bool.and_false]
          exact Bool.false_ne_true
      rw [List.flatMap_cons, jsonUnit_surrogate hu, List.append_assoc, List.singleton_append, hxs,
        decodeLossy_alone hu hx, ← hxs, ih, Utf16.decodeLossy, if_neg hpair, if_pos hu]
      rfl
    | case6 u v s hpair hu ih =>
      rw [List.flatMap_cons, List.append_assoc, decodeLossy_jsonUnit hu, ih, Utf16.decodeLossy,
        if_neg hpair, if_neg hu, List.flatMap_cons, List.append_assoc]
  rw [appendJsonString, Protocol.appendJsonString, lossy, String.toList_ofList, ← hchars]
  exact Utf16.decodeLossy_encode_append ['"'] _

theorem quote_lossy (s : JsString) :
    textLength.of (jcs.quote s) = utf8Length.of (serdeJson.quote (lossy s)) := by
  show (utf8 (String.ofList (Utf16.decodeLossy (appendJsonString s)))).length = _
  rw [decodeLossy_appendJsonString]
  rfl

end Texts

section Grants

theorem unescaped_append {s t : String} (hs : ∀ c ∈ s.toList, IsUnescaped c)
    (ht : ∀ c ∈ t.toList, IsUnescaped c) : ∀ c ∈ (s ++ t).toList, IsUnescaped c := by
  rw [String.toList_append]
  exact List.forall_mem_append.2 ⟨hs, ht⟩

theorem unescaped_clientKeyId (c : Crypto) (key : Bytes) :
    ∀ ch ∈ (clientKeyId c key).toList, IsUnescaped ch :=
  unescaped_append (unescaped_of_all (by decide)) (unescaped_hex _)

theorem length_clientKeyId (c : Crypto) (key : Bytes) : (clientKeyId c key).length = 48 := by
  have hprefix : CLIENT_KEY_ID_PREFIX.length = 16 := rfl
  rw [clientKeyId, String.length_append, length_hex, List.length_take, (c.sha256 key).property, hprefix]
  rfl

theorem project_byte (byte : UInt8)
    (h : (Gateway.isAsciiAlphanumeric byte || byte == 0x2d) = true) :
    (Char.ofNat byte.toNat).toNat = byte.toNat ∧ IsUnescaped (Char.ofNat byte.toNat) := by
  have hbytes : ∀ n : Fin 256, (Gateway.isAsciiAlphanumeric (UInt8.ofNat n.val) ||
      UInt8.ofNat n.val == 0x2d) = true →
        (Char.ofNat n.val).toNat = n.val ∧ IsUnescaped (Char.ofNat n.val) := by
    decide +kernel
  exact hbytes ⟨byte.toNat, byte.toNat_lt⟩ (by rwa [UInt8.ofNat_toNat])

/-- The name of a project is short, and none of its characters is escaped. -/
theorem unescaped_project (project : Gateway.ProjectId) :
    (∀ c ∈ project.text.toList, IsUnescaped c) ∧ project.text.length ≤ 64 := by
  obtain ⟨⟨-, hlength⟩, hbytes⟩ : ((utf8 project.text).isEmpty = false ∧
      (utf8 project.text).length ≤ 64) ∧ ∀ byte ∈ utf8 project.text,
        (Gateway.isAsciiAlphanumeric byte || byte == 0x2d) = true := by
    have hvalid := project.valid
    rwa [Gateway.isProjectId, Bool.and_eq_true, Bool.and_eq_true, Bool.not_eq_true',
      decide_eq_true_eq, List.all_eq_true] at hvalid
  -- Each byte is a character of its own.
  have htext : project.text =
      String.ofList ((utf8 project.text).map fun byte => Char.ofNat byte.toNat) := by
    refine utf8_injective ?_
    rw [utf8_ascii, List.map_map]
    · refine (List.map_id _).symm.trans (List.map_congr_left fun byte hbyte => ?_)
      rw [Function.comp_apply, (project_byte byte (hbytes byte hbyte)).1, UInt8.ofNat_toNat, id]
    · intro ch hch
      obtain ⟨byte, hbyte, rfl⟩ := List.mem_map.1 hch
      exact (project_byte byte (hbytes byte hbyte)).2.2.1
  constructor
  · rw [htext, String.toList_ofList]
    intro ch hch
    obtain ⟨byte, hbyte, rfl⟩ := List.mem_map.1 hch
    exact (project_byte byte (hbytes byte hbyte)).2
  · rw [htext, String.length_ofList, List.length_map]
    exact hlength

/-- A grant is written in no more bytes than the client allows for it, with the name of its member. -/
theorem size_grant {c : Gateway.SigningCrypto} {g : Gateway.WalletGrants}
    {project : Gateway.ProjectId} {descriptor : Protocol.WalletDescriptor} {nowMs : UInt64}
    {grant : WalletGrant} (h : Gateway.Issued c g project descriptor nowMs grant) :
    serdeJson.size utf8Length (WalletGrant.codec.encode grant) + 16 ≤ GATEWAY_GRANT_BYTES := by
  obtain ⟨client, -, hclient⟩ := h.client
  obtain ⟨digest, signature, -, -, hsignature⟩ := h.signed
  obtain ⟨hproject, hlength⟩ := unescaped_project project
  have hdigest := grant.descriptorDigest.property
  have hissued := length_decimal grant.issuedAtMs
  have hexpires := length_decimal grant.expiresAtMs
  -- Nothing in a grant is escaped, and a decimal has at most 20 digits.
  have hversion : serdeJson.size utf8Length (u8.encode API_VERSION) = 1 := by decide
  have hobject : WalletGrant.codec.encode grant = .obj
      [("version", u8.encode grant.version),
        ("descriptor_digest", .str (encodeLowerHex grant.descriptorDigest.val)),
        ("client_key_id", .str grant.clientKeyId), ("project_id", .str grant.projectId),
        ("issued_at_ms", .str (Protocol.encodeDecimalU64 grant.issuedAtMs)),
        ("expires_at_ms", .str (Protocol.encodeDecimalU64 grant.expiresAtMs)),
        ("signature", .str (encodeLowerHex grant.signature))] := rfl
  rw [hobject, h.version, hclient, h.project, hsignature, Writer.size, Writer.sizeMembers, hversion,
    sizeMembers_str (unescaped_of_all (by decide)) (unescaped_hex _),
    sizeMembers_str (unescaped_of_all (by decide)) (unescaped_clientKeyId _ _),
    sizeMembers_str (unescaped_of_all (by decide)) hproject,
    sizeMembers_str (unescaped_of_all (by decide)) (unescaped_decimal _),
    sizeMembers_str (unescaped_of_all (by decide)) (unescaped_decimal _),
    sizeMembers_str (unescaped_of_all (by decide)) (unescaped_hex _),
    Writer.sizeMembers, length_hex, length_hex, length_clientKeyId, hdigest, signature.property]
  have hquote : utf8Length.of (serdeJson.quote "version") = 9 := by decide
  have hnames : "descriptor_digest".length = 17 ∧ "client_key_id".length = 13 ∧
      "project_id".length = 10 ∧ "issued_at_ms".length = 12 ∧ "expires_at_ms".length = 13 ∧
      "signature".length = 9 := by decide
  have hraw : RAW_P256_SIGNATURE_LEN = 64 := rfl
  obtain ⟨h1, h2, h3, h4, h5, h6⟩ := hnames
  rw [hquote, h1, h2, h3, h4, h5, h6, hraw, GATEWAY_GRANT_BYTES]
  omega

end Grants

section Sizes

theorem lossy_units (s : String) : lossy (utf16Units s) = s := by
  have h : Utf16.decodeLossy (utf16Units s) = s.toList := Utf16.decodeLossy_encode s.toList
  rw [lossy, h, String.ofList_toList]

theorem quote_hex (bytes : Bytes) :
    textLength.of (jcs.quote (bytesToHex bytes)) = 2 * bytes.length + 2 := by
  rw [bytesToHex, quote_lossy, lossy_units]
  exact (quote_unescaped (unescaped_hex bytes)).trans (congrArg (· + 2) (length_hex bytes))

theorem byteLength_eq_ok {value : JsValue} {n : ℕ} :
    byteLength value = .ok n ↔ (jcs.append value).isSome ∧ n = jcs.size textLength value := by
  have hlength : ∀ text, jcs.append value = some text →
      (textEncode text).length = jcs.size textLength value :=
    fun text htext => @Writer.of_append _ _ _ _ _ _ _ textLength _ _ htext
  simp only [byteLength, bind_eq_ok, pure_eq_ok, canonicalizeJsonValue_eq_ok, Option.isSome_iff_exists]
  constructor
  · rintro ⟨text, htext, rfl⟩
    exact ⟨⟨text, htext⟩, hlength text htext⟩
  · rintro ⟨⟨text, htext⟩, rfl⟩
    exact ⟨text, htext, hlength text htext⟩

theorem isSome_append_object {members : List (String × JsValue)} :
    (jcs.append (object members)).isSome ↔ ∀ m ∈ members, (jcs.append m.2).isSome := by
  have hmembers : ∀ ms : List (JsString × JsValue),
      (jcs.appendMembers ms).isSome ↔ ∀ m ∈ ms, (jcs.append m.2).isSome := by
    intro ms
    induction ms with
    | nil => simp [Writer.appendMembers]
    | cons m ms ih =>
      rw [List.forall_mem_cons, ← ih, Writer.appendMembers]
      cases jcs.append m.2 <;> simp
  rw [object, Writer.append, Option.isSome_map, hmembers, List.forall_mem_map]
  rfl

/-- An object with a member has no empty text between its brackets. -/
theorem size_object {member : String × JsValue} {members : List (String × JsValue)} :
    jcs.size textLength (object (member :: members)) =
      1 + jcs.sizeMembers textLength ((member :: members).map (Prod.map utf16Units id)) := by
  rw [object, Writer.size, List.map_cons, Prod.map, Writer.sizeMembers]
  omega

variable {context : OperationExecutionContext} {request : Wallet.OperationExecutor.OperationRequest}

/-- All signatures of one length are written alike. -/
theorem byteLength_signature {s t : JsString} {n : ℕ}
    (h : textLength.of (jcs.quote s) = textLength.of (jcs.quote t)) :
    byteLength { request with signature := s }.value = .ok n ↔
      byteLength { request with signature := t }.value = .ok n := by
  have hsome : (jcs.append { request with signature := s }.value).isSome ↔
      (jcs.append { request with signature := t }.value).isSome := by
    simp only [OperationRequest.value, isSome_append_object, List.forall_mem_cons]
    rfl
  have hsize : jcs.size textLength { request with signature := s }.value =
      jcs.size textLength { request with signature := t }.value := by
    simp only [OperationRequest.value, size_object, List.map_cons, List.map_nil, Prod.map,
      Writer.sizeMembers, id, Writer.size, h]
  rw [byteLength_eq_ok, byteLength_eq_ok, hsome, hsize]

theorem byteLength_encryptedRequest {info : OperationExecutor.ServiceInfo} {grant : Option JsValue} {n : ℕ}
    (ciphertext : Bytes) (h : byteLength (encryptedRequest info [] grant) = .ok n) :
    byteLength (encryptedRequest info (bytesToHex ciphertext) grant) =
      .ok (n + 2 * ciphertext.length) := by
  obtain ⟨hsome, rfl⟩ := byteLength_eq_ok.1 h
  have hempty : textLength.of (jcs.quote []) = 2 := by decide
  refine byteLength_eq_ok.2 ⟨?_, ?_⟩
  · simp only [encryptedRequest, isSome_append_object, List.cons_append, List.forall_mem_cons] at hsome ⊢
    exact hsome
  · simp only [encryptedRequest, size_object, List.cons_append, List.map_cons, Prod.map,
      Writer.sizeMembers, Writer.size, id, quote_hex, hempty]
    omega

end Sizes

section Forwarding

/-- A request as a gateway reads it of what a client sends. -/
structure IsSent (info : OperationExecutor.ServiceInfo) (ciphertext : Bytes) (e : EncryptedRequest) :
    Prop where
  version : e.version = API_VERSION
  quorumKeyId : e.quorumKeyId = lossy info.quorumKeyId
  quorumKeyEpoch : utf16Units (Protocol.encodeDecimalU64 e.quorumKeyEpoch) = info.quorumKeyEpoch
  ciphertext : e.ciphertext = ciphertext

/-- The enclave's limit on a body. -/
def bodyLimit (maxEncryptedRequestBytes : UInt64) : ℕ :=
  (min maxEncryptedRequestBytes MAX_ENCRYPTED_REQUEST_BYTES).toNat

/-- What the gateway adds is covered by the room that the client leaves for it. -/
theorem size_forwarded {info : OperationExecutor.ServiceInfo} {ciphertext : Bytes}
    {e : EncryptedRequest} {grant : WalletGrant} (he : IsSent info ciphertext e)
    (hgrant : serdeJson.size utf8Length (WalletGrant.codec.encode grant) + 16 ≤ GATEWAY_GRANT_BYTES) :
    serdeJson.size utf8Length (EncryptedRequest.codec.encode { e with walletGrant := some grant }) ≤
      jcs.size textLength (encryptedRequest info (bytesToHex ciphertext) none) + GATEWAY_GRANT_BYTES := by
  have hobject : EncryptedRequest.codec.encode { e with walletGrant := some grant } = .obj
      [("version", u8.encode e.version), ("quorum_key_id", .str e.quorumKeyId),
        ("quorum_key_epoch", .str (Protocol.encodeDecimalU64 e.quorumKeyEpoch)),
        ("ciphertext", .str (encodeLowerHex e.ciphertext)),
        ("wallet_grant", WalletGrant.codec.encode grant)] := rfl
  have hversion : serdeJson.size utf8Length (u8.encode API_VERSION) =
      jcs.size textLength apiVersion := by decide +kernel
  have hname : utf8Length.of (serdeJson.quote "wallet_grant") = 14 := by decide
  have hhex : bytesToHex ciphertext = utf16Units (encodeLowerHex ciphertext) := rfl
  rw [hobject, he.version, he.quorumKeyId, he.ciphertext, encryptedRequest, List.cons_append,
    size_object, ← he.quorumKeyEpoch, hhex]
  simp only [Option.toList, List.map_cons, List.map_nil, List.append_nil, Prod.map, id,
    Writer.size, Writer.sizeMembers, quote_lossy, lossy_units, hversion, hname]
  omega

end Forwarding

section Runs

variable {BootProof : Type} {c : QosCrypto}
  {trustVerifier : TurnkeyAppProofWire → BootProof → Except Thrown Unit}
  {context : OperationExecutionContext} {operation : JsValue} {sealedSeed : Option JsString}
  {r : Readings BootProof}

theorem length_ciphertext
    (hgcm : ∀ key nonce aad m, (c.gcmEncrypt key nonce aad m).length = m.length + AES_GCM_TAG_LEN)
    {receiver plaintext secret nonce ciphertext : Bytes}
    (h : qosEncryptWith c receiver plaintext secret nonce = .ok ciphertext) :
    ciphertext.length =
      plaintext.length + AES_GCM_NONCE_LEN + SEC1_UNCOMPRESSED_LEN + 4 + AES_GCM_TAG_LEN := by
  simp only [qosEncryptWith, bind_eq_ok, encodeQosEnvelope_eq_ok] at h
  obtain ⟨-, -, _, -, ephemeral, -, hnonce, -, rfl⟩ := h
  rw [List.length_append, List.length_append, List.length_append, Borsh.Codec.length_littleEndian,
    hnonce, ephemeral.property, hgcm]
  omega

/-- The request that is sent has the size that was checked before it was signed. -/
theorem enclaveRequestBytes_signed
    (hgcm : ∀ key nonce aad m, (c.gcmEncrypt key nonce aad m).length = m.length + AES_GCM_TAG_LEN)
    {request : Wallet.OperationExecutor.OperationRequest} {grant : Option JsValue} {n : ℕ}
    (h : preflightBytes context request grant = .ok n) {signature receiver secret nonce ciphertext : Bytes}
    {body : JsString} (hsignature : signature.length = RAW_P256_SIGNATURE_LEN)
    (hbody : canonicalizeJsonValue { request with signature := bytesToHex signature }.value = .ok body)
    (hciphertext : qosEncryptWith c receiver (textEncode body) secret nonce = .ok ciphertext) :
    enclaveRequestBytes context (encryptedRequest context.info (bytesToHex ciphertext) grant) =
      .ok n := by
  obtain ⟨signedBytes, hsigned, bytes, hbytes, hn⟩ := by
    simpa only [preflightBytes, bind_eq_ok] using h
  obtain ⟨emptyBytes, hempty, hbytes⟩ := bind_eq_ok.1 hbytes
  obtain rfl := Except.ok.inj hbytes
  obtain rfl := Except.ok.inj hn
  -- The placeholder is as long as the signature.
  have hplaceholder : textLength.of (jcs.quote (bytesToHex (List.replicate RAW_P256_SIGNATURE_LEN 0))) =
      textLength.of (jcs.quote (bytesToHex signature)) := by
    rw [quote_hex, quote_hex, List.length_replicate, hsignature]
  have hlength : (textEncode body).length = signedBytes := by
    obtain ⟨text, htext, hsize⟩ := bind_eq_ok.1 ((byteLength_signature hplaceholder).1 hsigned)
    obtain rfl := Except.ok.inj (htext.symm.trans hbody)
    exact Except.ok.inj hsize
  refine bind_eq_ok.2 ⟨_, byteLength_encryptedRequest ciphertext hempty, congrArg Except.ok ?_⟩
  rw [length_ciphertext hgcm hciphertext, hlength]
  omega

/-- The size is checked before the key is asked. -/
structure Checked (context : OperationExecutionContext)
    (request : Wallet.OperationExecutor.OperationRequest) (grant : Option JsValue) (n : ℕ) : Prop where
  preflight : preflightBytes context request grant = .ok n
  limit : checkRequestSize context.info n = .ok ()

theorem prepareRequest_ok {signed : Wallet.OperationExecutor.OperationRequest} {grant : Option JsValue}
    (h : (prepareRequest c context operation sealedSeed r).result = .ok (signed, grant)) :
    ∃ request client n signature,
      unsignedRequest c context operation sealedSeed r = .ok (request, client, grant) ∧
        Checked context request grant n ∧ signature.length = RAW_P256_SIGNATURE_LEN ∧
          signed = { request with signature := bytesToHex signature } := by
  simp only [prepareRequest, result_bind, bind_eq_ok, Prod.exists] at h
  obtain ⟨request, client, grant', hunsigned, n, hpreflight, _, hlimit, _, -, _, -, signature, -, _, -,
    _, hverify, h⟩ := h
  obtain ⟨rfl, rfl⟩ := Prod.mk.inj (Except.ok.inj h)
  have hverifies : c.toCrypto.Verifies _ _ signature := verifyP256Prehash_eq_ok.1 hverify
  simp only [Crypto.Verifies, Protocol.verifyP256Prehash, rejectDer, bind_eq_ok, refuse_eq_ok,
    exists_const, not_not] at hverifies
  obtain ⟨-, -, ⟨-, hlength⟩, -⟩ := hverifies
  exact ⟨request, client, n, signature, hunsigned, ⟨hpreflight, hlimit⟩, hlength, rfl⟩

/-- The key is asked to sign once the size was checked. -/
theorem prepareRequest_asked {e : Effect}
    (h : e ∈ (prepareRequest c context operation sealedSeed r).effects) :
    ∃ request client grant n message,
      unsignedRequest c context operation sealedSeed r = .ok (request, client, grant) ∧
        Checked context request grant n ∧ e = .asked request.value message := by
  rw [prepareRequest, mem_ofExcept_bind] at h
  obtain ⟨⟨request, client, grant⟩, hunsigned, h⟩ := h
  obtain ⟨n, hpreflight, h⟩ := mem_ofExcept_bind.1 h
  obtain ⟨_, hlimit, h⟩ := mem_ofExcept_bind.1 h
  obtain ⟨_, -, h⟩ := mem_ofExcept_bind.1 h
  obtain ⟨message, -, h⟩ := mem_ofExcept_bind.1 h
  refine ⟨request, client, grant, n, message, hunsigned, ⟨hpreflight, hlimit⟩, ?_⟩
  obtain rfl | ⟨_, -, h⟩ := mem_act_bind.1 h
  · rfl
  · obtain ⟨_, -, h⟩ := mem_ofExcept_bind.1 h
    obtain ⟨_, -, h⟩ := mem_ofExcept_bind.1 h
    cases h

/-- An encrypted request has the size that was checked before the key was asked. -/
theorem encryptOperation_ok
    (hgcm : ∀ key nonce aad m, (c.gcmEncrypt key nonce aad m).length = m.length + AES_GCM_TAG_LEN)
    {signed : Wallet.OperationExecutor.OperationRequest} {encrypted : JsValue}
    (h : (encryptOperation c context operation sealedSeed r).result = .ok (signed, encrypted)) :
    ∃ request client grant n ciphertext,
      unsignedRequest c context operation sealedSeed r = .ok (request, client, grant) ∧
        Checked context request grant n ∧
          encrypted = encryptedRequest context.info (bytesToHex ciphertext) grant ∧
            enclaveRequestBytes context encrypted = .ok n := by
  simp only [encryptOperation, result_bind, bind_eq_ok, Prod.exists] at h
  obtain ⟨_, grant, hprepare, _, -, body, hbody, _, -, _, -, ciphertext, hciphertext, _, -, _, -, h⟩ := h
  obtain ⟨request, client, n, signature, hunsigned, hchecked, hlength, rfl⟩ := prepareRequest_ok hprepare
  obtain ⟨-, rfl⟩ := Prod.mk.inj (Except.ok.inj h)
  exact ⟨request, client, grant, n, ciphertext, hunsigned, hchecked, rfl,
    enclaveRequestBytes_signed hgcm hchecked.preflight hlength hbody hciphertext⟩

theorem requireHex_ne (value : Option JsValue) (bytes : Option ℕ) :
    requireHex value bytes ≠ .error (spr "RequestTooLarge") := by
  have hstring : asString value (spr "InvalidHex") ≠ .error (spr "RequestTooLarge") := by
    unfold asString
    split <;> simp
  simp [requireHex, decodeLowerHex, bind_eq_error, -bind_pure_comp, hstring]

theorem parseUncompressedSec1_ne (crypto : Crypto) (bytes : Bytes) :
    parseUncompressedSec1 crypto bytes ≠ .error (spr "RequestTooLarge") := by
  simp [parseUncompressedSec1, bind_eq_error, -bind_pure_comp]

theorem verifyP256Prehash_ne (crypto : Crypto) (key : Bytes) (digest : ByteArrayOf 32)
    (signature : Bytes) :
    verifyP256Prehash crypto key digest signature ≠ .error (spr "RequestTooLarge") := by
  simp [verifyP256Prehash, parseRawLowS, bind_eq_error, parseUncompressedSec1_ne]

theorem parseQosP256Public_ne (crypto : Crypto) (bytes : Bytes) :
    parseQosP256Public crypto bytes ≠ .error (spr "RequestTooLarge") := by
  simp [parseQosP256Public, bind_eq_error, parseUncompressedSec1_ne, -bind_pure_comp]

theorem qosEncryptWith_ne (receiver plaintext secret nonce : Bytes) :
    qosEncryptWith c receiver plaintext secret nonce ≠ .error (spr "RequestTooLarge") := by
  simp [qosEncryptWith, encodeQosEnvelope, bind_eq_error, parseUncompressedSec1_ne, -bind_pure_comp]

/-- Once the key was asked, the size is not refused any more. -/
theorem not_tooLarge_after_asked
    (hgcm : ∀ key nonce aad m, (c.gcmEncrypt key nonce aad m).length = m.length + AES_GCM_TAG_LEN)
    {e : Effect} (he : e ∈ (encryptOperation c context operation sealedSeed r).effects)
    (h : (encryptOperation c context operation sealedSeed r).result = .error (spr "RequestTooLarge")) :
    r.signature = .error (spr "RequestTooLarge") := by
  rw [encryptOperation, result_bind, bind_eq_error] at h
  obtain h | ⟨⟨signed, grant⟩, hprepare, h⟩ := h
  · -- What is asked for was prepared in full.
    have hask : e ∈ (prepareRequest c context operation sealedSeed r).effects := by
      rw [encryptOperation, mem_effects_bind, h] at he
      simpa using he
    rw [prepareRequest, mem_ofExcept_bind] at hask
    obtain ⟨⟨request, client, grant⟩, hunsigned, hask⟩ := hask
    obtain ⟨n, hpreflight, hask⟩ := mem_ofExcept_bind.1 hask
    obtain ⟨_, hlimit, hask⟩ := mem_ofExcept_bind.1 hask
    obtain ⟨digest, hdigest, hask⟩ := mem_ofExcept_bind.1 hask
    obtain ⟨message, hmessage, -⟩ := mem_ofExcept_bind.1 hask
    simp only [prepareRequest, result_bind, bind_eq_error] at h
    -- Step by step: those before the key was asked passed, those after it throw other errors.
    obtain h | ⟨_, hunsigned', h⟩ := h
    · cases hunsigned.symm.trans h
    obtain rfl := Except.ok.inj (hunsigned.symm.trans hunsigned')
    obtain h | ⟨_, hpreflight', h⟩ := h
    · cases hpreflight.symm.trans h
    obtain rfl := Except.ok.inj (hpreflight.symm.trans hpreflight')
    obtain h | ⟨_, -, h⟩ := h
    · cases hlimit.symm.trans h
    obtain h | ⟨_, hdigest', h⟩ := h
    · cases hdigest.symm.trans h
    obtain rfl := Except.ok.inj (hdigest.symm.trans hdigest')
    obtain h | ⟨_, -, h⟩ := h
    · cases hmessage.symm.trans h
    obtain h | ⟨signature, -, h⟩ := h
    · exact h
    obtain h | ⟨_, -, h⟩ := h
    · exact absurd h (requireHex_ne _ _)
    obtain h | ⟨_, -, h⟩ := h
    · exact absurd h (verifyP256Prehash_ne _ _ _ _)
    · cases h
  · obtain ⟨request, client, n, signature, -, hchecked, hlength, rfl⟩ := prepareRequest_ok hprepare
    simp only [result_bind, bind_eq_error] at h
    obtain h | ⟨_, -, h⟩ := h
    · cases (refuse_eq_error.1 h).2
    obtain h | ⟨body, hbody, h⟩ := h
    · exact absurd (ofOption_eq_error.1 h).2 (by decide)
    obtain h | ⟨_, -, h⟩ := h
    · exact absurd h (requireHex_ne _ _)
    obtain h | ⟨_, -, h⟩ := h
    · exact absurd h (parseQosP256Public_ne _ _)
    obtain h | ⟨ciphertext, hciphertext, h⟩ := h
    · exact absurd h (qosEncryptWith_ne _ _ _ _)
    -- The second check is of the very size that passed the first.
    have hsize := enclaveRequestBytes_signed hgcm hchecked.preflight hlength hbody hciphertext
    obtain h | ⟨m, hm, h⟩ := h
    · cases hsize.symm.trans h
    obtain rfl := Except.ok.inj (hsize.symm.trans hm)
    obtain h | ⟨_, -, h⟩ := h
    · cases hchecked.limit.symm.trans h
    · cases h

theorem executeOperationEnvelope_sent {body : JsString}
    (h : .sent body ∈
      (executeOperationEnvelope c trustVerifier context operation sealedSeed r).effects) :
    ∃ signed encrypted,
      (encryptOperation c context operation sealedSeed r).result = .ok (signed, encrypted) ∧
        operationBody context encrypted = .ok body := by
  rw [executeOperationEnvelope, mem_effects_bind] at h
  obtain h | ⟨⟨signed, encrypted⟩, hencrypt, h⟩ := h
  · -- Encrypting sends nothing.
    rw [encryptOperation, mem_effects_bind] at h
    obtain h | ⟨_, -, h⟩ := h
    · obtain ⟨_, _, _, _, _, -, -, h⟩ := prepareRequest_asked h
      cases h
    · simp only [mem_ofExcept_bind] at h
      obtain ⟨_, -, _, -, _, -, _, -, _, -, _, -, _, -, h⟩ := h
      cases h
  · obtain ⟨_, -, h⟩ := mem_ofExcept_bind.1 h
    obtain h | ⟨_, -, h⟩ := mem_effects_bind.1 h
    · obtain ⟨body', hbody, h⟩ := mem_ofExcept_bind.1 h
      obtain rfl := Effect.sent.inj (List.mem_singleton.1 h)
      exact ⟨signed, encrypted, hencrypt, hbody⟩
    · cases h

theorem length_body {walletGrant : Option (Except Thrown JsValue)} {encrypted : JsValue}
    {body : JsString} {n : ℕ} (hbackend : context.backend = .enclave walletGrant)
    (hbody : operationBody context encrypted = .ok body)
    (hsize : enclaveRequestBytes context encrypted = .ok n) : (textEncode body).length = n := by
  rw [operationBody, hbackend] at hbody
  obtain ⟨bytes, hbytes, hn⟩ := bind_eq_ok.1 hsize
  obtain ⟨text, htext, hlength⟩ := bind_eq_ok.1 hbytes
  obtain rfl := Except.ok.inj (hbody.symm.trans htext)
  rw [hbackend] at hn
  exact (Except.ok.inj hlength).trans (Except.ok.inj hn)

theorem length_forwarded {request : Wallet.OperationExecutor.OperationRequest}
    {client : Wallet.OperationExecutor.ClientGrant} {grant : Option JsValue} {ciphertext bytes : Bytes}
    {n : ℕ} {e : EncryptedRequest} {crypto : Gateway.SigningCrypto} {g : Gateway.WalletGrants}
    {project : Gateway.ProjectId} {descriptor : Protocol.WalletDescriptor} {nowMs : UInt64}
    {walletGrant : WalletGrant} (hbackend : context.backend = .gateway)
    (hunsigned : unsignedRequest c context operation sealedSeed r = .ok (request, client, grant))
    (hsize : enclaveRequestBytes context
      (encryptedRequest context.info (bytesToHex ciphertext) grant) = .ok n)
    (he : IsSent context.info ciphertext e)
    (hissued : Gateway.Issued crypto g project descriptor nowMs walletGrant)
    (hbytes : toVec EncryptedRequest.codec { e with walletGrant := some walletGrant } = some bytes) :
    bytes.length ≤ n := by
  -- A gateway is sent no grant.
  have hgrant : grant = none := by
    simp only [unsignedRequest, bind_eq_ok, pure_eq_ok, Prod.mk.injEq] at hunsigned
    obtain ⟨_, -, _, -, _, -, _, -, _, -, found, hfound, _, -, _, -, _, -, _, -, _, -, -, -, rfl⟩ :=
      hunsigned
    rw [hbackend] at hfound
    exact (Except.ok.inj hfound).symm
  subst hgrant
  obtain ⟨size, hencrypted, hn⟩ := bind_eq_ok.1 hsize
  obtain ⟨-, rfl⟩ := byteLength_eq_ok.1 hencrypted
  rw [hbackend] at hn
  rw [← Except.ok.inj hn, length_toVec hbytes]
  exact size_forwarded he (size_grant hissued)

theorem le_bodyLimit {info : OperationExecutor.ServiceInfo} {n : ℕ}
    (hadvertised : info.maxEncryptedRequestBytes =
      utf16Units (Protocol.encodeDecimalU64 MAX_ENCRYPTED_REQUEST_BYTES))
    (h : checkRequestSize info n = .ok ()) : n ≤ bodyLimit MAX_ENCRYPTED_REQUEST_BYTES := by
  have hlimit : bigInt (utf16Units (Protocol.encodeDecimalU64 MAX_ENCRYPTED_REQUEST_BYTES)) =
      some 262144 := by decide +kernel
  have hbody : bodyLimit MAX_ENCRYPTED_REQUEST_BYTES = 262144 := by decide
  rw [checkRequestSize, hadvertised, hlimit, ofOption_some, ok_bind, refuse_eq_ok] at h
  rw [hbody]
  omega

end Runs

section Sample

/-- A wallet with one client, behind a gateway. -/
def sampleContext : OperationExecutionContext where
  backend := .gateway
  info :=
    { network := utf16Units "devnet"
      releaseId := utf16Units "release-1"
      manifestDigest := []
      executableDigest := []
      quorumPublicKey := bytesToHex (fixtureReceiver.val ++ fixtureReceiver.val)
      quorumKeyId := utf16Units "quorum-1"
      quorumKeyEpoch := utf16Units "1"
      supportedOperations := [utf16Units "Bootstrap"]
      maxEncryptedRequestBytes := utf16Units "262144"
      maxEncryptedResponseBytes := utf16Units "262144" }
  releasePolicyValidFromMs := 0
  releasePolicyExpiresAtMs := 2000
  descriptor :=
    { securityDomainId := []
      network := utf16Units "devnet"
      turnkeyOrganizationId := []
      turnkeyWalletId := []
      address := []
      allowedClients := [⟨bytesToHex fixtureReceiver.val, [utf16Units "Bootstrap"]⟩]
      expiresAtMs := utf16Units "2000"
      provisioningSignature := [] }
  clientKeyId := clientKeyIdFor fixtureCrypto fixtureReceiver.val

theorem length_sampleId : (List.replicate 32 (1 : UInt8)).length = 32 := List.length_replicate

def sampleReadings : Readings Unit where
  aborted := false
  nowMs := 1000
  responseSecret := fixtureEphemeralSecret.val
  requestId := ⟨List.replicate 32 1, length_sampleId⟩
  signature := .ok (List.replicate 64 1)
  abortedSigned := false
  ephemeralSecret := fixtureEphemeralSecret.val
  nonce := List.replicate 12 2
  answer := .error .platform

end Sample

end ZolanaTvc.Wallet
