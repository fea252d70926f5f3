import ZolanaTvc.Wallet.AppProof
import ZolanaTvc.Wallet.Cose

/-!
# Boot proofs

A boot proof is a Nitro attestation of the key that signs an enclave's App Proofs. The client checks it
against the manifests and the measurements that it pins.

## Main results

* `BootProof.verifyBootProof_binds`: what an accepted boot proof says, and that no part of it can be
  another proof's.
-/

namespace ZolanaTvc.Wallet.BootProof

open CborReader Cose Except Json Protocol

def QOS_LIVE_MANIFEST_PCR_COMMITMENT_DOMAIN : String := "qos-live-manifest-pcr-commitment-v1"

def QOS_LIVE_MANIFEST_COMMITMENT_PCR_INDEX : ℕ := 17

def QOS_ATTESTABLE_PCR_COUNT : ℕ := 32

def QOS_EPHEMERAL_PUBLIC_KEY_LENGTH : ℕ := 130

def SHA256_LEN : ℕ := 32

def SHA384_LEN : ℕ := 48

/-- In milliseconds. -/
def MAX_CLOCK_SKEW_MS : ℤ := 60000

section Types

structure TurnkeyBootProofWire where
  ephemeralPublicKeyHex : JsString
  awsAttestationDocB64 : JsString

structure VerifyBootProofInput where
  appProof : TurnkeyAppProofWire
  bootProof : TurnkeyBootProofWire
  allowedManifestSha256 : List JsString
  /-- The pinned PCR0 to PCR3. -/
  expectedPcrs : Fin 4 → JsString
  nowMs : ℤ

structure CoseSign1 where
  protectedHeaders : Bytes
  payload : Bytes
  signature : Bytes

/-- The entries of a map. -/
abbrev AttestationDocument := List (CborKey × CborValue)

structure DecodedBootProof where
  coseSign1 : CoseSign1
  attestation : AttestationDocument
  certificate : Bytes
  cabundle : List Bytes

/-- The platform's and Turnkey's part of a verification. -/
structure Platform where
  /-- How many arguments its engine passes to a call. -/
  maxArguments : ℕ
  sha384 : Bytes → ByteArrayOf 48
  /-- A signature over some bytes verifies by ES384 under the key of a certificate. -/
  verifyEs384 : Bytes → Bytes → Bytes → Bool
  /-- A bundle leads from the pinned root to a certificate, at a time. -/
  verifyCertificateChain : List Bytes → Bytes → ℤ → Bool

end Types

abbrev unverified : Thrown := spr "BootProofUnverified"

section Base64

def base64Value (u : UInt16) : Option ℕ :=
  let n := u.toNat
  if 65 ≤ n ∧ n ≤ 90 then some (n - 65)
  else if 97 ≤ n ∧ n ≤ 122 then some (n - 71)
  else if 48 ≤ n ∧ n ≤ 57 then some (n + 4)
  else if isChar '+' u then some 62
  else if isChar '/' u then some 63
  else none

/-- The bytes that digits of six bits spell. Bits too few for a byte are dropped. -/
def ofSextets : List ℕ → Option Bytes
  | [] => some []
  | [_] => none
  | [a, b] => some [UInt8.ofNat (a * 4 + b / 16)]
  | [a, b, c] => some [UInt8.ofNat (a * 4 + b / 16), UInt8.ofNat (b % 16 * 16 + c / 4)]
  | a :: b :: c :: d :: rest => (ofSextets rest).map fun bytes =>
    UInt8.ofNat (a * 4 + b / 16) :: UInt8.ofNat (b % 16 * 16 + c / 4) ::
      UInt8.ofNat (c % 4 * 64 + d) :: bytes

/-- A text of whole groups without one or two `=` at its end. -/
def withoutPadding (s : JsString) : JsString :=
  if s.length % 4 ≠ 0 then s
  else
    match s.reverse with
    | x :: y :: rest =>
      if isChar '=' x then (if isChar '=' y then rest.reverse else (y :: rest).reverse) else s
    | _ => s

/-- `atob`; `none` is its `InvalidCharacterError`. -/
def atob (s : JsString) : Option Bytes :=
  let s := s.filter fun u => u.toNat ∉ [9, 10, 12, 13, 32]
  ((withoutPadding s).mapM base64Value).bind ofSextets

def decodeBase64 (value : JsString) : Except Thrown Bytes := do
  refuse (value = []) unverified
  ofOption (atob value) unverified

end Base64

section Decoding

def asBytes : Option CborValue → Except Thrown Bytes
  | some (.bytes b) => return b
  | _ => throw unverified

def asText : Option CborValue → Except Thrown JsString
  | some (.string s) => return s
  | _ => throw unverified

def asMap : Option CborValue → Except Thrown AttestationDocument
  | some (.map entries) => return entries
  | _ => throw unverified

def asArray : Option CborValue → Except Thrown (List CborValue)
  | some (.array items) => return items
  | _ => throw unverified

def isNullish : Option CborValue → Bool
  | none | some .null => true
  | _ => false

/-- An entry of a document under a text. -/
def entry (attestation : AttestationDocument) (name : String) : Option CborValue :=
  attestation.lookup (.string (utf16Units name))

/-- `Number.isSafeInteger` of a value, with the integer. -/
def asSafeInteger : Option CborValue → Option ℤ
  | some (.number (.finite x)) =>
    if x.value.den = 1 ∧ |x.value.num| ≤ MAX_SAFE_INTEGER then some x.value.num else none
  | _ => none

def decodeBootProof (bootProof : TurnkeyBootProofWire) : Except Thrown DecodedBootProof := do
  let document ← decodeBase64 bootProof.awsAttestationDocB64
  let decodedCose ← expect (decodeCbor document) .platform
  let items ← asArray decodedCose
  refuse (items.length ≠ 4) unverified
  let protectedHeaders ← asBytes items[0]?
  let payload ← asBytes items[2]?
  let signature ← asBytes items[3]?
  let decoded ← expect (decodeAwsNitroAttestationCbor payload) .platform
  let attestation ← asMap decoded
  let certificate ← asBytes (entry attestation "certificate")
  let cabundle ← asArray (entry attestation "cabundle")
  refuse (cabundle = []) unverified
  let cabundle ← cabundle.mapM fun certificate => asBytes (some certificate)
  return ⟨⟨protectedHeaders, payload, signature⟩, attestation, certificate, cabundle⟩

def decodeFixedLowerHex (value : JsString) (length : ℕ) : Except Thrown Bytes := do
  let bytes ← decodeLowerHex value
  refuse (bytes.length ≠ length) unverified
  return bytes

def getPcr (attestation : AttestationDocument) (index : ℕ) : Except Thrown Bytes := do
  let pcrs ← asMap (entry attestation "pcrs")
  let bytes ← asBytes (pcrs.lookup (.number (toNumber index)))
  refuse (bytes.length ≠ SHA384_LEN) unverified
  return bytes

end Decoding

section Checks

variable (c : Crypto) (platform : Platform)

def verifyTvcAppProof (appProof : TurnkeyAppProofWire) : Except Thrown Unit := do
  refuse (appProof.scheme ≠ utf16Units TVC_APP_PROOF_SCHEME ∨ isRfc8785 appProof.proofPayload = false)
    unverified
  let publicKey ← decodeLowerHex appProof.publicKey
  let signature ← decodeLowerHex appProof.signature
  let qosPublic ← parseQosP256Public c publicKey
  verifyP256Message c qosPublic.signing (textEncode appProof.proofPayload) signature

def validateAttestationShape (attestation : AttestationDocument) : Except Thrown Unit := do
  let moduleId ← asText (entry attestation "module_id")
  refuse (moduleId = []) unverified
  let digest ← asText (entry attestation "digest")
  refuse (digest ≠ utf16Units "SHA384") unverified
  let timestamp ← ofOption (asSafeInteger (entry attestation "timestamp")) unverified
  refuse (timestamp ≤ 0) unverified
  refuse (isNullish (entry attestation "nonce") = false) unverified
  let pcrs ← asMap (entry attestation "pcrs")
  refuse (pcrs.length ≠ QOS_ATTESTABLE_PCR_COUNT) unverified
  (List.range QOS_ATTESTABLE_PCR_COUNT).forM fun index => discard (getPcr attestation index)

def assertAttestationFreshness (attestation : AttestationDocument) (nowMs : ℤ) :
    Except Thrown Unit := do
  refuse (nowMs ≤ 0 ∨ nowMs > MAX_SAFE_INTEGER) unverified
  let timestamp ← ofOption (asSafeInteger (entry attestation "timestamp")) .platform
  refuse (timestamp > nowMs + MAX_CLOCK_SKEW_MS) unverified

/-- What the commitment hashes. -/
def commitmentPreimage (manifestDigest ephemeralPublicKey : Bytes) : String :=
  "\x7b\"domain\":\"" ++ QOS_LIVE_MANIFEST_PCR_COMMITMENT_DOMAIN ++ "\",\"ephemeralPublicKey\":\"" ++
    Protocol.encodeLowerHex ephemeralPublicKey ++ "\",\"manifestHash\":\"" ++
    Protocol.encodeLowerHex manifestDigest ++ "\"\x7d"

def computeQosLiveManifestCommitmentPcr (manifestDigest ephemeralPublicKey : Bytes) :
    Except Thrown Bytes := do
  refuse (manifestDigest.length ≠ SHA256_LEN) unverified
  refuse (ephemeralPublicKey.length ≠ QOS_EPHEMERAL_PUBLIC_KEY_LENGTH) unverified
  let commitment := platform.sha384 (utf8 (commitmentPreimage manifestDigest ephemeralPublicKey))
  return (platform.sha384 (List.replicate SHA384_LEN 0 ++ commitment.val)).val

def verifyProofBindings (input : VerifyBootProofInput) (attestation : AttestationDocument) :
    Except Thrown Unit := do
  refuse (input.allowedManifestSha256 = []) unverified
  let allowed ← input.allowedManifestSha256.mapM fun value => decodeFixedLowerHex value SHA256_LEN
  let manifestDigest ← asBytes (entry attestation "user_data")
  refuse (manifestDigest.length ≠ SHA256_LEN ∨ manifestDigest ∉ allowed) unverified
  let attestedPublicKey ← asBytes (entry attestation "public_key")
  refuse (attestedPublicKey.length ≠ QOS_EPHEMERAL_PUBLIC_KEY_LENGTH) unverified
  let appPublicKey ← decodeFixedLowerHex input.appProof.publicKey QOS_EPHEMERAL_PUBLIC_KEY_LENGTH
  let bootPublicKey ← decodeFixedLowerHex input.bootProof.ephemeralPublicKeyHex
    QOS_EPHEMERAL_PUBLIC_KEY_LENGTH
  -- One key in three places: it signed the proof, it was looked up, and it was attested.
  refuse (appPublicKey ≠ bootPublicKey ∨ bootPublicKey ≠ attestedPublicKey) unverified
  (List.finRange 4).forM fun index => do
    let expected ← decodeFixedLowerHex (input.expectedPcrs index) SHA384_LEN
    let pcr ← getPcr attestation index
    refuse (expected ≠ pcr) unverified
  let expectedLivePcr ← computeQosLiveManifestCommitmentPcr platform manifestDigest attestedPublicKey
  let livePcr ← getPcr attestation QOS_LIVE_MANIFEST_COMMITMENT_PCR_INDEX
  refuse (expectedLivePcr ≠ livePcr) unverified

def verifyTurnkeyAwsAttestation (coseSign1 : CoseSign1) (certificate : Bytes)
    (cabundle : List Bytes) (timestampMs : ℤ) : Except Thrown Unit := do
  let tbs ← expect (encodeCoseSigStructure platform.maxArguments coseSign1.protectedHeaders []
    coseSign1.payload) .platform
  refuse (platform.verifyEs384 certificate tbs coseSign1.signature = false) .platform
  refuse (platform.verifyCertificateChain cabundle certificate timestampMs = false) .platform

/-- The checks, each error with the stage it is reported at. -/
def verifyStages (input : VerifyBootProofInput) : Except String Unit := do
  expect (verifyTvcAppProof c input.appProof) "app-proof"
  let decoded ← expect (decodeBootProof input.bootProof) "decode"
  expect (validateAttestationShape decoded.attestation) "shape"
  expect (assertAttestationFreshness decoded.attestation input.nowMs) "timestamp"
  expect (verifyProofBindings platform input decoded.attestation) "bindings"
  expect (verifyTurnkeyAwsAttestation platform decoded.coseSign1 decoded.certificate decoded.cabundle
    input.nowMs) "aws-chain"

def verifyBootProof (input : VerifyBootProofInput) : Except Thrown Unit :=
  expect (verifyStages c platform input) unverified

end Checks

section Facts

variable {c : Crypto} {platform : Platform} {attestation : AttestationDocument} {index : ℕ}
  {value : Option CborValue}

theorem asBytes_eq_ok {b : Bytes} : asBytes value = .ok b ↔ value = some (.bytes b) := by
  unfold asBytes
  split
  · simp
  · next hbytes => simpa using hbytes b

theorem asMap_eq_ok {entries : AttestationDocument} :
    asMap value = .ok entries ↔ value = some (.map entries) := by
  unfold asMap
  split
  · simp
  · next hmap => simpa using hmap entries

theorem asArray_eq_ok {items : List CborValue} :
    asArray value = .ok items ↔ value = some (.array items) := by
  unfold asArray
  split
  · simp
  · next harray => simpa using harray items

theorem decodeFixedLowerHex_eq_ok {text : JsString} {n : ℕ} {b : Bytes} :
    decodeFixedLowerHex text n = .ok b ↔ decodeLowerHex text = .ok b ∧ b.length = n := by
  simp only [decodeFixedLowerHex, bind_eq_ok, refuse_eq_ok, exists_const, pure_eq_ok, not_not]
  constructor
  · rintro ⟨_, hdecode, hlength, rfl⟩
    exact ⟨hdecode, hlength⟩
  · rintro ⟨hdecode, hlength⟩
    exact ⟨b, hdecode, hlength, rfl⟩

theorem getPcr_eq_ok {b : Bytes} : getPcr attestation index = .ok b ↔
    ∃ pcrs, entry attestation "pcrs" = some (.map pcrs) ∧
      pcrs.lookup (.number (toNumber index)) = some (.bytes b) ∧ b.length = SHA384_LEN := by
  simp only [getPcr, bind_eq_ok, asMap_eq_ok, asBytes_eq_ok, refuse_eq_ok, exists_const, pure_eq_ok,
    not_not]
  constructor
  · rintro ⟨pcrs, hpcrs, _, hb, hlength, rfl⟩
    exact ⟨pcrs, hpcrs, hb, hlength⟩
  · rintro ⟨pcrs, hpcrs, hb, hlength⟩
    exact ⟨pcrs, hpcrs, b, hb, hlength, rfl⟩

/-- What a client knows of a boot proof that it accepted: its key, its manifest and its measurements. -/
structure Bound (c : Crypto) (platform : Platform) (input : VerifyBootProofInput)
    (boot : DecodedBootProof) (key manifest : Bytes) (pcr : ℕ → Bytes) : Prop where
  decoded : decodeBootProof input.bootProof = .ok boot
  keyLength : key.length = QOS_EPHEMERAL_PUBLIC_KEY_LENGTH
  appKey : decodeLowerHex input.appProof.publicKey = .ok key
  bootKey : decodeLowerHex input.bootProof.ephemeralPublicKeyHex = .ok key
  attestedKey : entry boot.attestation "public_key" = some (.bytes key)
  scheme : input.appProof.scheme = utf16Units TVC_APP_PROOF_SCHEME
  canonical : isRfc8785 input.appProof.proofPayload = true
  signature : ∃ signature, decodeLowerHex input.appProof.signature = .ok signature ∧
    c.Verifies (key.drop SEC1_UNCOMPRESSED_LEN) (c.sha256 (textEncode input.appProof.proofPayload))
      signature
  userData : entry boot.attestation "user_data" = some (.bytes manifest)
  userDataLength : manifest.length = SHA256_LEN
  allowed : ∃ text ∈ input.allowedManifestSha256, decodeLowerHex text = .ok manifest
  pcrs : ∃ entries, entry boot.attestation "pcrs" = some (.map entries) ∧
    entries.length = QOS_ATTESTABLE_PCR_COUNT ∧ ∀ index < QOS_ATTESTABLE_PCR_COUNT,
      entries.lookup (.number (toNumber index)) = some (.bytes (pcr index)) ∧
        (pcr index).length = SHA384_LEN
  identity : ∀ index, decodeLowerHex (input.expectedPcrs index) = .ok (pcr index)
  live : computeQosLiveManifestCommitmentPcr platform manifest key =
    .ok (pcr QOS_LIVE_MANIFEST_COMMITMENT_PCR_INDEX)
  nonce : isNullish (entry boot.attestation "nonce") = true
  clock : 0 < input.nowMs ∧ input.nowMs ≤ MAX_SAFE_INTEGER
  timestamp : ∃ timestamp, asSafeInteger (entry boot.attestation "timestamp") = some timestamp ∧
    0 < timestamp ∧ timestamp ≤ input.nowMs + MAX_CLOCK_SKEW_MS
  payload : decodeAwsNitroAttestationCbor boot.coseSign1.payload = .ok (.map boot.attestation)
  cose : ∃ tbs, encodeCoseSigStructure platform.maxArguments boot.coseSign1.protectedHeaders []
      boot.coseSign1.payload = .ok tbs ∧
    platform.verifyEs384 boot.certificate tbs boot.coseSign1.signature = true
  certificate : entry boot.attestation "certificate" = some (.bytes boot.certificate)
  chain : platform.verifyCertificateChain boot.cabundle boot.certificate input.nowMs = true

theorem decodeBootProof_eq_ok {bootProof : TurnkeyBootProofWire} {decoded : DecodedBootProof}
    (h : decodeBootProof bootProof = .ok decoded) :
    decodeAwsNitroAttestationCbor decoded.coseSign1.payload = .ok (.map decoded.attestation) ∧
      entry decoded.attestation "certificate" = some (.bytes decoded.certificate) := by
  simp only [decodeBootProof, bind_eq_ok, expect_eq_ok, asMap_eq_ok, asBytes_eq_ok, asArray_eq_ok,
    refuse_eq_ok, exists_const, pure_eq_ok] at h
  obtain ⟨_, -, _, -, items, -, -, _, -, _, hpayload, _, -, _, hdecoded, attestation, hmap,
    certificate, hcertificate, _, -, -, _, -, rfl⟩ := h
  obtain rfl := Option.some.inj hmap
  exact ⟨hdecoded, hcertificate⟩

theorem verifyTvcAppProof_eq_ok {appProof : TurnkeyAppProofWire} {u : Unit}
    (h : verifyTvcAppProof c appProof = .ok u) :
    appProof.scheme = utf16Units TVC_APP_PROOF_SCHEME ∧ isRfc8785 appProof.proofPayload = true ∧
      ∃ key signature, decodeLowerHex appProof.publicKey = .ok key ∧
        decodeLowerHex appProof.signature = .ok signature ∧
        c.Verifies (key.drop SEC1_UNCOMPRESSED_LEN) (c.sha256 (textEncode appProof.proofPayload))
          signature := by
  simp only [verifyTvcAppProof, bind_eq_ok, refuse_eq_ok, exists_const, not_or, not_not,
    Bool.not_eq_false, ne_eq] at h
  obtain ⟨⟨hscheme, hcanonical⟩, key, hkey, signature, hsignature, parsed, hparsed, hverify⟩ := h
  rw [verifyP256Message, verifyP256Prehash_eq_ok, (parseQosP256Public_eq_ok hparsed).2] at hverify
  exact ⟨hscheme, hcanonical, key, signature, hkey, hsignature, hverify⟩

theorem validateAttestationShape_eq_ok {u : Unit}
    (h : validateAttestationShape attestation = .ok u) :
    (∃ timestamp, asSafeInteger (entry attestation "timestamp") = some timestamp ∧ 0 < timestamp) ∧
    isNullish (entry attestation "nonce") = true ∧
    ∃ entries, entry attestation "pcrs" = some (.map entries) ∧
      entries.length = QOS_ATTESTABLE_PCR_COUNT ∧ ∀ index < QOS_ATTESTABLE_PCR_COUNT, ∃ pcr,
        entries.lookup (.number (toNumber index)) = some (.bytes pcr) ∧ pcr.length = SHA384_LEN := by
  simp only [validateAttestationShape, bind_eq_ok, refuse_eq_ok, exists_const, not_not,
    ofOption_eq_ok, asMap_eq_ok, Bool.not_eq_false, not_le, forM_eq_ok, List.mem_range] at h
  obtain ⟨_, -, -, _, -, -, timestamp, htimestamp, hpos, hnonce, entries, hentries, hcount, hpcrs⟩ := h
  refine ⟨⟨timestamp, htimestamp, hpos⟩, hnonce, entries, hentries, hcount, fun index hindex => ?_⟩
  cases hpcr : getPcr attestation index with
  | error thrown =>
    have herror := hpcrs index hindex
    rw [hpcr] at herror
    cases herror
  | ok pcr =>
    obtain ⟨entries', hentries', hpcr, hlength⟩ := getPcr_eq_ok.1 hpcr
    obtain rfl := CborValue.map.inj (Option.some.inj (hentries.symm.trans hentries'))
    exact ⟨pcr, hpcr, hlength⟩

theorem verifyProofBindings_eq_ok {input : VerifyBootProofInput} {u : Unit}
    (h : verifyProofBindings platform input attestation = .ok u) : ∃ key manifest,
      entry attestation "user_data" = some (.bytes manifest) ∧ manifest.length = SHA256_LEN ∧
      (∃ text ∈ input.allowedManifestSha256, decodeLowerHex text = .ok manifest) ∧
      entry attestation "public_key" = some (.bytes key) ∧
      key.length = QOS_EPHEMERAL_PUBLIC_KEY_LENGTH ∧
      decodeLowerHex input.appProof.publicKey = .ok key ∧
      decodeLowerHex input.bootProof.ephemeralPublicKeyHex = .ok key ∧
      (∀ index, ∃ pcr, decodeLowerHex (input.expectedPcrs index) = .ok pcr ∧
        getPcr attestation index.val = .ok pcr) ∧
      ∃ pcr, computeQosLiveManifestCommitmentPcr platform manifest key = .ok pcr ∧
        getPcr attestation QOS_LIVE_MANIFEST_COMMITMENT_PCR_INDEX = .ok pcr := by
  simp only [verifyProofBindings, bind_eq_ok, refuse_eq_ok, exists_const, not_or, not_not,
    decodeFixedLowerHex_eq_ok, asBytes_eq_ok, mapM_eq_ok, forM_eq_ok, ne_eq] at h
  obtain ⟨-, allowed, hallowed, manifest, hmanifest, ⟨hlength, hmem⟩, key, hkey, hkeyLength, _,
    ⟨happ, -⟩, _, ⟨hboot, -⟩, ⟨rfl, rfl⟩, hidentity, live, hlive, _, hpcr, rfl⟩ := h
  refine ⟨_, manifest, hmanifest, hlength, ?_, hkey, hkeyLength, happ, hboot, fun index => ?_, live,
    hlive, hpcr⟩
  · obtain ⟨i, hi, rfl⟩ := List.getElem_of_mem hmem
    have hi' : i < input.allowedManifestSha256.length := hallowed.length_eq ▸ hi
    exact ⟨_, List.getElem_mem hi', (hallowed.get hi' hi).1⟩
  · obtain ⟨pcr, ⟨hexpected, -⟩, _, hpcr, rfl⟩ := hidentity index (List.mem_finRange index)
    exact ⟨pcr, hexpected, hpcr⟩

theorem bound_of_verifyBootProof {input : VerifyBootProofInput}
    (h : verifyBootProof c platform input = .ok ()) :
    ∃ boot key manifest pcr, Bound c platform input boot key manifest pcr := by
  simp only [verifyBootProof, verifyStages, expect_eq_ok, bind_eq_ok] at h
  -- Six stages, each with its own lemma; what is left is to join what they say of one document.
  obtain ⟨_, happ, boot, hdecoded, _, hshape, _, hclock, _, hbindings, haws⟩ := h
  obtain ⟨hscheme, hcanonical, key', signature, hkey', hsignature, hverifies⟩ :=
    verifyTvcAppProof_eq_ok happ
  obtain ⟨⟨timestamp, htimestamp, hpos⟩, hnonce, entries, hentries, hcount, hpcrs⟩ :=
    validateAttestationShape_eq_ok hshape
  obtain ⟨key, manifest, hmanifest, hmanifestLength, hallowed, hattested, hkeyLength, hkey, hboot,
    hidentity, live, hlive, hlivePcr⟩ := verifyProofBindings_eq_ok hbindings
  obtain ⟨hpayload, hcertificate⟩ := decodeBootProof_eq_ok hdecoded
  -- The first and the fifth stage read the key from the same text.
  obtain rfl := Except.ok.inj (hkey'.symm.trans hkey)
  choose! pcr hpcr hpcrLength using hpcrs
  -- The register that a binding reads is the one whose shape was checked.
  have hgetPcr : ∀ index < QOS_ATTESTABLE_PCR_COUNT, ∀ b, getPcr boot.attestation index = .ok b →
      pcr index = b := by
    intro index hindex b hb
    obtain ⟨entries', hentries', hb, -⟩ := getPcr_eq_ok.1 hb
    obtain rfl := CborValue.map.inj (Option.some.inj (hentries.symm.trans hentries'))
    exact CborValue.bytes.inj (Option.some.inj ((hpcr index hindex).symm.trans hb))
  simp only [assertAttestationFreshness, bind_eq_ok, refuse_eq_ok, exists_const, ofOption_eq_ok,
    htimestamp, Option.some.injEq, exists_eq_left', not_or, not_le, not_lt, gt_iff_lt] at hclock
  simp only [verifyTurnkeyAwsAttestation, bind_eq_ok, expect_eq_ok, refuse_eq_ok, exists_const,
    Bool.not_eq_false] at haws
  obtain ⟨tbs, htbs, hes384, hchain⟩ := haws
  exact ⟨boot, key', manifest, pcr,
    { decoded := hdecoded
      keyLength := hkeyLength
      appKey := hkey
      bootKey := hboot
      attestedKey := hattested
      scheme := hscheme
      canonical := hcanonical
      signature := ⟨signature, hsignature, hverifies⟩
      userData := hmanifest
      userDataLength := hmanifestLength
      allowed := hallowed
      pcrs := ⟨entries, hentries, hcount, fun index hindex =>
        ⟨hpcr index hindex, hpcrLength index hindex⟩⟩
      identity := fun index => by
        obtain ⟨b, hexpected, hb⟩ := hidentity index
        rw [hexpected, hgetPcr index.val (Nat.lt_of_lt_of_le index.isLt (by decide)) b hb]
      live := by rw [hlive, hgetPcr _ (by decide) live hlivePcr]
      nonce := hnonce
      clock := hclock.1
      timestamp := ⟨timestamp, htimestamp, hpos, hclock.2⟩
      payload := hpayload
      cose := ⟨tbs, htbs, hes384⟩
      certificate := hcertificate
      chain := hchain }⟩

end Facts

section Binding

variable {c : Crypto} {platform : Platform} {input input' : VerifyBootProofInput}

/-- What two boot proofs may differ in. -/
inductive Part where
  | appKey
  | bootKey
  | attestedKey
  | userData
  | identityPcr (index : Fin 4)
  | livePcr

/-- What a check reads of the attestation. -/
def ofAttestation (input : VerifyBootProofInput) (read : AttestationDocument → Except Thrown Bytes) :
    Option Bytes :=
  (decodeBootProof input.bootProof).toOption.bind fun decoded => (read decoded.attestation).toOption

def part (input : VerifyBootProofInput) : Part → Option Bytes
  | .appKey => (decodeLowerHex input.appProof.publicKey).toOption
  | .bootKey => (decodeLowerHex input.bootProof.ephemeralPublicKeyHex).toOption
  | .attestedKey => ofAttestation input fun attestation => asBytes (entry attestation "public_key")
  | .userData => ofAttestation input fun attestation => asBytes (entry attestation "user_data")
  | .identityPcr index => ofAttestation input fun attestation => getPcr attestation index
  | .livePcr =>
    ofAttestation input fun attestation => getPcr attestation QOS_LIVE_MANIFEST_COMMITMENT_PCR_INDEX

/-- The parts of a proof of a key, a manifest and some measurements. -/
def partOf (key manifest : Bytes) (pcr : ℕ → Bytes) : Part → Bytes
  | .appKey | .bootKey | .attestedKey => key
  | .userData => manifest
  | .identityPcr index => pcr index
  | .livePcr => pcr QOS_LIVE_MANIFEST_COMMITMENT_PCR_INDEX

/-- What the commitment over a manifest and a key hashes. -/
def hashed (platform : Platform) (manifest key : Bytes) : List Bytes :=
  let preimage := utf8 (commitmentPreimage manifest key)
  [preimage, List.replicate SHA384_LEN 0 ++ (platform.sha384 preimage).val]

/-- SHA-384 tells apart what the commitments of two boot proofs hash. -/
def NoCollision (platform : Platform) (input input' : VerifyBootProofInput) : Prop :=
  ∀ manifest key manifest' key', part input .userData = some manifest →
    part input .attestedKey = some key → part input' .userData = some manifest' →
    part input' .attestedKey = some key' → ∀ x ∈ hashed platform manifest key,
      ∀ y ∈ hashed platform manifest' key', platform.sha384 x = platform.sha384 y → x = y

/-- Two boot proofs agree in all parts but one. -/
def OnePartReplaced (input input' : VerifyBootProofInput) : Prop :=
  ∃ replaced, ∀ other, other ≠ replaced → part input other = part input' other

theorem hexEncode_inj {a b : Bytes} (h : hexEncode a = hexEncode b) : a = b := by
  have hdecode := congrArg hexDecode h
  rw [hexDecode_hexEncode, hexDecode_hexEncode] at hdecode
  exact Option.some.inj hdecode

/-- The preimage tells the manifest and the key. -/
theorem commitmentPreimage_inj {manifest manifest' key key' : Bytes}
    (hlength : key.length = key'.length)
    (h : commitmentPreimage manifest key = commitmentPreimage manifest' key') :
    manifest = manifest' ∧ key = key' := by
  have hchars := congrArg String.toList h
  simp only [commitmentPreimage, String.toList_append, List.append_assoc, List.append_cancel_left_eq,
    Protocol.encodeLowerHex, String.toList_ofList] at hchars
  have hcount : ∀ b : Bytes, (hexEncode b).length = b.length * 2 := fun b => by
    rw [hexEncode, List.length_flatMap]
    simp [hexPair]
  obtain ⟨hkey, hrest⟩ := List.append_inj hchars (by rw [hcount, hcount, hlength])
  have hmanifest := List.append_cancel_right (List.append_cancel_left hrest)
  exact ⟨hexEncode_inj hmanifest, hexEncode_inj hkey⟩

section Parts

variable {boot boot' : DecodedBootProof} {key key' manifest manifest' : Bytes} {pcr pcr' : ℕ → Bytes}

theorem ofAttestation_of_bound (h : Bound c platform input boot key manifest pcr)
    (read : AttestationDocument → Except Thrown Bytes) :
    ofAttestation input read = (read boot.attestation).toOption := by
  rw [ofAttestation, h.decoded]
  rfl

theorem part_of_bound (h : Bound c platform input boot key manifest pcr) (p : Part) :
    part input p = some (partOf key manifest pcr p) := by
  have hread : ∀ read b, read boot.attestation = .ok b → ofAttestation input read = some b := by
    intro read b hb
    rw [ofAttestation_of_bound h, hb]
    rfl
  have hpcr : ∀ index < QOS_ATTESTABLE_PCR_COUNT, getPcr boot.attestation index = .ok (pcr index) := by
    obtain ⟨entries, hentries, -, hpcrs⟩ := h.pcrs
    exact fun index hindex => getPcr_eq_ok.2 ⟨entries, hentries, hpcrs index hindex⟩
  -- Each part is read from where the verifier read it.
  cases p with
  | appKey => rw [part, h.appKey]; rfl
  | bootKey => rw [part, h.bootKey]; rfl
  | attestedKey =>
    rw [part]
    refine hread _ _ ?_
    exact asBytes_eq_ok.2 h.attestedKey
  | userData =>
    rw [part]
    refine hread _ _ ?_
    exact asBytes_eq_ok.2 h.userData
  | identityPcr index =>
    rw [part]
    refine hread _ _ ?_
    exact hpcr index (Nat.lt_of_lt_of_le index.isLt (by decide))
  | livePcr =>
    rw [part]
    refine hread _ _ ?_
    exact hpcr _ (by decide)

/-- A commitment tells its manifest and its key, unless SHA-384 collides. -/
theorem commitment_inj {live : Bytes}
    (hpcr : computeQosLiveManifestCommitmentPcr platform manifest key = .ok live)
    (hpcr' : computeQosLiveManifestCommitmentPcr platform manifest' key' = .ok live)
    (hcollision : ∀ x ∈ hashed platform manifest key, ∀ y ∈ hashed platform manifest' key',
      platform.sha384 x = platform.sha384 y → x = y) : manifest = manifest' ∧ key = key' := by
  simp only [computeQosLiveManifestCommitmentPcr, bind_eq_ok, refuse_eq_ok, exists_const, not_not,
    pure_eq_ok] at hpcr hpcr'
  obtain ⟨-, hkey, hlive⟩ := hpcr
  obtain ⟨-, hkey', hlive'⟩ := hpcr'
  have hextension := hcollision _ (by simp [hashed]) _ (by simp [hashed])
    (Subtype.ext (hlive.trans hlive'.symm))
  have hcommitment := Subtype.ext (List.append_cancel_left hextension)
  have hpreimage := hcollision _ (by simp [hashed]) _ (by simp [hashed]) hcommitment
  exact commitmentPreimage_inj (hkey.trans hkey'.symm) (utf8_injective hpreimage)

/-- Accepted boot proofs that agree in all parts but one agree in that too. -/
theorem part_eq_of_onePartReplaced (h : Bound c platform input boot key manifest pcr)
    (h' : Bound c platform input' boot' key' manifest' pcr')
    (hpinned : input.expectedPcrs = input'.expectedPcrs)
    (hcollision : NoCollision platform input input') (hreplaced : OnePartReplaced input input')
    (p : Part) : part input p = part input' p := by
  -- What is not replaced is equal; what is replaced is pinned by something that is not.
  obtain ⟨replaced, hsame⟩ := hreplaced
  have hpart : ∀ q, q ≠ replaced → partOf key manifest pcr q = partOf key' manifest' pcr' q := by
    intro q hq
    exact Option.some.inj ((part_of_bound h q).symm.trans ((hsame q hq).trans (part_of_bound h' q)))
  -- One of two keys is not replaced.
  have hkey : key = key' := by
    by_cases happ : Part.appKey = replaced
    · exact hpart .bootKey (happ ▸ by simp)
    · exact hpart .appKey happ
  have hmanifest : manifest = manifest' := by
    -- If the manifest is the part replaced, the live register commits to it.
    by_cases huser : Part.userData = replaced
    · have hlive : pcr QOS_LIVE_MANIFEST_COMMITMENT_PCR_INDEX = pcr' _ :=
        hpart .livePcr (huser ▸ by simp)
      refine (commitment_inj h.live (hlive ▸ h'.live) ?_).1
      exact hcollision _ _ _ _ (part_of_bound h .userData) (part_of_bound h .attestedKey)
        (part_of_bound h' .userData) (part_of_bound h' .attestedKey)
    · exact hpart .userData huser
  rw [part_of_bound h, part_of_bound h']
  subst hkey hmanifest
  cases p with
  | identityPcr index =>
    have hidentity := (h.identity index).symm.trans (hpinned ▸ h'.identity index)
    exact congrArg some (Except.ok.inj hidentity)
  | livePcr => exact congrArg some (Except.ok.inj (h.live.symm.trans h'.live))
  | _ => rfl

end Parts

/-- An accepted boot proof binds one key, one manifest and the pinned measurements, and none of these can
be another proof's. -/
theorem verifyBootProof_binds (c : Crypto) (platform : Platform) :
    (∀ input, verifyBootProof c platform input = .ok () →
      ∃ boot key manifest pcr, Bound c platform input boot key manifest pcr) ∧
    (∀ manifest manifest' key key' : Bytes, key.length = key'.length →
      commitmentPreimage manifest key = commitmentPreimage manifest' key' →
        manifest = manifest' ∧ key = key') ∧
    (∀ headers payload headers' payload' tbs,
      encodeCoseSigStructure platform.maxArguments headers [] payload = .ok tbs →
        encodeCoseSigStructure platform.maxArguments headers' [] payload' = .ok tbs →
          headers = headers' ∧ payload = payload') ∧
    ∀ input input', verifyBootProof c platform input = .ok () →
      verifyBootProof c platform input' = .ok () → input.expectedPcrs = input'.expectedPcrs →
        NoCollision platform input input' → OnePartReplaced input input' →
          ∀ p, part input p = part input' p := by
  refine ⟨fun _ => bound_of_verifyBootProof, fun _ _ _ _ => commitmentPreimage_inj,
    fun headers payload headers' payload' tbs h h' => ?_, ?_⟩
  · obtain ⟨hheaders, -, hpayload⟩ := encodeCoseSigStructure_inj h h'
    exact ⟨hheaders, hpayload⟩
  intro input input' h h' hpinned hcollision hreplaced
  obtain ⟨_, _, _, _, hbound⟩ := bound_of_verifyBootProof h
  obtain ⟨_, _, _, _, hbound'⟩ := bound_of_verifyBootProof h'
  exact part_eq_of_onePartReplaced hbound hbound' hpinned hcollision hreplaced

end Binding

end ZolanaTvc.Wallet.BootProof
