import ZolanaTvc.Enclave.Authorization
import ZolanaTvc.Gateway.Enrollment
import ZolanaTvc.Gateway.Record

/-!
# What the gateway issues, the enclave accepts

The gateway checks an enrollment before it signs a descriptor, and the enclave checks the descriptor of
every request. Each has its own checks of the texts.

## Main results

* `isCanonicalUuid_enclave`: a UUID that the gateway accepts is one for the enclave.
* `issued_accepted`: a descriptor and the grants for it are refused for their age alone.
-/

namespace ZolanaTvc.EndToEnd

open Protocol Gateway Except

section Uuid

variable {value : String} {cs : List Char}

/-- A digit of lowercase hex. -/
def HexDigit (ch : Char) : Prop := '0' ≤ ch ∧ ch ≤ '9' ∨ 'a' ≤ ch ∧ ch ≤ 'f'

/-- Where a UUID has its hyphens. -/
def hyphens : List ℕ := [8, 13, 18, 23]

/-- The characters of a UUID in the canonical form. -/
structure UuidChars (cs : List Char) : Prop where
  length : cs.length = 36
  hyphen : ∀ i ∈ hyphens, cs[i]? = some '-'
  digit : ∀ i ch, cs[i]? = some ch → i ∉ hyphens → HexDigit ch

theorem toNat_le_toNat {ch ch' : Char} : ch ≤ ch' ↔ ch.toNat ≤ ch'.toNat := Iff.rfl

/-- What the gateway accepts is ASCII. -/
theorem uuidChars_of_gateway (h : Gateway.isCanonicalUuid value = true) : UuidChars value.toList := by
  simp only [Gateway.isCanonicalUuid, Bool.and_eq_true, decide_eq_true_eq, List.length_map,
    List.all_eq_true] at h
  obtain ⟨hlength, hall⟩ := h
  -- The gateway looks at bytes with their positions.
  have hbyte : ∀ i byte, (utf8 value)[i]? = some byte → (i ∈ hyphens → byte.toNat = 45) ∧
      (i ∉ hyphens → 48 ≤ byte.toNat ∧ byte.toNat ≤ 57 ∨ 97 ≤ byte.toNat ∧ byte.toNat ≤ 102) := by
    intro i byte hi
    have hmem : (byte.toNat, i) ∈ ((utf8 value).map UInt8.toNat).zipIdx :=
      List.mk_mem_zipIdx_iff_getElem?.2 (by rw [List.getElem?_map, hi]; rfl)
    have hchecked := hall _ hmem
    dsimp only at hchecked
    refine ⟨fun hi : i ∈ [8, 13, 18, 23] => ?_, fun hi : i ∉ [8, 13, 18, 23] => ?_⟩
    · rw [if_pos hi] at hchecked
      exact of_decide_eq_true hchecked
    · rw [if_neg hi] at hchecked
      exact of_decide_eq_true hchecked
  -- All of them are ASCII, so that bytes and characters are in step.
  have hascii : ∀ byte ∈ utf8 value, byte < 128 := by
    intro byte hmem
    obtain ⟨i, hi⟩ := List.mem_iff_getElem?.1 hmem
    obtain ⟨hdash, hdigit⟩ := hbyte i byte hi
    rw [UInt8.lt_iff_toNat_lt]
    show byte.toNat < 128
    by_cases hi : i ∈ hyphens
    · rw [hdash hi]
      decide
    · have hrange := hdigit hi
      omega
  have hchars : value.toList = (utf8 value).map asciiChar := by
    have hvalue : String.ofList ((utf8 value).map asciiChar) = value :=
      utf8_injective (utf8_asciiChars hascii)
    conv_lhs => rw [← hvalue, String.toList_ofList]
  rw [hchars]
  refine ⟨by rw [List.length_map, hlength], fun i hi => ?_, fun i ch hch hi => ?_⟩
  · have hlt : i < (utf8 value).length := by
      rw [hlength]
      simp only [hyphens, List.mem_cons, List.not_mem_nil, or_false] at hi
      omega
    have hget : (utf8 value)[i]? = some (utf8 value)[i] := List.getElem?_eq_getElem hlt
    rw [List.getElem?_map, hget, Option.map_some, asciiChar, (hbyte i _ hget).1 hi]
  · rw [List.getElem?_map] at hch
    obtain ⟨byte, hget, rfl⟩ := Option.map_eq_some_iff.1 hch
    have hnat : (asciiChar byte).toNat = byte.toNat :=
      toNat_asciiChar ⟨byte.toNat, hascii byte (List.mem_of_getElem? hget)⟩
    simp only [HexDigit, toNat_le_toNat, hnat]
    exact (hbyte i byte hget).2 hi

theorem take_append_drop_of_getElem? {n : ℕ} {ch : Char} (h : cs[n]? = some ch) :
    cs = cs.take n ++ ch :: cs.drop (n + 1) := by
  obtain ⟨hlt, rfl⟩ := List.getElem?_eq_some_iff.1 h
  rw [← List.drop_eq_getElem_cons hlt, List.take_append_drop]

/-- Between two hyphens there are digits. -/
theorem UuidChars.group (h : UuidChars cs) {start n : ℕ}
    (between : ∀ i, start ≤ i → i < start + n → i ∉ hyphens) :
    ∀ ch ∈ (cs.drop start).take n, HexDigit ch := by
  intro ch hch
  obtain ⟨i, hi⟩ := List.mem_iff_getElem?.1 hch
  rw [List.getElem?_take] at hi
  split_ifs at hi with hlt
  rw [List.getElem?_drop] at hi
  exact h.digit (start + i) ch hi (between _ (Nat.le_add_right ..) (Nat.add_lt_add_left hlt _))

/-- The groups of a UUID. -/
def groups (cs : List Char) : List (List Char) :=
  [cs.take 8, (cs.drop 9).take 4, (cs.drop 14).take 4, (cs.drop 19).take 4, (cs.drop 24).take 12]

theorem UuidChars.groups_digits (h : UuidChars cs) : ∀ g ∈ groups cs, ∀ ch ∈ g, HexDigit ch := by
  have hbetween : ∀ {start n}, (∀ k < n, start + k ∉ hyphens) →
      ∀ i, start ≤ i → i < start + n → i ∉ hyphens := by
    intro start n hno i hle hlt
    have hi := hno (i - start) (by omega)
    rwa [Nat.add_sub_cancel' hle] at hi
  have hfirst : ∀ ch ∈ (cs.drop 0).take 8, HexDigit ch := h.group (hbetween (by decide))
  simp only [groups, List.forall_mem_cons]
  exact ⟨hfirst, h.group (hbetween (by decide)),
    h.group (hbetween (by decide)), h.group (hbetween (by decide)), h.group (hbetween (by decide)), by simp⟩

/-- The groups of a UUID are what stands between its hyphens. -/
theorem UuidChars.splitOn (h : UuidChars cs) : cs.splitOn '-' = groups cs := by
  have hcut : ∀ start n, start + n ∈ hyphens → cs.drop start =
      (cs.drop start).take n ++ '-' :: cs.drop (start + n + 1) := by
    intro start n hmem
    have hget : (cs.drop start)[n]? = some '-' := by
      rw [List.getElem?_drop]
      exact h.hyphen _ hmem
    conv_lhs => rw [take_append_drop_of_getElem? hget]
    rw [List.drop_drop, Nat.add_assoc]
  have hlast : (cs.drop 24).take 12 = cs.drop 24 :=
    List.take_of_length_le (by rw [List.length_drop, h.length])
  have hjoin : ['-'].intercalate (groups cs) = cs := by
    simp only [groups, List.intercalate, List.intersperse, List.flatten_cons, List.flatten_nil,
      List.append_nil, List.cons_append, List.nil_append, hlast]
    rw [← hcut 19 4 (by decide), ← hcut 14 4 (by decide), ← hcut 9 4 (by decide)]
    exact (hcut 0 8 (by decide)).symm
  have hdash : ∀ g ∈ groups cs, '-' ∉ g := fun g hg hmem =>
    absurd (h.groups_digits g hg '-' hmem) (by unfold HexDigit; decide)
  conv_lhs => rw [← hjoin]
  exact List.splitOn_intercalate '-' hdash (by simp [groups])

/-- A UUID that the gateway accepts is one for the enclave. -/
theorem isCanonicalUuid_enclave (h : Gateway.isCanonicalUuid value = true) :
    Enclave.isCanonicalUuid value = true := by
  have hchars := uuidChars_of_gateway h
  simp only [Enclave.isCanonicalUuid, hchars.splitOn, decide_eq_true_eq]
  refine ⟨?_, ?_⟩
  · simp [groups, hchars.length]
  · simp only [List.all_eq_true, decide_eq_true_eq]
    exact hchars.groups_digits

end Uuid

section Descriptor

variable {N V : Type} (state : Enclave.AppState N V)

/-- What `validate` and `check_request_bindings` ask of a descriptor, but for its age. -/
structure DescriptorChecks (d : WalletDescriptor) (clientKey : Bytes) : Prop where
  network : d.network = state.info.network
  securityDomain : d.securityDomainId = state.info.securityDomainId
  version : d.version = API_VERSION
  organization : Enclave.isCanonicalUuid d.turnkeyOrganizationId = true
  wallet : d.turnkeyWalletId ≠ "" ∧ (utf8 d.turnkeyWalletId).length ≤ 128
  address : (state.runtime.keys.pubkeyFromStr d.address).isSome
  provisioned : ∃ digest, descriptorDigest state.runtime.crypto.sha256 d = some digest ∧
    state.runtime.crypto.Verifies state.runtime.provisioningPublic.val digest d.provisioningSignature
  client : d.allowedClients = [⟨clientKey, OPERATIONS⟩]
  clientKey : clientKey.length = 65 ∧ ∃ key, parseUncompressedSec1 state.runtime.crypto clientKey = .ok key

/-- What `validate` and `check_request_bindings` ask of a request besides its descriptor. -/
structure RequestChecks (now : UInt64) (r : OperationRequest) (clientKey : Bytes) : Prop where
  version : r.version = API_VERSION
  release : r.targetReleaseId = state.info.releaseId
  manifest : r.targetManifestDigest = state.info.manifestDigest
  executable : r.targetExecutableDigest = state.info.executableDigest
  quorumKey : r.quorumKeyId = state.info.quorumKeyId
  quorumKeyEpoch : r.quorumKeyEpoch = state.info.quorumKeyEpoch
  supported : r.operation.kind ∈ state.info.supportedOperations
  seed : r.sealedSeed.isSome = true ↔ r.operation.kind ≠ .bootstrap
  unexpired : now.toNat ≤ r.expiresAtMs.toNat
  issued : r.issuedAtMs.toNat ≤ now.toNat + 60000
  ordered : r.issuedAtMs.toNat ≤ r.expiresAtMs.toNat
  lifetime : r.expiresAtMs.toNat ≤ r.issuedAtMs.toNat + 300000
  client : r.authorization.clientKeyId = clientKeyId state.runtime.crypto clientKey
  signed : ∃ digest, requestDigest state.runtime.crypto.sha256 r = some digest ∧
    state.runtime.crypto.Verifies clientKey (clientAuthDigest state.runtime.crypto.sha256 digest)
      r.authorization.signature

/-- The checks of a request are those of its descriptor and its own. -/
theorem signed_iff {state : Enclave.AppState N V} {now : UInt64} {r : OperationRequest} {clientKey : Bytes}
    (h : DescriptorChecks state r.walletDescriptor clientKey) :
    Enclave.Signed state now r ↔ RequestChecks state now r clientKey := by
  constructor
  · intro hsigned
    obtain ⟨client, hclient, -, -, hid, hverified⟩ := hsigned.client
    obtain rfl := List.singleton_injective (hclient.symm.trans h.client)
    exact
      { hsigned with
        client := hid
        signed := hverified }
  · intro hown
    exact
      { hown, h with
        descriptorVersion := h.version
        client := ⟨_, h.client, h.clientKey.1, rfl, hown.client, hown.signed⟩ }

/-- The key signs so that its signatures verify and are low-S, and under one public key. -/
def Signs (c : SigningCrypto) (secret : ByteArrayOf 32) (publicKey : Bytes) : Prop :=
  ∀ digest signature, c.signP256Prehash secret digest = some signature →
    c.toCrypto.Verifies publicKey digest signature.val

/-- The signature of a descriptor is not in what is signed. -/
theorem descriptorDigest_congr {sha256 : Bytes → ByteArrayOf 32} {d e : WalletDescriptor}
    (h : d.signed = e.signed) : descriptorDigest sha256 d = descriptorDigest sha256 e := by
  rw [descriptorDigest, descriptorDigest, descriptorDigestInput_eq, descriptorDigestInput_eq, h]

theorem walletGrantDigest_congr {sha256 : Bytes → ByteArrayOf 32} {grant grant' : WalletGrant}
    (h : grant.signed = grant'.signed) : walletGrantDigest sha256 grant = walletGrantDigest sha256 grant' := by
  rw [walletGrantDigest, walletGrantDigest, walletGrantDigestInput_eq, walletGrantDigestInput_eq, h]

/-- What the gateway makes of an enrollment that it validated. -/
structure Provisioned (c : SigningCrypto) (p : Provisioner) (input : EnrollmentInput) (d : WalletDescriptor) :
    Prop where
  version : d.version = API_VERSION
  securityDomain : d.securityDomainId = p.policy.securityDomainId
  network : d.network = p.policy.network
  organization : d.turnkeyOrganizationId = input.organizationId
  wallet : d.turnkeyWalletId = input.turnkeyWalletId
  address : d.address = input.solanaAddress
  client : d.allowedClients = [⟨input.clientPublicKey.val, p.policy.allowedOperations⟩]
  expires : d.expiresAtMs = saturatingAdd input.issuedAtMs p.descriptorTtlMs
  signed : ∃ digest signature, descriptorDigest c.sha256 d = some digest ∧
    c.signP256Prehash p.secret digest = some signature ∧ d.provisioningSignature = signature.val

theorem provisioned_of_sign {c : SigningCrypto} {p : Provisioner} {input : EnrollmentInput}
    {d : WalletDescriptor} (h : p.sign c input = .ok d) : Provisioned c p input d := by
  simp only [Provisioner.sign, bind_eq_ok, ofOption_eq_ok, pure_eq_ok] at h
  obtain ⟨digest, hdigest, signature, hsignature, rfl⟩ := h
  exact ⟨rfl, rfl, rfl, rfl, rfl, rfl, rfl, rfl, digest, signature,
    (descriptorDigest_congr rfl).trans hdigest, hsignature, rfl⟩

/-- What the texts of a validated enrollment are. -/
structure Validated (c : Crypto) (input : EnrollmentInput) : Prop where
  organization : Gateway.isCanonicalUuid input.organizationId = true
  wallet : Gateway.isCanonicalUuid input.turnkeyWalletId = true
  address : Base58.decode input.solanaAddress = some input.ownerPublicKey.val
  clientKey : ∃ key, parseUncompressedSec1 c input.clientPublicKey.val = .ok key

theorem val_of_ofLength {n : ℕ} {bytes : Bytes} {a : ByteArrayOf n} (h : ofLength n bytes = some a) :
    a.val = bytes := by
  unfold ofLength at h
  split at h
  · obtain rfl := Option.some.inj h
    rfl
  · cases h

theorem validated_of_validate {c : Crypto} {request : EnrollmentRequest} {input : EnrollmentInput}
    (h : Enrollment.validate c request = .ok input) : Validated c input := by
  have hguard : ∀ {p : Prop} [Decidable p] {u : Unit}, guard p = some u ↔ p := by
    intro p _ u
    by_cases hp : p <;> simp [guard, hp]
  simp only [Enrollment.validate, bind_eq_ok, refuse_eq_ok, exists_const, not_or, Bool.not_eq_false,
    ofOption_eq_ok, pure_eq_ok] at h
  obtain ⟨⟨horganization, hwallet⟩, owner, howner, client, hclient, rfl⟩ := h
  simp only [Enrollment.solanaPublicKey, Option.bind_eq_bind, Option.bind_eq_some_iff, hguard,
    Option.pure_def, Option.some.injEq, exists_const] at howner
  obtain ⟨bytes, ⟨decoded, hdecoded, hlength⟩, -, rfl⟩ := howner
  obtain rfl := val_of_ofLength hlength
  simp only [Enrollment.clientPublicKey, Option.bind_eq_bind, Option.bind_eq_some_iff, hguard,
    Option.pure_def, Option.some.injEq, exists_const] at hclient
  obtain ⟨bytes, -, key, hkey, -, rfl⟩ := hclient
  refine ⟨horganization, hwallet, hdecoded, key, ?_⟩
  cases hparse : parseUncompressedSec1 c bytes.val with
  | error e =>
    rw [hparse] at hkey
    cases hkey
  | ok key' =>
    rw [hparse] at hkey
    exact congrArg _ (Option.some.inj hkey)

end Descriptor

/-- Gateway and enclave are configured alike, the keys sign, and `Pubkey::from_str` decodes base58. -/
structure Alike {N V : Type} (c : SigningCrypto) (p : Provisioner) (w : WalletGrants)
    (state : Enclave.AppState N V) : Prop where
  crypto : state.runtime.crypto = c.toCrypto
  network : p.policy.network = state.info.network
  securityDomain : p.policy.securityDomainId = state.info.securityDomainId
  operations : p.policy.allowedOperations = OPERATIONS
  provisioning : Signs c p.secret state.runtime.provisioningPublic.val
  granting : Signs c w.secret state.runtime.grantPublic.val
  pubkey : ∀ (text : String) (key : ByteArrayOf 32), Base58.decode text = some key.val →
    state.runtime.keys.pubkeyFromStr text = some key

section Acceptance

variable {N V : Type} {c : SigningCrypto} {p : Provisioner} {w : WalletGrants}
  {state : Enclave.AppState N V} {input : EnrollmentInput} {d : WalletDescriptor}

theorem length_uuid {value : String} (h : Gateway.isCanonicalUuid value = true) : (utf8 value).length = 36 := by
  simp only [Gateway.isCanonicalUuid, Bool.and_eq_true, decide_eq_true_eq, List.length_map] at h
  exact h.1

/-- No text of an enrollment that the gateway accepted is refused. -/
theorem Provisioned.checks (h : Provisioned c p input d) (alike : Alike c p w state)
    (validated : Validated c.toCrypto input) : DescriptorChecks state d input.clientPublicKey.val where
  network := h.network.trans alike.network
  securityDomain := h.securityDomain.trans alike.securityDomain
  version := h.version
  organization := h.organization ▸ isCanonicalUuid_enclave validated.organization
  wallet := by
    rw [h.wallet, length_uuid validated.wallet]
    refine ⟨fun hempty => ?_, by decide⟩
    have hlength := length_uuid validated.wallet
    rw [hempty] at hlength
    cases hlength
  address := by
    rw [h.address, alike.pubkey _ _ validated.address]
    rfl
  provisioned := by
    obtain ⟨digest, signature, hdigest, hsignature, hsigned⟩ := h.signed
    rw [alike.crypto, hsigned]
    exact ⟨digest, hdigest, alike.provisioning digest signature hsignature⟩
  client := alike.operations ▸ h.client
  clientKey := ⟨input.clientPublicKey.property, alike.crypto ▸ validated.clientKey⟩

/-- A grant is in force from 60 s before it was issued until 60 s after it expires. -/
theorem grant_in_force {project : ProjectId} {issuedAt now : UInt64} {grant : WalletGrant}
    {clientKey : Bytes} (alike : Alike c p w state) (client : d.allowedClients = [⟨clientKey, OPERATIONS⟩])
    (h : w.issue c project d issuedAt = .ok grant) :
    verifyWalletGrant state.runtime.crypto grant state.runtime.grantPublic.val d
      (clientKeyId state.runtime.crypto clientKey) now = .ok () ↔
      grant.issuedAtMs.toNat ≤ now.toNat + 60000 ∧ now.toNat ≤ grant.expiresAtMs.toNat + 60000 := by
  have hskew : MAX_CLOCK_SKEW_MS.toNat = 60000 := by decide
  have hissued := WalletGrants.issue_ok h
  rw [verifyWalletGrant_eq_ok, alike.crypto]
  refine ⟨fun hforce => ⟨hskew ▸ hforce.issued, hskew ▸ hforce.unexpired⟩, ?_⟩
  rintro ⟨hnotAhead, hunexpired⟩
  obtain ⟨digest, signature, hdigest, hsignature, hsigned⟩ := hissued.signed
  obtain ⟨client', hclient', hid⟩ := hissued.client
  obtain rfl := List.singleton_injective (hclient'.symm.trans client)
  have hbounded := UInt64.le_iff_toNat_le.1 w.bounded.2
  -- The expiry saturates, and then the lifetime is still within the bound.
  have hexpires : grant.expiresAtMs.toNat = min (issuedAt.toNat + w.lifetimeMs.toNat) (2 ^ 64 - 1) := by
    rw [hissued.expiresAt, toNat_saturatingAdd]
  have hissuedAt : grant.issuedAtMs.toNat = issuedAt.toNat := by rw [hissued.issuedAt]
  have hlt := issuedAt.toNat_lt
  exact
    { version := hissued.version
      signed := ⟨digest, (walletGrantDigest_congr rfl).trans hdigest,
        hsigned ▸ alike.granting digest signature hsignature⟩
      descriptor := hissued.digest
      client := hid
      ordered := by omega
      lifetime := by omega
      issued := hskew ▸ hnotAhead
      unexpired := hskew ▸ hunexpired }

/-- What the gateway issues, the enclave refuses for its age alone: of a request with the descriptor
it asks nothing but `RequestChecks` until 60 s past the expiry, and a grant for the descriptor is in
force from 60 s before to 60 s after its own times. -/
theorem issued_accepted (alike : Alike c p w state) {e : Enrollment}
    {verifyStrict : ByteArrayOf 32 → Bytes → ByteArrayOf 64 → Bool} {request : EnrollmentRequest}
    {enrolledAt : UInt64} (henroll : e.verify c.toCrypto verifyStrict request enrolledAt = .ok input)
    (hsign : p.sign c input = .ok d) :
    DescriptorChecks state d input.clientPublicKey.val ∧
    (∀ (r : OperationRequest) (env : Enclave.Environment), r.walletDescriptor = d →
      ((∃ wallet, Enclave.validate r state env = .ok wallet) ↔
        ∃ now, env.clock 0 = some now ∧ RequestChecks state now r input.clientPublicKey.val ∧
          now.toNat ≤ d.expiresAtMs.toNat + 60000)) ∧
    ∀ (project : ProjectId) (issuedAt now : UInt64) (grant : WalletGrant),
      w.issue c project d issuedAt = .ok grant →
      (verifyWalletGrant state.runtime.crypto grant state.runtime.grantPublic.val d
        (clientKeyId state.runtime.crypto input.clientPublicKey.val) now = .ok () ↔
        grant.issuedAtMs.toNat ≤ now.toNat + 60000 ∧ now.toNat ≤ grant.expiresAtMs.toNat + 60000) := by
  have hchecks : DescriptorChecks state d input.clientPublicKey.val :=
    (provisioned_of_sign hsign).checks alike
      (validated_of_validate (Enrollment.verified_of_verify henroll).valid)
  have hskew : MAX_CLOCK_SKEW_MS.toNat = 60000 := by decide
  refine ⟨hchecks, ?_, fun project issuedAt now grant hissue => grant_in_force alike hchecks.client hissue⟩
  rintro r env rfl
  simp only [Enclave.validate_eq_ok, signed_iff hchecks, hskew]
  constructor
  · rintro ⟨wallet, hready, -⟩
    exact hready
  · intro hready
    obtain ⟨key, hkey⟩ := Option.isSome_iff_exists.1 hchecks.address
    exact ⟨⟨r.walletDescriptor.turnkeyOrganizationId, r.walletDescriptor.address, key⟩, hready,
      rfl, rfl, hkey⟩

end Acceptance

section Sample

theorem length_zeros_32 : (List.replicate 32 0 : Bytes).length = 32 := length_zeros 32

def zeros : ByteArrayOf 32 := ⟨List.replicate 32 0, length_zeros_32⟩

/-- Reads base58 and nothing else. -/
def sampleKeypair : Enclave.Keypair Unit Unit where
  pubkeyFromStr text := (Base58.decode text).bind (ofLength 32)
  derivationMessage _ := []
  verifyMessage _ _ _ := false
  expandRoles _ := none
  nullifierPubkey _ := none
  nullifierSecret _ := []
  viewingPubkey _ := []
  ownerHash _ _ _ := none
  isX25519 _ := false
  decryptUtxo _ _ _ _ _ := none
  decryptRingDeposit _ _ _ _ := none
  nullifier _ _ _ := none
  mergeDummyNullifier _ _ _ := none
  mergeOutputBlinding _ _ := none
  mergePrivateTxBlinding _ _ := none
  mergeOutputKey _ _ := none
  transactionViewingKey _ _ := none

theorem decrypt_encrypt_plain (_ q b : Bytes) (h : some q = some b) : some b = some q := h.symm

/-- A replica that takes its ciphertexts as they are. -/
def sampleEnclave : Enclave.AppState Unit Unit where
  info :=
    { version := API_VERSION
      network := samplePolicy.network
      securityDomainId := samplePolicy.securityDomainId
      releaseId := samplePolicy.releaseId
      manifestDigest := zeros
      executableDigest := zeros
      quorumPublicKey := lenientKey.val
      quorumKeyId := samplePolicy.quorumKeyId
      quorumKeyEpoch := 0
      ephemeralPublicKey := lenientKey.val
      supportedOperations := OPERATIONS
      maxEncryptedRequestBytes := 262144
      maxEncryptedResponseBytes := 262144
      proofType := "proof" }
  runtime :=
    { crypto := lenientCrypto.toCrypto
      keys := sampleKeypair
      ephemeral := ⟨lenientKey.val, fun _ => none⟩
      quorum := ⟨fun _ p => some p, some, decrypt_encrypt_plain⟩
      provisioningPublic := lenientKey
      grantPublic := lenientKey
      prover := ⟨fun _ _ => none, fun _ _ _ _ _ => none⟩
      qosEncrypt := fun _ _ _ => none }

def sampleEnrollment : EnrollmentRequest where
  organizationId := "00000000-0000-0000-0000-000000000000"
  turnkeyWalletId := "00000000-0000-0000-0000-00000000000a"
  solanaAddress := "11111111111111111111111111111111"
  clientPublicKey := String.ofList ('0' :: '4' :: List.replicate 128 '0')
  issuedAtMs := 0
  ownerSignature := String.ofList (List.replicate 128 '0')

def sampleInput : EnrollmentInput where
  organizationId := "00000000-0000-0000-0000-000000000000"
  turnkeyWalletId := "00000000-0000-0000-0000-00000000000a"
  solanaAddress := "11111111111111111111111111111111"
  ownerPublicKey := zeros
  clientPublicKey := lenientKey
  issuedAtMs := 0

theorem validate_sample :
    Enrollment.validate lenientCrypto.toCrypto sampleEnrollment = .ok sampleInput := by
  have hids : Gateway.isCanonicalUuid sampleInput.organizationId = true ∧
      Gateway.isCanonicalUuid sampleInput.turnkeyWalletId = true := by decide +kernel
  have howner : Enrollment.solanaPublicKey sampleInput.solanaAddress = some sampleInput.ownerPublicKey := by
    decide +kernel
  have hclient : Enrollment.clientPublicKey lenientCrypto.toCrypto sampleEnrollment.clientPublicKey =
      some sampleInput.clientPublicKey := by
    decide +kernel
  simp only [Enrollment.validate, bind_eq_ok, refuse_eq_ok, ofOption_eq_ok, pure_eq_ok, exists_const]
  refine ⟨?_, sampleInput.ownerPublicKey, howner, sampleInput.clientPublicKey, hclient, rfl⟩
  rintro (h | h)
  · exact absurd (h.symm.trans hids.1) (by decide)
  · exact absurd (h.symm.trans hids.2) (by decide)

def sampleHost : Enrollment where
  network := .devnet
  domains := ["host"]

theorem verify_sampleHost : sampleHost.verify lenientCrypto.toCrypto (fun _ _ _ => true) sampleEnrollment 0 =
    .ok sampleInput := by
  have hage : ¬¬(sampleEnrollment.issuedAtMs ≤ saturatingAdd 0 MAX_CLOCK_SKEW_MS ∧
      (0 : UInt64).toNat - sampleEnrollment.issuedAtMs.toNat ≤ MAX_ENROLLMENT_AGE_MS.toNat) := by decide
  obtain ⟨m, hm⟩ := @Enrollment.message_eq_some sampleEnrollment "host" .devnet (by decide)
  have hsignature : (hexDecode sampleEnrollment.ownerSignature.toList).bind (ofLength 64) =
      some ⟨List.replicate 64 0, length_zeros 64⟩ := by decide +kernel
  have hsigned : Enrollment.verifyOwnerSignature (fun _ _ _ => true) sampleInput m
      sampleEnrollment.ownerSignature = true := by
    rw [Enrollment.verifyOwnerSignature, hsignature]
  simp only [Enrollment.verify, bind_eq_ok, refuse_eq_ok, exists_const]
  refine ⟨hage, sampleInput, validate_sample, ?_⟩
  simp only [sampleHost, Enrollment.verifyDomains, bind_eq_ok, ofOption_eq_ok]
  exact ⟨m, hm, by rw [if_pos hsigned]; rfl⟩

theorem signs_lenient (secret : ByteArrayOf 32) : Signs lenientCrypto secret lenientKey.val := by
  intro digest signature h
  obtain rfl := Option.some.inj h
  rfl

theorem sample_alike : Alike lenientCrypto sampleState.provisioner sampleState.walletGrants sampleEnclave where
  crypto := rfl
  network := rfl
  securityDomain := rfl
  operations := rfl
  provisioning := signs_lenient _
  granting := signs_lenient _
  pubkey := by
    intro text key h
    show (Base58.decode text).bind (ofLength 32) = some key
    rw [h, Option.bind_some, ofLength, dif_pos key.property]

theorem issued_accepted_sample : ∃ d, sampleState.provisioner.sign lenientCrypto sampleInput = .ok d ∧
    DescriptorChecks sampleEnclave d lenientKey.val ∧
    ∃ grant, sampleState.walletGrants.issue lenientCrypto (.sample 0) d 0 = .ok grant ∧
      verifyWalletGrant lenientCrypto.toCrypto grant lenientKey.val d
        (clientKeyId lenientCrypto.toCrypto lenientKey.val) 0 = .ok () := by
  obtain ⟨d, hsign⟩ : ∃ d, sampleState.provisioner.sign lenientCrypto sampleInput = .ok d := by
    simp only [Provisioner.sign, bind_eq_ok, ofOption_eq_ok, pure_eq_ok]
    obtain ⟨digest, hdigest⟩ := @exists_descriptorDigest lenientCrypto.sha256 _
    exact ⟨_, digest, hdigest, _, rfl, rfl⟩
  obtain ⟨hchecks, -, hgrant⟩ := issued_accepted sample_alike verify_sampleHost hsign
  obtain ⟨grant, hissue⟩ := WalletGrants.exists_issue (c := lenientCrypto)
    (g := sampleState.walletGrants) (.sample 0) 0 hchecks.client List.not_mem_nil fun _ => ⟨_, rfl⟩
  have hissued := WalletGrants.issue_ok hissue
  refine ⟨d, hsign, hchecks, grant, hissue, (hgrant (.sample 0) 0 0 grant hissue).2 ⟨?_, ?_⟩⟩
  · rw [hissued.issuedAt]
    decide
  · exact Nat.zero_le _

end Sample

end ZolanaTvc.EndToEnd
