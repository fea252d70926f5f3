import ZolanaTvc.Wallet.ReleasePolicy

/-!
# The two release policy verifiers

The enclave's operators and the clients verify a release policy with separately written programs. Both
count the signatures of distinct key ids; they part where more than 255 of these count.
-/

namespace ZolanaTvc.Wallet

open Protocol Quorum

section OfRust

/-- The policy as its JSON gives it to the client. -/
def ReleasePolicy.ofRust (p : Protocol.ReleasePolicy) : ReleasePolicy where
  version := p.version.toNat
  releaseId := utf16Units p.releaseId
  network := p.network
  tvcApplicationId := utf16Units p.tvcApplicationId
  securityDomainId := bytesToHex p.securityDomainId.val
  acceptedManifestDigests := p.acceptedManifestDigests.map utf16Units
  acceptedExecutableDigests := p.acceptedExecutableDigests.map utf16Units
  quorumKeyId := utf16Units p.quorumKeyId
  quorumKeyEpoch := utf16Units (encodeDecimalU64 p.quorumKeyEpoch)
  quorumPublicKey := bytesToHex p.quorumPublicKey
  allowedOperations := p.allowedOperations
  maxEncryptedRequestBytes := p.maxEncryptedRequestBytes.toNat
  maxEncryptedResponseBytes := p.maxEncryptedResponseBytes.toNat
  turnkeyTrustRootId := utf16Units p.turnkeyTrustRootId
  turnkeyProofSchemaVersions := p.turnkeyProofSchemaVersions.map utf16Units
  validFromMs := utf16Units (encodeDecimalU64 p.validFromMs)
  expiresAtMs := utf16Units (encodeDecimalU64 p.expiresAtMs)
  revocationEpoch := utf16Units (encodeDecimalU64 p.revocationEpoch)

def SignedReleasePolicy.ofRust (signed : Protocol.SignedReleasePolicy) : SignedReleasePolicy where
  policy := .ofRust signed.policy
  authoritySetId := utf16Units signed.authoritySetId
  signatures := signed.signatures.map fun s => ⟨utf16Units s.keyId, bytesToHex s.signature⟩

def PinnedReleaseAuthorities.ofRust (authorities : Protocol.PinnedReleaseAuthorities) :
    PinnedReleaseAuthorities where
  authoritySetId := utf16Units authorities.authoritySetId
  threshold := authorities.threshold.toNat
  keys := authorities.keys.map fun k => ⟨utf16Units k.keyId, bytesToHex k.publicKey⟩
  minimumRevocationEpoch := utf16Units (encodeDecimalU64 authorities.minimumRevocationEpoch)

end OfRust

section Agreement

variable {signed : Protocol.SignedReleasePolicy} {authorities : Protocol.PinnedReleaseAuthorities}
variable {network : Network} {nowMs : UInt64}

theorem roll_ofRust : (PinnedReleaseAuthorities.ofRust authorities).roll =
    authorities.roll.map (Prod.map utf16Units bytesToHex) := by
  simp [PinnedReleaseAuthorities.roll, PinnedReleaseAuthorities.ofRust,
    Protocol.PinnedReleaseAuthorities.roll]

theorem ballots_ofRust : (SignedReleasePolicy.ofRust signed).ballots =
    signed.ballots.map (Prod.map utf16Units bytesToHex) := by
  simp [SignedReleasePolicy.ballots, SignedReleasePolicy.ofRust, Protocol.SignedReleasePolicy.ballots]

theorem decodeLowerHex_bytesToHex (bytes : Bytes) : decodeLowerHex (bytesToHex bytes) = .ok bytes :=
  decodeLowerHex_eq_ok.2 rfl

theorem hexVerifies_bytesToHex {c : Crypto} {digest : ByteArrayOf 32} (key signature : Bytes) :
    HexVerifies c digest (bytesToHex key) (bytesToHex signature) ↔
      c.Verifies key digest signature := by
  simp only [HexVerifies, decodeLowerHex_bytesToHex, Except.ok.injEq, exists_and_left,
    exists_eq_left']

/-- The checks ahead of the signatures are the same on both sides. -/
theorem admissible_ofRust : Admissible (.ofRust signed) (.ofRust authorities) network nowMs.toNat ↔
    Protocol.Admissible signed authorities network nowMs := by
  have hthreshold : (1 : ℚ) ≤ (authorities.threshold.toNat : ℚ) ↔ authorities.threshold ≠ 0 := by
    rw [Nat.one_le_cast, Nat.one_le_iff_ne_zero, ne_eq, ne_eq, ← UInt8.toNat_inj]
    rfl
  have hversion : ((signed.policy.version.toNat : ℕ) : ℚ) = 1 ↔
      signed.policy.version = API_VERSION := by
    rw [Nat.cast_eq_one, ← UInt8.toNat_inj]
    rfl
  -- A `u64` written in decimal is read by `BigInt` as the same number.
  have hbigInt : ∀ {x : UInt64} {n : ℤ},
      bigInt (utf16Units (encodeDecimalU64 x)) = some n → n = x.toNat := by
    intro x n hn
    rw [bigInt_encodeDecimalU64] at hn
    exact (Option.some.inj hn).symm
  constructor
  · rintro ⟨version, hnetwork, threshold, keys, set, root, ⟨epoch, minimum, hepoch, hminimum, hle⟩,
      ⟨validFrom, expires, hvalidFrom, hexpires, hfrom, hunexpired⟩, signatures⟩
    obtain rfl := hbigInt hepoch
    obtain rfl := hbigInt hminimum
    obtain rfl := hbigInt hvalidFrom
    obtain rfl := hbigInt hexpires
    exact ⟨hversion.1 version, hnetwork, hthreshold.1 threshold, fun h => keys (by
      rw [PinnedReleaseAuthorities.ofRust, h, List.map_nil]), utf16Units_injective set,
      utf16Units_injective root, Nat.cast_le.1 hle, Nat.cast_le.1 hfrom, Nat.cast_le.1 hunexpired,
      fun h => signatures (by rw [SignedReleasePolicy.ofRust, h, List.map_nil])⟩
  · rintro ⟨version, hnetwork, threshold, keys, set, root, unrevoked, hfrom, hunexpired, signatures⟩
    exact ⟨hversion.2 version, hnetwork, hthreshold.2 threshold,
      fun h => keys (List.map_eq_nil_iff.1 h), congrArg utf16Units set, congrArg utf16Units root,
      ⟨_, _, bigInt_encodeDecimalU64 _, bigInt_encodeDecimalU64 _, Nat.cast_le.2 unrevoked⟩,
      ⟨_, _, bigInt_encodeDecimalU64 _, bigInt_encodeDecimalU64 _, Nat.cast_le.2 hfrom,
        Nat.cast_le.2 hunexpired⟩, fun h => signatures (List.map_eq_nil_iff.1 h)⟩

end Agreement

section Threshold

theorem perm_ne_nil {A : Type} {as bs : List A} (h : as.Perm bs) (has : as ≠ []) : bs ≠ [] :=
  fun hnil => has (h.trans (hnil ▸ .refl bs)).eq_nil

/-- The threshold law of the Rust verifier. -/
theorem verifySignedReleasePolicy_law (c : Crypto) (signed : Protocol.SignedReleasePolicy)
    (authorities : Protocol.PinnedReleaseAuthorities) (network : Network) (nowMs : UInt64)
    {digest : ByteArrayOf 32} (hdigest : Protocol.policySigningDigest c.sha256 signed.policy = some digest) :
    ThresholdLaw
      (fun keys signatures => Protocol.verifySignedReleasePolicy c
        { signed with signatures := signatures } { authorities with keys := keys } network nowMs =
          .ok ())
      (fun key => (key.keyId, key.publicKey))
      (fun signature => (signature.keyId, signature.signature))
      (fun key signature => c.Verifies key digest signature) authorities.threshold.toNat := by
  refine .of_carried (fun keys signatures =>
    Protocol.Admissible { signed with signatures := signatures }
      { authorities with keys := keys } network nowMs ∧
    (countedIds (keys.map fun key => (key.keyId, key.publicKey))
      (signatures.map fun s => (s.keyId, s.signature))).card ≤ 255) (fun keys signatures => ?_) ?_
  · have hok := @Protocol.verifySignedReleasePolicy_eq_ok c
      { signed with signatures := signatures } { authorities with keys := keys } network nowMs ()
      digest hdigest
    rw [hok, and_assoc]
    exact and_congr_right fun _ => and_comm
  · rintro keys keys' signatures signatures' hkeys hsignatures ⟨hadmissible, hcard⟩
    rw [countedIds_perm (hkeys.map _) (hsignatures.map _)] at hcard
    exact ⟨{ hadmissible with
      keys := perm_ne_nil hkeys hadmissible.keys
      signatures := perm_ne_nil hsignatures hadmissible.signatures }, hcard⟩

/-- The threshold law of the client's verifier. -/
theorem verifySignedReleasePolicy_wallet_law (c : Crypto) (digest : ReleasePolicy → ByteArrayOf 32)
    (signed : SignedReleasePolicy) (authorities : PinnedReleaseAuthorities) (network : Network)
    (nowMs : ℤ) :
    ThresholdLaw
      (fun keys signatures => verifySignedReleasePolicy c digest
        { signed with signatures := signatures } { authorities with keys := keys } network nowMs =
          .ok ())
      (fun key => (key.keyId, key.publicKey))
      (fun signature => (signature.keyId, signature.signature))
      (HexVerifies c (digest signed.policy)) ⌈authorities.threshold⌉₊ := by
  refine .of_carried (fun keys signatures =>
    Admissible { signed with signatures := signatures } { authorities with keys := keys } network
      nowMs ∧
    ∀ key ∈ keys, ∃ bytes, decodeLowerHex key.publicKey = .ok bytes) (fun keys signatures => ?_) ?_
  · rw [verifySignedReleasePolicy_eq_ok, and_assoc]
    simp [PinnedReleaseAuthorities.roll, SignedReleasePolicy.ballots]
  · rintro keys keys' signatures signatures' hkeys hsignatures ⟨hadmissible, hreads⟩
    exact ⟨{ hadmissible with
      keys := perm_ne_nil hkeys hadmissible.keys
      signatures := perm_ne_nil hsignatures hadmissible.signatures },
      fun key hkey => hreads key (hkeys.mem_iff.2 hkey)⟩

/-- Both verifiers accept a policy only with the signatures of as many distinct pinned key ids as the
threshold asks, which are distinct keys where no key is pinned under two ids; signatures under unknown
or repeated ids do not raise the count, and the order of keys and signatures does not matter. -/
theorem releasePolicy_threshold :
    (∀ (c : Crypto) (signed : Protocol.SignedReleasePolicy)
      (authorities : Protocol.PinnedReleaseAuthorities) (network : Network) (nowMs : UInt64),
      ∃ digest, Protocol.policySigningDigest c.sha256 signed.policy = some digest ∧
        ThresholdLaw
          (fun keys signatures => Protocol.verifySignedReleasePolicy c
            { signed with signatures := signatures } { authorities with keys := keys } network
            nowMs = .ok ())
          (fun key => (key.keyId, key.publicKey))
          (fun signature => (signature.keyId, signature.signature))
          (fun key signature => c.Verifies key digest signature) authorities.threshold.toNat) ∧
    (∀ (c : Crypto) (digest : ReleasePolicy → ByteArrayOf 32) (signed : SignedReleasePolicy)
      (authorities : PinnedReleaseAuthorities) (network : Network) (nowMs : ℤ),
      ThresholdLaw
        (fun keys signatures => verifySignedReleasePolicy c digest
          { signed with signatures := signatures } { authorities with keys := keys } network
          nowMs = .ok ())
        (fun key => (key.keyId, key.publicKey))
        (fun signature => (signature.keyId, signature.signature))
        (HexVerifies c (digest signed.policy)) ⌈authorities.threshold⌉₊) := by
  refine ⟨fun c signed authorities network nowMs => ?_, verifySignedReleasePolicy_wallet_law⟩
  obtain ⟨digest, hdigest⟩ := exists_policySigningDigest c.sha256 signed.policy
  exact ⟨digest, hdigest, verifySignedReleasePolicy_law c signed authorities network nowMs hdigest⟩

/-- A curve with one key and one signature, which verifies for every digest. -/
def singleKey : Bytes := 4 :: List.replicate 64 0

def singleSignature : Bytes := List.replicate 64 0

theorem length_zeros : (List.replicate 32 0 : Bytes).length = 32 := rfl

def zeroDigest : ByteArrayOf 32 := ⟨List.replicate 32 0, length_zeros⟩

def singleKeyCrypto : Crypto where
  sha256 _ := zeroDigest
  isPoint key := key == singleKey
  isSignature signature := signature == singleSignature
  isHighS _ := false
  verifyPrehash key _ signature := key == singleKey && signature == singleSignature

def samplePolicy : Protocol.ReleasePolicy where
  version := API_VERSION
  releaseId := "release"
  network := .devnet
  tvcApplicationId := "application"
  securityDomainId := zeroDigest
  acceptedManifestDigests := []
  acceptedExecutableDigests := []
  quorumKeyId := "quorum"
  quorumKeyEpoch := 0
  quorumPublicKey := []
  allowedOperations := OPERATIONS
  maxEncryptedRequestBytes := 262144
  maxEncryptedResponseBytes := 262144
  turnkeyTrustRootId := EXPECTED_TURNKEY_TRUST_ROOT_ID
  turnkeyProofSchemaVersions := []
  validFromMs := 0
  expiresAtMs := 1
  revocationEpoch := 0

/-- The ids of `n` authorities. -/
def authorityIds (n : ℕ) : List String := (List.range n).map fun i => encodeDecimalU64 (.ofNat i)

/-- One key pinned under `n` ids. -/
def pinnedUnder (n : ℕ) (threshold : UInt8) : Protocol.PinnedReleaseAuthorities where
  authoritySetId := "authorities"
  threshold := threshold
  keys := (authorityIds n).map fun id => ⟨id, singleKey⟩
  minimumRevocationEpoch := 0

/-- The policy signed with that key under `n` ids. -/
def signedUnder (n : ℕ) : Protocol.SignedReleasePolicy where
  policy := samplePolicy
  authoritySetId := "authorities"
  signatures := (authorityIds n).map fun id => ⟨id, singleSignature⟩

section Sample

variable {n : ℕ} {t : UInt8}

theorem nodup_authorityIds (hn : n ≤ 2 ^ 64) : (authorityIds n).Nodup := by
  refine List.Nodup.map_on ?_ List.nodup_range
  intro i hi j hj heq
  rw [List.mem_range] at hi hj
  have hdecode := congrArg Protocol.decodeDecimalU64 heq
  rw [Protocol.decodeDecimalU64_encode, Protocol.decodeDecimalU64_encode, Option.some.injEq, ← UInt64.toNat_inj,
    UInt64.toNat_ofNat', UInt64.toNat_ofNat', Nat.mod_eq_of_lt (by omega),
    Nat.mod_eq_of_lt (by omega)] at hdecode
  exact hdecode

theorem roll_pinnedUnder : (pinnedUnder n t).roll =
    (authorityIds n).map fun id => (id, singleKey) := by
  simp [Protocol.PinnedReleaseAuthorities.roll, pinnedUnder]

theorem ballots_signedUnder : (signedUnder n).ballots =
    (authorityIds n).map fun id => (id, singleSignature) := by
  simp [Protocol.SignedReleasePolicy.ballots, signedUnder]

theorem card_countedIds_sample (hn : n ≤ 2 ^ 64) :
    (countedIds (pinnedUnder n t).roll (signedUnder n).ballots).card = n := by
  have hnodup := nodup_authorityIds hn
  have hroll : (pinnedUnder n t).roll.map Prod.fst = authorityIds n := by
    simp [roll_pinnedUnder, Function.comp_def]
  have hballots : (signedUnder n).ballots.map Prod.fst = authorityIds n := by
    simp [ballots_signedUnder, Function.comp_def]
  rw [countedIds_of_nodup (hroll ▸ hnodup) (hballots.trans hroll.symm), roll_pinnedUnder,
    List.length_map, authorityIds, List.length_map, List.length_range]

theorem admissible_sample (hn : n ≠ 0) (ht : t ≠ 0) :
    Protocol.Admissible (signedUnder n) (pinnedUnder n t) .devnet 0 where
  version := rfl
  network := rfl
  threshold := ht
  keys := by simpa [pinnedUnder, authorityIds] using hn
  authoritySetId := rfl
  trustRoot := rfl
  unrevoked := le_rfl
  validFrom := le_rfl
  unexpired := Nat.zero_le 1
  signatures := by simpa [signedUnder, authorityIds] using hn

theorem carried_sample (hn : n ≤ 2 ^ 64) (ht : t.toNat ≤ n) :
    Carried (fun key signature => singleKeyCrypto.Verifies key zeroDigest signature)
      (pinnedUnder n t).roll (signedUnder n).ballots t.toNat where
  roll_nodup := by
    have hroll : (pinnedUnder n t).roll.map Prod.fst = authorityIds n := by
      simp [roll_pinnedUnder, Function.comp_def]
    exact hroll ▸ nodup_authorityIds hn
  valid id _ key signature hkey hsignature := by
    rw [roll_pinnedUnder] at hkey
    rw [ballots_signedUnder] at hsignature
    obtain ⟨_, -, heq⟩ := List.mem_map.1 hkey
    obtain ⟨_, -, heq'⟩ := List.mem_map.1 hsignature
    obtain rfl := congrArg Prod.snd heq
    obtain rfl := congrArg Prod.snd heq'
    rfl
  threshold_le := (card_countedIds_sample hn).symm ▸ ht

theorem digest_sample : Protocol.policySigningDigest singleKeyCrypto.sha256 (signedUnder n).policy =
    some zeroDigest := by
  obtain ⟨digest, hdigest⟩ := exists_policySigningDigest singleKeyCrypto.sha256 (signedUnder n).policy
  obtain ⟨_, -, rfl⟩ := Option.map_eq_some_iff.1 hdigest
  exact hdigest

end Sample

/-- One key that is pinned under two ids reaches a threshold of two by itself. -/
theorem threshold_not_distinctKeys :
    ¬∀ (c : Crypto) (signed : Protocol.SignedReleasePolicy)
      (authorities : Protocol.PinnedReleaseAuthorities) (network : Network) (nowMs : UInt64),
      Protocol.verifySignedReleasePolicy c signed authorities network nowMs = .ok () →
        ∃ digest, Protocol.policySigningDigest c.sha256 signed.policy = some digest ∧
          SignedByKeys (fun key signature => c.Verifies key digest signature) authorities.roll
            signed.ballots authorities.threshold.toNat := by
  intro hclaim
  have hcard := card_countedIds_sample (n := 2) (t := 2) (by norm_num)
  have haccepted : Protocol.verifySignedReleasePolicy singleKeyCrypto (signedUnder 2)
      (pinnedUnder 2 2) .devnet 0 = .ok () :=
    (Protocol.verifySignedReleasePolicy_eq_ok digest_sample).2
      ⟨admissible_sample two_ne_zero (by decide), carried_sample (by norm_num) le_rfl, by omega⟩
  obtain ⟨digest, -, keys, hthreshold, hkeys⟩ := hclaim _ _ _ _ _ haccepted
  have hsubset : keys ⊆ {singleKey} := by
    intro key hkey
    obtain ⟨id, hroll, -⟩ := hkeys key hkey
    rw [roll_pinnedUnder] at hroll
    obtain ⟨_, -, heq⟩ := List.mem_map.1 hroll
    exact Finset.mem_singleton.2 (congrArg Prod.snd heq).symm
  have hone := Finset.card_le_card hsubset
  rw [Finset.card_singleton] at hone
  exact absurd (hthreshold.trans hone) (by decide)

end Threshold

section Counter

/-- More signatures count than the Rust counter holds, and nothing else is refused. -/
def PastCounter (c : Crypto) (digest : ByteArrayOf 32) (signed : Protocol.SignedReleasePolicy)
    (authorities : Protocol.PinnedReleaseAuthorities) (network : Network) (nowMs : UInt64) : Prop :=
  Protocol.Admissible signed authorities network nowMs ∧
    Carried (fun key signature => c.Verifies key digest signature) authorities.roll signed.ballots
      authorities.threshold.toNat ∧
    255 < (countedIds authorities.roll signed.ballots).card

/-- The client accepts what the Rust verifier would accept with a counter of its own size. -/
theorem verifySignedReleasePolicy_ofRust {c : Crypto} {digest : ReleasePolicy → ByteArrayOf 32}
    {signed : Protocol.SignedReleasePolicy} {authorities : Protocol.PinnedReleaseAuthorities}
    {network : Network} {nowMs : UInt64} {u : Unit} :
    verifySignedReleasePolicy c digest (.ofRust signed) (.ofRust authorities) network nowMs.toNat =
        .ok u ↔
      Protocol.Admissible signed authorities network nowMs ∧
        Carried (fun key signature => c.Verifies key (digest (.ofRust signed.policy)) signature)
          authorities.roll signed.ballots authorities.threshold.toNat := by
  have hthreshold : ⌈(PinnedReleaseAuthorities.ofRust authorities).threshold⌉₊ =
      authorities.threshold.toNat := Nat.ceil_natCast _
  have hreads : ∀ key ∈ (PinnedReleaseAuthorities.ofRust authorities).roll.map Prod.snd,
      ∃ bytes, decodeLowerHex key = .ok bytes := by
    rw [roll_ofRust, List.map_map, List.forall_mem_map]
    exact fun entry _ => ⟨entry.2, decodeLowerHex_bytesToHex entry.2⟩
  rw [verifySignedReleasePolicy_eq_ok, admissible_ofRust, roll_ofRust, ballots_ofRust, hthreshold,
    carried_map utf16Units_injective hexVerifies_bytesToHex, ← roll_ofRust]
  exact and_congr_right fun _ => and_iff_right hreads

/-- The two verifiers agree but where more signatures count than the Rust counter holds. -/
theorem verifiers_agree_iff {c : Crypto} {digest : ReleasePolicy → ByteArrayOf 32}
    {signed : Protocol.SignedReleasePolicy} {authorities : Protocol.PinnedReleaseAuthorities}
    {network : Network} {nowMs : UInt64}
    (hdigest : Protocol.policySigningDigest c.sha256 signed.policy = some (digest (.ofRust signed.policy))) :
    (Protocol.verifySignedReleasePolicy c signed authorities network nowMs = .ok () ↔
      verifySignedReleasePolicy c digest (.ofRust signed) (.ofRust authorities) network
        nowMs.toNat = .ok ()) ↔
      ¬PastCounter c (digest (.ofRust signed.policy)) signed authorities network nowMs := by
  rw [Protocol.verifySignedReleasePolicy_eq_ok hdigest, verifySignedReleasePolicy_ofRust]
  constructor
  · rintro hiff ⟨hadmissible, hcarried, hlt⟩
    exact absurd (hiff.2 ⟨hadmissible, hcarried⟩).2.2 (not_le.2 hlt)
  · intro hnot
    refine ⟨fun h => ⟨h.1, h.2.1⟩, fun h => ⟨h.1, h.2, ?_⟩⟩
    by_contra hle
    exact hnot ⟨h.1, h.2, not_le.1 hle⟩

/-- The digest of the canonical policy, where the hash is constant. -/
theorem verifiers_agree_iff_sample :
    (Protocol.verifySignedReleasePolicy singleKeyCrypto (signedUnder 256) (pinnedUnder 256 1)
        .devnet 0 = .ok () ↔
      verifySignedReleasePolicy singleKeyCrypto (fun _ => zeroDigest) (.ofRust (signedUnder 256))
        (.ofRust (pinnedUnder 256 1)) .devnet (0 : UInt64).toNat = .ok ()) ↔
      ¬PastCounter singleKeyCrypto zeroDigest (signedUnder 256) (pinnedUnder 256 1) .devnet 0 :=
  verifiers_agree_iff digest_sample

/-- A policy with 256 counted signatures is accepted by the client alone. -/
theorem verifiers_disagree :
    ¬∀ (c : Crypto) (digest : ReleasePolicy → ByteArrayOf 32)
      (signed : Protocol.SignedReleasePolicy) (authorities : Protocol.PinnedReleaseAuthorities)
      (network : Network) (nowMs : UInt64),
      Protocol.policySigningDigest c.sha256 signed.policy = some (digest (.ofRust signed.policy)) →
        (Protocol.verifySignedReleasePolicy c signed authorities network nowMs = .ok () ↔
          verifySignedReleasePolicy c digest (.ofRust signed) (.ofRust authorities) network
            nowMs.toNat = .ok ()) := by
  intro hclaim
  have hcard := card_countedIds_sample (n := 256) (t := 1) (by norm_num)
  have hiff := hclaim singleKeyCrypto (fun _ => zeroDigest) (signedUnder 256) (pinnedUnder 256 1)
    .devnet 0 digest_sample
  have hadmissible := admissible_sample (n := 256) (t := 1) (by norm_num) (by decide)
  have hcarried := carried_sample (n := 256) (t := 1) (by norm_num) (by decide)
  rw [Protocol.verifySignedReleasePolicy_eq_ok digest_sample,
    verifySignedReleasePolicy_ofRust] at hiff
  have hle := (hiff.2 ⟨hadmissible, hcarried⟩).2.2
  omega

end Counter

end ZolanaTvc.Wallet
