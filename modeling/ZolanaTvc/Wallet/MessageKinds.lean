import ZolanaTvc.Enclave.Ping
import ZolanaTvc.Protocol.RoundTrip
import ZolanaTvc.Wallet.AppProof
import ZolanaTvc.Wallet.ReleaseAgreement

/-!
# Message kinds do not cross

The ephemeral key signs the payloads of pings and of operations. No payload of the one kind passes the
client's check of the other.

## Main results

* `messageKinds_iff`: the kinds of plaintexts and of payloads do not cross, and a ping is answered with
  the challenge's own text exactly when that is an object.
-/

namespace ZolanaTvc.Wallet

open Except Json Protocol Serde Enclave

variable {N V : Type}

section Payloads

/-- The client reads the value of a canonical text as the enclave does. -/
theorem reorder_of_jsonParse {t : String} {v : Value} (hv : strictValue t = some v)
    (hcanonical : Protocol.isRfc8785 t = true) (hsafe : SafeValue v) {w : JsValue}
    (hw : jsonParse (utf16Units t) = some w) : Reorder (ofValue v) w := by
  have hdistinct := (distinct_of_strictValue hv).1
  have ht := (isRfc8785_iff_strictValue hv).1 hcanonical
  obtain ⟨t', ht', hjs⟩ := canonicalize_agree hdistinct hsafe (Reorder.refl _)
  obtain rfl : t' = t := Option.some.inj (ht'.symm.trans ht)
  rw [canonicalizeJsonValue_eq_ok] at hjs
  obtain ⟨u, hu, hprint⟩ := Format.append_eq_some_iff.1 hjs
  -- A text is at least as long as it nests deep.
  have hlength := parse_length_iff.2 ⟨u.depth, parse_print u le_rfl⟩
  rw [hprint] at hlength
  obtain ⟨w', hw', hreorder⟩ := jcs.strictParse_append
    ((distinct_map utf16Units_injective).2 hdistinct)
    (Format.depth_le_of_tree hu (depth_parse hlength)) hjs
  obtain rfl : w' = w := Option.some.inj (hw'.symm.trans hw)
  exact hreorder

theorem safe_version (version : UInt8) (h) : SafeNumber (.int version.toNat h) := by
  have hlt := version.toNat_lt
  show |(version.toNat : ℤ)| ≤ 2 ^ 53 - 1
  rw [Nat.abs_cast]
  omega

theorem safe_challenge {v : Value} {challenge : Protocol.QosPingChallenge}
    (hv : v.Distinct) (h : QosPingChallenge.codec.decode .value v = some challenge) :
    SafeValue v := by
  rcases challenge_shape h with ⟨ms, rfl, hms⟩ | ⟨hn, rfl⟩
  · obtain ⟨hrange, hversion⟩ := hms.version
    refine .obj trivial (fun _ _ => trivial) fun m hm => ?_
    have hlookup : get ms m.1 = some m.2 := (lookup_eq_some_iff (distinct_obj.1 hv).1).2 hm
    have hname := hms.names (List.mem_map_of_mem (f := Prod.fst) hm)
    simp only [List.mem_cons, List.not_mem_nil, or_false] at hname
    rcases hname with hname | hname | hname <;> rw [hname] at hlookup
    · rw [← Option.some.inj (hms.type.symm.trans hlookup)]
      exact .str trivial
    · rw [← Option.some.inj (hversion.symm.trans hlookup)]
      exact .num (safe_version _ _)
    · rw [← Option.some.inj (hms.challenge.symm.trans hlookup)]
      exact .str trivial
  · refine .arr fun w hw => ?_
    simp only [List.mem_cons, List.not_mem_nil, or_false] at hw
    rcases hw with rfl | rfl | rfl
    · exact .str trivial
    · exact .num (safe_version _ _)
    · exact .str trivial

/-- The type of a challenge that the client reads, if any, is the challenge's. -/
theorem type_of_challenge {v : Value} {challenge : Protocol.QosPingChallenge} (hv : v.Distinct)
    (h : QosPingChallenge.codec.decode .value v = some challenge) {w : JsValue}
    (hw : Reorder (ofValue v) w) {type : String}
    (htype : property w "type" = .ok (some (.str (utf16Units type)))) : challenge.type = type := by
  rcases challenge_shape h with ⟨ms, rfl, hms⟩ | ⟨hn, rfl⟩
  · rw [ofValue_obj] at hw
    obtain ⟨ns, rfl, -, hlookup⟩ := exists_of_reorder_obj (nodup_ofValue (distinct_obj.1 hv).1) hw
    have hrel := hlookup (utf16Units "type")
    rw [lookup_ofValue, hms.type] at hrel
    obtain ⟨u, hu, hreorder⟩ := exists_of_rel_some hrel
    have hread : ns.lookup (utf16Units "type") = some (.str (utf16Units type)) :=
      Except.ok.inj htype
    obtain rfl := Option.some.inj (hu.symm.trans hread)
    exact utf16Units_injective (Reorder.str_inj hreorder)
  · -- An array has no property of this name.
    rw [ofValue, map_arr] at hw
    cases hw with
    | arr _ _ => exact absurd (Except.ok.inj htype) (by simp)

/-- The payload of a ping is the text of its challenge. -/
theorem qosPingPayload_eq (random : ByteArrayOf 32) : qosPingPayload random =
    ofValue (QosPingChallenge.codec.encode ⟨TVC_QOS_PING_PROOF_TYPE, API_VERSION, random⟩) := by
  rfl

theorem payload_of_qosPingChallenge {c : Crypto} {qosEncrypt : Bytes → Bytes → Except Thrown Bytes}
    {random : ByteArrayOf 32} {key : JsString} {challenge : QosPingChallenge}
    (h : qosPingChallenge c qosEncrypt random key = .ok challenge) :
    ∃ t, jcsSerialize QosPingChallenge.codec ⟨TVC_QOS_PING_PROOF_TYPE, API_VERSION, random⟩ =
      some t ∧ challenge.payload = utf16Units t := by
  simp only [qosPingChallenge, bind_eq_ok, pure_eq_ok] at h
  obtain ⟨_, -, _, -, payload, hpayload, _, -, _, -, rfl⟩ := h
  have hdecode := QosPingChallenge.codec.decode_of_reorder .value
    ⟨TVC_QOS_PING_PROOF_TYPE, API_VERSION, random⟩ _ (QosPingChallenge.codec.distinct_encode _)
    (Reorder.refl _)
  obtain ⟨challenge, hchallenge, -⟩ := hdecode
  obtain ⟨t, ht, hjs⟩ := canonicalize_agree (QosPingChallenge.codec.distinct_encode _)
    (safe_challenge (QosPingChallenge.codec.distinct_encode _) hchallenge) (Reorder.refl _)
  rw [qosPingPayload_eq] at hpayload
  exact ⟨t, ht, Except.ok.inj (hpayload.symm.trans hjs)⟩

/-- No text is the payload both of an operation and of a ping. -/
theorem operationPayload_ne {proof : OperationProofPayload} {challenge : Protocol.QosPingChallenge}
    {t u : String} (ht : jcsSerialize OperationProofPayload.codec proof = some t)
    (hu : jcsSerialize QosPingChallenge.codec challenge = some u) : t ≠ u := by
  rintro rfl
  have hreorder := (canonicalize_eq_iff (QosPingChallenge.codec.distinct_encode challenge)
    (OperationProofPayload.codec.distinct_encode proof) (exists_canonicalize_iff.1 ⟨t, hu⟩)
    (exists_canonicalize_iff.1 ⟨t, ht⟩)).1 (hu.trans ht.symm)
  have hnames : ["type", "version", "request_id", "request_digest", "result_digest", "operation",
      "sealed_seed_digest"] ⊆ ["type", "version", "challenge"] :=
    Fields.names_subset_of_reorder hreorder
  exact absurd hnames (by decide)

end Payloads

/-- The kinds do not cross. No plaintext is of two kinds, so that a ciphertext made for one reader is
refused by the other two; no payload signed for a ping passes the client's check of an operation's
answer, nor one signed for an operation its check of a ping's; and what a ping signs and returns is
the canonical text of a challenge if and only if the JSON it decrypted is an object. -/
theorem messageKinds_iff (state : AppState N V) (c : Crypto) :
    (∀ p k l, PlaintextKind.Reads k p → PlaintextKind.Reads l p → k = l) ∧
    (∀ ciphertext p k, state.runtime.quorum.decrypt ciphertext = some p →
      PlaintextKind.Reads k p →
      (k ≠ .pingChallenge → ∀ body u request, fromUtf8 body = some u →
        parseQosPingRequest u = some request → request.encryptedChallenge = ciphertext →
          handlePing state body = .error .invalid) ∧
      (k ≠ .operationRequest → ∀ env body u encrypted, fromUtf8 body = some u →
        parseEncryptedRequest u = some encrypted → encrypted.ciphertext = ciphertext →
          execute state env body = ⟨none, .error .invalid⟩) ∧
      (k ≠ .unsealedSeed → ∀ request bytes envelope, request.sealedSeed = some bytes →
        Borsh.tryFromSlice SealedSeed.borsh bytes = some envelope →
          envelope.ciphertext = ciphertext →
            Sealed.unseal request state.runtime = .error .invalid)) ∧
    (∀ body t, pingPayload state body = .ok t →
      ((∃ challenge, jcsSerialize QosPingChallenge.codec challenge = some t) ↔ IsObjectText t)) ∧
    (∀ body text, handlePing state body = .ok text → ∃ response,
      pingPayload state body = .ok response.tvcAppProof.proofPayload ∧
        jcsSerialize QosPingResponse.codec response = some text) ∧
    (∀ body t, pingPayload state body = .ok t →
      ∀ (BootProof : Type) (trustVerifier : TurnkeyAppProofWire → BootProof → Except Thrown Unit)
        (request response : JsValue) (bootProof : BootProof),
        appProofPayload response = .ok (some (.str (utf16Units t))) →
          ∃ e, verifyOperationProof c trustVerifier request response bootProof = .error e) ∧
    (∀ env a result digest response, respond state env a result digest = .ok response →
      ∀ qosEncrypt random key challenge text wire,
        qosPingChallenge c qosEncrypt random key = .ok challenge →
          verifyQosPingAnswer c text challenge = .ok wire →
            wire.proofPayload ≠ utf16Units response.tvcAppProof.proofPayload) := by
  refine ⟨fun p k l hk hl => plaintext_kinds hk hl, fun ciphertext p k hp hk => ⟨?_, ?_, ?_⟩,
    fun body t h => challengeText_iff h, fun body text h => handlePing_eq_ok h, ?_, ?_⟩
  · rintro hne body u request hu hrequest rfl
    exact handlePing_refuses hu hrequest hp fun hl => hne (plaintext_kinds hk hl)
  · rintro hne env body u encrypted hu hencrypted rfl
    exact execute_refuses hu hencrypted hp fun hl => hne (plaintext_kinds hk hl)
  · rintro hne request bytes envelope hbytes henvelope rfl
    exact unseal_refuses hbytes henvelope hp fun hl => hne (plaintext_kinds hk hl)
  · intro body t ht BootProof trustVerifier request response bootProof hresponse
    cases hverify : verifyOperationProof c trustVerifier request response bootProof with
    | error e => exact ⟨e, rfl⟩
    | ok payload =>
      have hproven := verifyOperationProof_eq_ok hverify
      obtain ⟨wire, -, -, hwire, -, hparse⟩ := hproven.proof
      have htext : utf16Units t = wire.proofPayload := by
        rw [hresponse] at hwire
        exact Json.str.inj (Option.some.inj (Except.ok.inj hwire))
      obtain ⟨u, request, p, challenge, -, -, -, -, -, hchallenge, -, htype, hcanonical⟩ :=
        pingPayload_eq_ok.1 ht
      obtain ⟨v, hv, hdecode⟩ := Option.bind_eq_some_iff.1 hchallenge
      have hdistinct := (distinct_of_strictValue hv).1
      rw [← htext] at hparse
      -- The payload is the canonical text of a challenge, and its type is not the one the client
      -- wants.
      have hreorder := reorder_of_jsonParse hv hcanonical (safe_challenge hdistinct hdecode) hparse
      have htype' := type_of_challenge hdistinct hdecode hreorder hproven.type
      exact absurd (htype.symm.trans htype') (by decide)
  · intro env a result digest response hrespond qosEncrypt random key challenge text wire hchallenge
      hverify heq
    obtain ⟨proof, hproof⟩ := respond_payload hrespond
    -- The client compares with its own challenge, whose text is no operation's payload.
    obtain ⟨t, ht, hpayload⟩ := payload_of_qosPingChallenge hchallenge
    have hwire : wire.proofPayload = challenge.payload := by
      simp only [verifyQosPingAnswer, bind_eq_ok, pure_eq_ok] at hverify
      grind
    rw [hwire, hpayload] at heq
    exact operationPayload_ne hproof ht (utf16Units_injective heq).symm


/-- Key library calls that answer nothing. -/
def idleKeypair : Keypair Unit Unit where
  pubkeyFromStr _ := none
  derivationMessage _ := []
  verifyMessage _ _ _ := false
  expandRoles _ := none
  nullifierPubkey _ := none
  nullifierSecret _ := []
  viewingPubkey _ := []
  ownerHash _ _ _ := none
  isX25519 _ := false
  decryptUtxo _ _ _ _ _ := none
  decryptRingDeposit _ _ _ _ := none
  nullifier _ _ _ := none
  mergeDummyNullifier _ _ _ := none
  mergeOutputBlinding _ _ := none
  mergePrivateTxBlinding _ _ := none
  mergeOutputKey _ _ := none
  transactionViewingKey _ _ := none

theorem length_zeroKey : (List.replicate 65 0 : Bytes).length = 65 := rfl

theorem plainDecrypt (_ p c : Bytes) (h : some p = some c) : some c = some p := h.symm

/-- An enclave whose ciphertexts are their plaintexts. -/
def plainState : AppState Unit Unit where
  info :=
    { version := API_VERSION
      network := .devnet
      securityDomainId := zeroDigest
      releaseId := "release"
      manifestDigest := zeroDigest
      executableDigest := zeroDigest
      quorumPublicKey := []
      quorumKeyId := "quorum"
      quorumKeyEpoch := 1
      ephemeralPublicKey := []
      supportedOperations := OPERATIONS
      maxEncryptedRequestBytes := MAX_ENCRYPTED_REQUEST_BYTES
      maxEncryptedResponseBytes := MAX_ENCRYPTED_RESPONSE_BYTES
      proofType := TVC_APP_PROOF_TYPE }
  runtime :=
    { crypto := singleKeyCrypto
      keys := idleKeypair
      ephemeral := ⟨[], some⟩
      quorum := ⟨fun _ p => some p, some, plainDecrypt⟩
      provisioningPublic := ⟨List.replicate 65 0, length_zeroKey⟩
      grantPublic := ⟨List.replicate 65 0, length_zeroKey⟩
      prover := ⟨fun _ _ => none, fun _ _ _ _ _ => none⟩
      qosEncrypt := fun _ _ p => some p }

theorem one_in_range : -2 ^ 63 ≤ (1 : ℤ) ∧ (1 : ℤ) < 2 ^ 64 := by
  decide

/-- The fields of a challenge in an array. -/
def challengeArray : Value :=
  .arr [.str TVC_QOS_PING_PROOF_TYPE, .num (.int 1 one_in_range), .str (encodeLowerHex zeroDigest.val)]

/-- An enclave signs the text of `challengeArray`, which is the text of no challenge. -/
theorem ping_signs_array : ¬ ∀ (body : Bytes) (t : String), pingPayload plainState body = .ok t →
    ∃ challenge, jcsSerialize QosPingChallenge.codec challenge = some t := by
  intro h
  obtain ⟨t, ht, hcanonical, hchallenge⟩ := exists_plaintext (c := QosPingChallenge.codec)
    (v := challengeArray) (x := ⟨TVC_QOS_PING_PROOF_TYPE, API_VERSION, zeroDigest⟩)
    (by decide +kernel) (by decide +kernel)
  obtain ⟨u, -, -, hrequest⟩ := roundTrips_of_norm_eq (c := QosPingRequest.codec) (fun _ => rfl)
    (QosPingRequest.fits 126 ⟨API_VERSION, utf8 t⟩)
  have hpayload : pingPayload plainState (utf8 u) = .ok t :=
    pingPayload_eq_ok.2 ⟨u, _, utf8 t, _, fromUtf8_utf8 u, hrequest, rfl, rfl, fromUtf8_utf8 t,
      hchallenge, rfl, rfl, hcanonical⟩
  obtain ⟨ms, hms⟩ := (challengeText_iff hpayload).1 (h _ t hpayload)
  have hread := strictValue_of_canonicalize (v := challengeArray) (by decide +kernel)
    (by decide +kernel) ht
  rw [hms] at hread
  exact absurd (Option.some.inj hread) (by simp [challengeArray, sortBy_arr])

end ZolanaTvc.Wallet
