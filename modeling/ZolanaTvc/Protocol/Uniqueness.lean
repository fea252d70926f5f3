import ZolanaTvc.Protocol.Binding

/-!
# Which plaintexts are their request's own text

`is_rfc8785` looks at the JSON of a plaintext and `parse_operation_request` at its typed value. A JSON
value of a shape that serde accepts and never emits passes both, and the request's own text is another.

## Main results

* `plaintext_unique_iff`: an accepted plaintext is the text of its request if and only if its JSON has
  the emitted shape.
* `plaintext_not_unique`: a plaintext that is not.
-/

namespace ZolanaTvc.Protocol

open Json Serde

/-- The text of the request it parses to. -/
def IsOwnText (t : String) (r : OperationRequest) : Prop :=
  jcsSerialize OperationRequest.codec r = some t

/-- Every struct is an object, every tag and every variant without fields a string, and the
`Bootstrap` operation has no other member. -/
def EmittedShape (t : String) : Prop :=
  ∃ v, strictValue t = some v ∧ OperationRequest.codec.emitted .value v

theorem jcsSerialize_eq_some_iff {T : Type} {c : Codec T} {t : String} {v : Value} {x : T}
    (hcanonical : isRfc8785 t = true) (hv : strictValue t = some v)
    (hx : c.decode .value v = some x) : jcsSerialize c x = some t ↔ c.emitted .value v := by
  have hdistinct := (distinct_of_strictValue hv).1
  have ht : canonicalizeJsonValue v = some t := (isRfc8785_iff_strictValue hv).1 hcanonical
  have hfree : FloatFree v := exists_canonicalize_iff.1 ⟨t, ht⟩
  rw [← c.reorder_encode_iff .value v x hdistinct hx, jcsSerialize]
  refine ⟨fun h => ?_, fun h => canonicalize_of_reorder hdistinct h ht⟩
  rw [← canonicalize_eq_iff hdistinct (c.distinct_encode x) hfree
    (exists_canonicalize_iff.1 ⟨t, h⟩), ht, h]

/-- Requests that one signature covers, and that carry it, have one text. -/
theorem jcsSerialize_eq_of_signed_eq {r s : OperationRequest} (h : r.signed = s.signed)
    (hsignature : r.authorization.signature = s.authorization.signature) {t : String}
    (ht : jcsSerialize OperationRequest.codec r = some t) :
    jcsSerialize OperationRequest.codec s = some t := by
  have hnorm : ∀ r, OperationRequest.codec.norm r = { r.signed with
      authorization := { r.signed.authorization with signature := r.authorization.signature } } :=
    OperationRequest.norm_eq
  refine canonicalize_of_reorder (OperationRequest.codec.distinct_encode r) ?_ ht
  rw [← OperationRequest.codec.norm_eq_iff, hnorm, hnorm, h, hsignature]

/-- An accepted plaintext is the text of its request if and only if its JSON has the emitted shape,
and among the plaintexts of that shape it alone carries its digest and signature. -/
theorem plaintext_unique_iff {t : String} {r : OperationRequest} (hcanonical : isRfc8785 t = true)
    (hr : parseOperationRequest t = some r) :
    (IsOwnText t r ↔ EmittedShape t) ∧
      (EmittedShape t → ∀ t' r', isRfc8785 t' = true → parseOperationRequest t' = some r' →
        EmittedShape t' → ∀ x, requestDigestInput r = some x → requestDigestInput r' = some x →
          r.authorization.signature = r'.authorization.signature → t = t') := by
  have hown : ∀ {t r}, isRfc8785 t = true → parseOperationRequest t = some r →
      (IsOwnText t r ↔ EmittedShape t) := by
    intro t r hcanonical hr
    obtain ⟨v, hv, hx⟩ := Option.bind_eq_some_iff.1 hr
    rw [IsOwnText, jcsSerialize_eq_some_iff hcanonical hv hx, EmittedShape, hv]
    simp
  refine ⟨hown hcanonical hr, fun hshape t' r' hcanonical' hr' hshape' x hx hx' hsignature => ?_⟩
  have hsigned := (requestDigestInput_eq_iff hx hx').1 rfl
  have ht := jcsSerialize_eq_of_signed_eq hsigned hsignature ((hown hcanonical hr).2 hshape)
  exact Option.some.inj (ht.symm.trans ((hown hcanonical' hr').2 hshape'))

/-- A request to bootstrap a wallet. -/
def bootstrapRequest : OperationRequest where
  version := 1
  requestId := ⟨List.replicate 32 0x11, rfl⟩
  issuedAtMs := 1000
  expiresAtMs := 2000
  targetReleaseId := "release"
  targetManifestDigest := ⟨List.replicate 32 0x22, rfl⟩
  targetExecutableDigest := ⟨List.replicate 32 0x33, rfl⟩
  quorumKeyId := "quorum"
  quorumKeyEpoch := 1
  walletDescriptor :=
    { version := 1
      securityDomainId := ⟨List.replicate 32 0x44, rfl⟩
      network := .devnet
      turnkeyOrganizationId := "organization"
      turnkeyWalletId := "wallet"
      address := "address"
      allowedClients := [⟨[4], OPERATIONS⟩]
      expiresAtMs := 3000
      provisioningSignature := [5] }
  sealedSeed := none
  clientResponsePublicKey := [4]
  operation := .bootstrap
  authorization := ⟨"client", [6]⟩

/-- `bootstrapRequest` with a member that its operation does not have. -/
def strayMember : Value :=
  .obj (replaceMember "operation"
    (.obj [("type", .str "Bootstrap"), ("x", .num (.int 1 (by decide)))])
    (members (OperationRequest.codec.encode bootstrapRequest)))

theorem exists_plaintext {T : Type} {c : Codec T} {v : Value}
    (hv : v.Distinct ∧ FloatFree v ∧ v.depth ≤ recursionLimit) {x : T}
    (hx : c.decode .value (v.sortBy String.toList) = some x) :
    ∃ t, canonicalizeJsonValue v = some t ∧ isRfc8785 t = true ∧ parseStrictJson c t = some x := by
  obtain ⟨hdistinct, hfree, hdepth⟩ := hv
  obtain ⟨t, ht⟩ := exists_canonicalize_iff.2 hfree
  refine ⟨t, ht, isRfc8785_iff.2 ⟨v, hdistinct, hfree, hdepth, ht⟩, ?_⟩
  rw [parseStrictJson, strictValue_of_canonicalize hdistinct hdepth ht, Option.bind_some, hx]

theorem plaintext_unique_iff_bootstrap :
    ∃ t, isRfc8785 t = true ∧ parseOperationRequest t = some bootstrapRequest ∧ EmittedShape t := by
  obtain ⟨t, ht, hcanonical, hparse⟩ :=
    exists_plaintext (c := OperationRequest.codec)
      (v := OperationRequest.codec.encode bootstrapRequest) (x := bootstrapRequest)
      (by decide +kernel) (by decide +kernel)
  exact ⟨t, hcanonical, hparse, (plaintext_unique_iff hcanonical hparse).1.1 ht⟩

/-- The canonical text of `strayMember` is accepted, and is not the text of its request. -/
theorem plaintext_not_unique :
    ¬ ∀ t r, isRfc8785 t = true → parseOperationRequest t = some r → IsOwnText t r := by
  intro h
  have hv : strayMember.Distinct ∧ FloatFree strayMember ∧
      strayMember.depth ≤ recursionLimit := by decide +kernel
  obtain ⟨t, ht, hcanonical, hparse⟩ :=
    exists_plaintext (c := OperationRequest.codec) (x := bootstrapRequest) hv (by decide +kernel)
  have hown : canonicalizeJsonValue (OperationRequest.codec.encode bootstrapRequest) = some t :=
    h t bootstrapRequest hcanonical hparse
  have hreorder := (canonicalize_eq_iff hv.1 (OperationRequest.codec.distinct_encode _) hv.2.1
    (exists_canonicalize_iff.1 ⟨t, hown⟩)).1 (ht.trans hown.symm)
  exact absurd (hreorder.sortBy_eq toList_injective hv.1) (by decide +kernel)

end ZolanaTvc.Protocol
