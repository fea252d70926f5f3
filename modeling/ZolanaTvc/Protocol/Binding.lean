import ZolanaTvc.Protocol.Digest

/-!
# What a digest binds

## Main results

* `DigestCall.kind_eq_of_input_eq`: the byte string that a call hashes tells its constructor.
* `digest_binding`: two calls hash one byte string exactly when they are alike.
-/

namespace ZolanaTvc.Protocol

open Json Serde

theorem domainSeparated_inj {d e p q : Bytes} (hd : 0 ∉ d) (he : 0 ∉ e)
    (h : domainSeparated d p = domainSeparated e q) : d = e ∧ p = q := by
  obtain ⟨a, rfl, ha⟩ | ⟨a, rfl, ha⟩ := List.append_eq_append_iff.1 h
  all_goals
    cases a with
    | nil => simpa [eq_comm] using ha
    | cons b a =>
      obtain ⟨rfl, -⟩ := List.cons.inj ha
      simp at hd he

theorem domainSeparated_right_inj {d p q : Bytes}
    (h : domainSeparated d p = domainSeparated d q) : p = q :=
  (List.cons.inj (List.append_cancel_left h)).2

theorem canonicalInput_eq_iff {d e x y : Bytes} {v w : Value} (hd : 0 ∉ d) (he : 0 ∉ e)
    (hv : v.Distinct) (hw : w.Distinct) (hx : canonicalInput d v = some x)
    (hy : canonicalInput e w = some y) : x = y ↔ d = e ∧ Reorder v w := by
  obtain ⟨s, hs, rfl⟩ := Option.map_eq_some_iff.1 hx
  obtain ⟨t, ht, rfl⟩ := Option.map_eq_some_iff.1 hy
  rw [← canonicalize_eq_iff hv hw (exists_canonicalize_iff.1 ⟨s, hs⟩)
    (exists_canonicalize_iff.1 ⟨t, ht⟩), hs, ht, Option.some.injEq]
  refine ⟨fun h => ?_, fun ⟨hde, hst⟩ => by rw [hde, hst]⟩
  obtain ⟨hde, htext⟩ := domainSeparated_inj hd he h
  exact ⟨hde, utf8_injective htext⟩

/-- The digest constructors that hash a payload under a domain tag. -/
inductive DigestKind where
  | request
  | descriptor
  | walletBinding
  | walletGrant
  | policy
  | result
  | sealedSeed
  | walletId
  | requestId
deriving DecidableEq

namespace DigestKind

def domain : DigestKind → Bytes
  | request => REQUEST_DIGEST_DOMAIN
  | descriptor => PROVISIONING_AUTH_DOMAIN
  | walletBinding => WALLET_BINDING_DOMAIN
  | walletGrant => WALLET_GRANT_DOMAIN
  | policy => RELEASE_POLICY_DOMAIN
  | result => RESULT_DIGEST_DOMAIN
  | sealedSeed => SEALED_SEED_DIGEST_DOMAIN
  | walletId => WALLET_ID_HASH_DOMAIN
  | requestId => REQUEST_ID_HASH_DOMAIN

def all : List DigestKind :=
  [request, descriptor, walletBinding, walletGrant, policy, result, sealedSeed, walletId, requestId]

theorem mem_all (k : DigestKind) : k ∈ all := by
  cases k <;> decide

theorem domain_injective : Function.Injective domain := by
  have hdomain : ∀ k ∈ all, ∀ l ∈ all, k.domain = l.domain → k = l := by decide +kernel
  exact fun k l h => hdomain k (mem_all k) l (mem_all l) h

theorem zero_notMem_domain (k : DigestKind) : 0 ∉ k.domain := by
  have hdomain : ∀ k ∈ all, 0 ∉ k.domain := by decide +kernel
  exact hdomain k (mem_all k)

/-- No tagged input begins like the message of a client. -/
theorem head_domain (k : DigestKind) : k.domain.head? = some 90 := by
  have hdomain : ∀ k ∈ all, k.domain.head? = some 90 := by decide +kernel
  exact hdomain k (mem_all k)

end DigestKind

theorem ClientGrant.norm_eq (g : ClientGrant) : codec.norm g = g := by
  show (⟨g.clientPublicKey, g.allowedOperations.map id⟩ : ClientGrant) = g
  rw [List.map_id]

theorem WalletDescriptor.norm_eq (d : WalletDescriptor) : codec.norm d = d := by
  show ({ d with allowedClients := d.allowedClients.map ClientGrant.codec.norm } :
    WalletDescriptor) = d
  rw [funext ClientGrant.norm_eq, List.map_id']

theorem DeriveItem.norm_eq (i : DeriveItem) : codec.norm i = i := by
  cases i <;> rfl

theorem Operation.norm_eq (o : Operation) : codec.norm o = o.sorted := by
  cases o with
  | bootstrap => rfl
  | decrypt items =>
    show Operation.decrypt (items.map id) = .decrypt items
    rw [List.map_id]
  | derive items =>
    show Operation.derive (items.map DeriveItem.codec.norm) = .derive items
    rw [funext DeriveItem.norm_eq, List.map_id']
  | transactionKeys items =>
    show Operation.transactionKeys (items.map id) = .transactionKeys items
    rw [List.map_id]
  | prove request prover => rfl

theorem ReleasePolicy.norm_eq (p : ReleasePolicy) : codec.norm p = p := by
  show ({ p with
    acceptedManifestDigests := p.acceptedManifestDigests.map id
    acceptedExecutableDigests := p.acceptedExecutableDigests.map id
    allowedOperations := p.allowedOperations.map id
    turnkeyProofSchemaVersions := p.turnkeyProofSchemaVersions.map id } : ReleasePolicy) = p
  simp only [List.map_id]

theorem OperationRequest.norm_eq (r : OperationRequest) :
    codec.norm r = { r with operation := r.operation.sorted } := by
  show ({ r with
    walletDescriptor := WalletDescriptor.codec.norm r.walletDescriptor
    sealedSeed := r.sealedSeed.map id
    operation := Operation.codec.norm r.operation } : OperationRequest) = _
  rw [WalletDescriptor.norm_eq, Option.map_id, Operation.norm_eq]
  rfl

section Members

variable {ms ns : List (String × Value)} {name : String} {v w : Value}

/-- Objects that agree on a member are alike when they are without it. -/
theorem reorder_without_iff (hms : (Json.obj ms : Value).Distinct)
    (hns : (Json.obj ns : Value).Distinct) (hname : get ms name = get ns name) :
    Reorder (.obj (Variants.without name ms)) (.obj (Variants.without name ns)) ↔
      Reorder (.obj ms) (.obj ns) := by
  rw [reorder_obj_iff_lookup (distinct_obj.1 hms).1 (distinct_obj.1 hns).1,
    reorder_obj_iff_lookup (distinct_obj.1 (Variants.distinct_without hms)).1
      (distinct_obj.1 (Variants.distinct_without hns)).1]
  apply forall_congr'
  intro k
  by_cases hk : k = name
  · have hlookup : ms.lookup k = ns.lookup k := hk ▸ hname
    rw [Variants.lookup_without, Variants.lookup_without, if_pos hk, if_pos hk, hlookup]
    refine iff_of_true .none ?_
    cases ns.lookup k with
    | none => exact .none
    | some v => exact .some (.refl v)
  · rw [Variants.lookup_without, Variants.lookup_without, if_neg hk, if_neg hk]

theorem replaceMember_append_singleton (v' w' : Value) :
    replaceMember name v (ms ++ [(name, v')]) = replaceMember name v (ms ++ [(name, w')]) := by
  simp [replaceMember]

theorem names_replaceMember : (replaceMember name v ms).map Prod.fst = ms.map Prod.fst := by
  rw [replaceMember, List.map_map]
  refine List.map_congr_left fun m _ => ?_
  by_cases hm : m.1 = name <;> simp [hm]

theorem distinct_replaceMember (hms : (Json.obj ms : Value).Distinct) (hv : v.Distinct) :
    (Json.obj (replaceMember name v ms) : Value).Distinct := by
  obtain ⟨hnodup, hdistinct⟩ := distinct_obj.1 hms
  refine distinct_obj.2 ⟨names_replaceMember.symm ▸ hnodup, fun m hm => ?_⟩
  obtain ⟨n, hn, rfl⟩ := List.mem_map.1 hm
  by_cases hname : n.1 = name
  · simpa [hname] using hv
  · simpa [hname] using hdistinct n hn

theorem lookup_replaceMember (k : String) :
    (replaceMember name v ms).lookup k =
      if k = name then (ms.lookup k).map fun _ => v else ms.lookup k := by
  induction ms with
  | nil => simp [replaceMember]
  | cons m ms ih =>
    rw [replaceMember] at ih ⊢
    obtain ⟨l, u⟩ := m
    by_cases hk : k = l
    · by_cases hl : l = name <;> simp [hk, hl]
    · have hk' := beq_false_of_ne hk
      by_cases hl : l = name
      · subst hl
        simpa [List.lookup_cons, hk, hk'] using ih
      · simpa [List.lookup_cons, hk', hl] using ih

/-- Objects are alike when they are with a member replaced by what tells it. -/
theorem reorder_replaceMember_iff {v' w' : Value} (hms : (Json.obj ms : Value).Distinct)
    (hns : (Json.obj ns : Value).Distinct) (hv : v.Distinct) (hw : w.Distinct)
    (hmv : get ms name = some v') (hnw : get ns name = some w')
    (hname : Reorder v w ↔ Reorder v' w') :
    Reorder (.obj (replaceMember name v ms)) (.obj (replaceMember name w ns)) ↔
      Reorder (.obj ms) (.obj ns) := by
  rw [reorder_obj_iff_lookup (distinct_obj.1 hms).1 (distinct_obj.1 hns).1,
    reorder_obj_iff_lookup (distinct_obj.1 (distinct_replaceMember hms hv)).1
      (distinct_obj.1 (distinct_replaceMember hns hw)).1]
  apply forall_congr'
  intro k
  rw [lookup_replaceMember, lookup_replaceMember]
  by_cases hk : k = name
  · have hmk : ms.lookup k = some v' := hk ▸ hmv
    have hnk : ns.lookup k = some w' := hk ▸ hnw
    rw [if_pos hk, if_pos hk, hmk, hnk]
    simpa only [Option.map_some, Option.rel_some_some] using hname
  · rw [if_neg hk, if_neg hk]

end Members

section Inputs

variable {x y : Bytes}

/-- The members of an object. -/
def members : Value → List (String × Value)
  | .obj ms => ms
  | _ => []

/-- A request without the signature of its client. -/
def OperationRequest.unsigned (r : OperationRequest) : OperationRequest :=
  { r with authorization := { r.authorization with signature := [] } }

def requestMembers (r : OperationRequest) : List (String × Value) :=
  members (OperationRequest.codec.encode r.unsigned)

def authorizationMembers (r : OperationRequest) : List (String × Value) :=
  members (ClientAuthorization.codec.encode r.unsigned.authorization)

theorem encode_unsigned (r : OperationRequest) :
    OperationRequest.codec.encode r.unsigned = .obj (requestMembers r) :=
  rfl

theorem distinct_requestMembers (r : OperationRequest) :
    (Json.obj (requestMembers r) : Value).Distinct :=
  encode_unsigned r ▸ OperationRequest.codec.distinct_encode r.unsigned

theorem distinct_authorizationMembers (r : OperationRequest) :
    (Json.obj (authorizationMembers r) : Value).Distinct :=
  ClientAuthorization.codec.distinct_encode r.unsigned.authorization

theorem get_authorization (r : OperationRequest) :
    get (requestMembers r) "authorization" = some (.obj (authorizationMembers r)) :=
  rfl

theorem get_signature (r : OperationRequest) :
    get (authorizationMembers r) "signature" = some (hex.encode []) :=
  rfl

/-- The signature of a request is in its last member. -/
theorem dropLast_members_unsigned (r : OperationRequest) :
    (members (OperationRequest.codec.encode r.unsigned)).dropLast =
      (members (OperationRequest.codec.encode r)).dropLast := by
  simp only [OperationRequest.codec, Fields.struct, Fields.field, Fields.done, Codec.map, members,
    OperationRequest.unsigned, Equiv.coe_fn_mk, List.dropLast_cons_cons, List.dropLast_singleton]

theorem members_request (r : OperationRequest) :
    members (OperationRequest.codec.encode r) =
      (members (OperationRequest.codec.encode r)).dropLast ++
        [("authorization", ClientAuthorization.codec.encode r.authorization)] :=
  rfl

theorem requestDigestInput_eq (r : OperationRequest) :
    requestDigestInput r = canonicalInput DigestKind.request.domain (.obj
      (replaceMember "authorization" (.obj (Variants.without "signature" (authorizationMembers r)))
        (requestMembers r))) := by
  rw [requestMembers, members_request r.unsigned, dropLast_members_unsigned,
    replaceMember_append_singleton _ (ClientAuthorization.codec.encode r.authorization),
    ← members_request r]
  rfl

theorem requestDigestInput_eq_iff {r s : OperationRequest}
    (hr : requestDigestInput r = some x) (hs : requestDigestInput s = some y) :
    x = y ↔ r.signed = s.signed := by
  rw [requestDigestInput_eq] at hr hs
  have hwithout : ∀ r, (Json.obj (Variants.without "signature" (authorizationMembers r)) :
      Value).Distinct := fun r => Variants.distinct_without (distinct_authorizationMembers r)
  have hauthorization := reorder_without_iff (distinct_authorizationMembers r)
    (distinct_authorizationMembers s) ((get_signature r).trans (get_signature s).symm)
  calc x = y
      ↔ _ ∧ _ := canonicalInput_eq_iff (DigestKind.zero_notMem_domain _)
        (DigestKind.zero_notMem_domain _) (distinct_replaceMember (distinct_requestMembers r) (hwithout r))
        (distinct_replaceMember (distinct_requestMembers s) (hwithout s)) hr hs
    _ ↔ Reorder (.obj (requestMembers r)) (.obj (requestMembers s)) := by
        rw [reorder_replaceMember_iff (distinct_requestMembers r) (distinct_requestMembers s)
          (hwithout r) (hwithout s) (get_authorization r) (get_authorization s) hauthorization]
        exact and_iff_right rfl
    _ ↔ r.signed = s.signed := by
        rw [← encode_unsigned, ← encode_unsigned, ← OperationRequest.codec.norm_eq_iff,
          OperationRequest.norm_eq, OperationRequest.norm_eq]
        exact Iff.rfl

/-- Encoded objects with one member left out of what is hashed, and that member alike in both. -/
theorem withoutInput_eq_iff {T : Type} {c : Codec T} {k : DigestKind} {name : String} {a b : T}
    (hobj : ∀ a, c.encode a = .obj (members (c.encode a)))
    (hname : get (members (c.encode a)) name = get (members (c.encode b)) name)
    (hx : canonicalInput k.domain (.obj (Variants.without name (members (c.encode a)))) = some x)
    (hy : canonicalInput k.domain (.obj (Variants.without name (members (c.encode b)))) = some y) :
    x = y ↔ c.norm a = c.norm b := by
  have hdistinct : ∀ a, (Json.obj (members (c.encode a)) : Value).Distinct := fun a =>
    hobj a ▸ c.distinct_encode a
  rw [canonicalInput_eq_iff k.zero_notMem_domain k.zero_notMem_domain
    (Variants.distinct_without (hdistinct a)) (Variants.distinct_without (hdistinct b)) hx hy,
    reorder_without_iff (hdistinct a) (hdistinct b) hname, c.norm_eq_iff, hobj a, hobj b]
  exact and_iff_right rfl

theorem descriptorDigestInput_eq (d : WalletDescriptor) :
    descriptorDigestInput d = canonicalInput DigestKind.descriptor.domain (.obj
      (Variants.without "provisioning_signature" (members (WalletDescriptor.codec.encode d.signed)))) :=
  rfl

theorem get_provisioning_signature (d : WalletDescriptor) :
    get (members (WalletDescriptor.codec.encode d)) "provisioning_signature" =
      some (hex.encode d.provisioningSignature) :=
  rfl

theorem descriptorDigestInput_eq_iff {d e : WalletDescriptor}
    (hd : descriptorDigestInput d = some x) (he : descriptorDigestInput e = some y) :
    x = y ↔ d.signed = e.signed := by
  rw [descriptorDigestInput_eq] at hd he
  have hname := (get_provisioning_signature d.signed).trans (get_provisioning_signature e.signed).symm
  rw [withoutInput_eq_iff (fun _ => rfl) hname hd he, WalletDescriptor.norm_eq,
    WalletDescriptor.norm_eq]

theorem walletGrantDigestInput_eq (g : WalletGrant) :
    walletGrantDigestInput g = canonicalInput DigestKind.walletGrant.domain (.obj
      (Variants.without "signature" (members (WalletGrant.codec.encode g.signed)))) :=
  rfl

theorem get_grant_signature (g : WalletGrant) :
    get (members (WalletGrant.codec.encode g)) "signature" = some (hex.encode g.signature) :=
  rfl

theorem walletGrantDigestInput_eq_iff {g h : WalletGrant} (hg : walletGrantDigestInput g = some x)
    (hh : walletGrantDigestInput h = some y) : x = y ↔ g.signed = h.signed := by
  rw [walletGrantDigestInput_eq] at hg hh
  have hname := (get_grant_signature g.signed).trans (get_grant_signature h.signed).symm
  rw [withoutInput_eq_iff (fun _ => rfl) hname hg hh]
  exact Iff.rfl

theorem policySigningDigestInput_eq_iff {p q : ReleasePolicy}
    (hp : policySigningDigestInput p = some x) (hq : policySigningDigestInput q = some y) :
    x = y ↔ p = q := by
  rw [canonicalInput_eq_iff (DigestKind.zero_notMem_domain .policy)
    (DigestKind.zero_notMem_domain .policy) (ReleasePolicy.codec.distinct_encode p)
    (ReleasePolicy.codec.distinct_encode q) hp hq, ← ReleasePolicy.codec.norm_eq_iff,
    ReleasePolicy.norm_eq, ReleasePolicy.norm_eq]
  exact and_iff_right rfl

/-- The members that name the wallet of a descriptor. -/
def bindingFields :=
  Fields.field "network" Network.codec <|
    .field "security_domain_id" (hexArray 32) <|
    .field "turnkey_organization_id" .string <|
    .field "turnkey_wallet_id" .string <|
    .field "address" .string .done

def WalletDescriptor.bindingParts (d : WalletDescriptor) :=
  (d.network, d.securityDomainId, d.turnkeyOrganizationId, d.turnkeyWalletId, d.address, ())

theorem walletBindingDigestInput_eq (d : WalletDescriptor) :
    walletBindingDigestInput d =
      canonicalInput DigestKind.walletBinding.domain (.obj (bindingFields.encode d.bindingParts)) :=
  rfl

theorem walletBindingDigestInput_eq_iff {d e : WalletDescriptor}
    (hd : walletBindingDigestInput d = some x) (he : walletBindingDigestInput e = some y) :
    x = y ↔ d.binding = e.binding := by
  rw [walletBindingDigestInput_eq] at hd he
  calc x = y
      ↔ _ ∧ _ := canonicalInput_eq_iff (DigestKind.zero_notMem_domain _)
        (DigestKind.zero_notMem_domain _) (Fields.obj_distinct_encode d.bindingParts)
        (Fields.obj_distinct_encode e.bindingParts) hd he
    _ ↔ d.bindingParts = e.bindingParts :=
        (and_iff_right rfl).trans
          (Fields.obj_norm_eq_iff (x := d.bindingParts) (y := e.bindingParts)).symm
    _ ↔ d.binding = e.binding := by
        simp [WalletDescriptor.bindingParts, WalletDescriptor.binding]

end Inputs

namespace DigestCall

def kind : DigestCall → Option DigestKind
  | request _ => some .request
  | clientAuth _ => none
  | descriptor _ => some .descriptor
  | walletBinding _ => some .walletBinding
  | walletGrant _ => some .walletGrant
  | policy _ => some .policy
  | result _ => some .result
  | sealedSeed _ => some .sealedSeed
  | walletId _ => some .walletId
  | requestId _ => some .requestId

theorem exists_payload_of_canonicalInput {d x : Bytes} {v : Value}
    (h : canonicalInput d v = some x) : ∃ p, x = domainSeparated d p := by
  obtain ⟨s, -, rfl⟩ := Option.map_eq_some_iff.1 h
  exact ⟨_, rfl⟩

theorem exists_payload {a : DigestCall} {k : DigestKind} {x : Bytes} (hk : a.kind = some k)
    (hx : a.input = some x) : ∃ p, x = domainSeparated k.domain p := by
  cases a with
  | clientAuth _ => cases hk
  | request r =>
    obtain rfl := Option.some.inj hk
    exact exists_payload_of_canonicalInput ((requestDigestInput_eq r).symm.trans hx)
  | descriptor d =>
    obtain rfl := Option.some.inj hk
    exact exists_payload_of_canonicalInput ((descriptorDigestInput_eq d).symm.trans hx)
  | walletBinding d =>
    obtain rfl := Option.some.inj hk
    exact exists_payload_of_canonicalInput ((walletBindingDigestInput_eq d).symm.trans hx)
  | walletGrant g =>
    obtain rfl := Option.some.inj hk
    exact exists_payload_of_canonicalInput ((walletGrantDigestInput_eq g).symm.trans hx)
  | policy _ =>
    obtain rfl := Option.some.inj hk
    exact exists_payload_of_canonicalInput hx
  | result _ | sealedSeed _ | walletId _ | requestId _ =>
    obtain rfl := Option.some.inj hk
    exact ⟨_, (Option.some.inj hx).symm⟩

/-- The byte string of a call tells its constructor. -/
theorem kind_eq_of_input_eq {a b : DigestCall} {x : Bytes} (ha : a.input = some x)
    (hb : b.input = some x) : a.kind = b.kind := by
  -- The message of a client begins with a letter that no domain begins with.
  have hmessage : ∀ (d : ByteArrayOf 32) (k : DigestKind) (p : Bytes),
      utf8 (clientAuthMessage d) ≠ domainSeparated k.domain p := by
    intro d k p h
    have hhead : (utf8 (clientAuthMessage d)).head? = some 115 := by
      rw [clientAuthMessage, utf8_append, utf8_append, List.append_assoc]
      rfl
    rw [h, domainSeparated, List.head?_append, DigestKind.head_domain] at hhead
    cases hhead
  have hnone : ∀ c : DigestCall, c.kind = none → ∃ d, c = clientAuth d := by
    intro c hc
    cases c with
    | clientAuth d => exact ⟨d, rfl⟩
    | _ => cases hc
  cases hka : a.kind with
  | none =>
    cases hkb : b.kind with
    | none => rfl
    | some k =>
      obtain ⟨d, rfl⟩ := hnone a hka
      obtain ⟨p, rfl⟩ := exists_payload hkb hb
      exact absurd (Option.some.inj ha) (hmessage d k p)
  | some k =>
    obtain ⟨p, rfl⟩ := exists_payload hka ha
    cases hkb : b.kind with
    | none =>
      obtain ⟨d, rfl⟩ := hnone b hkb
      exact absurd (Option.some.inj hb) (hmessage d k p)
    | some l =>
      obtain ⟨q, hq⟩ := exists_payload hkb hb
      -- A domain ends at the first NUL, so the byte strings tell their domains.
      have hdomain := (domainSeparated_inj k.zero_notMem_domain l.zero_notMem_domain hq).1
      rw [DigestKind.domain_injective hdomain]

theorem clientAuthMessage_injective : Function.Injective clientAuthMessage := by
  intro d e h
  have hhex : encodeLowerHex d.val = encodeLowerHex e.val := by
    simpa [clientAuthMessage, ← String.toList_inj] using h
  have hdecode := congrArg (decodeLowerHexArray 32) hhex
  rw [decodeLowerHexArray_encode, decodeLowerHexArray_encode] at hdecode
  exact Option.some.inj hdecode

/-- Calls of one constructor hash one byte string exactly when they agree but for what that
constructor leaves out. -/
theorem same_of_kind_eq {a b : DigestCall} {x : Bytes} (hkind : a.kind = b.kind)
    (ha : a.input = some x) (hb : b.input = some x) : a.Same b := by
  -- Of one domain, the bytes that are hashed determine the arguments; each constructor has its
  -- lemma.
  cases a with
  | request r =>
    cases b with
    | request s => exact .request ((requestDigestInput_eq_iff ha hb).1 rfl)
    | _ => cases hkind
  | clientAuth d =>
    cases b with
    | clientAuth e =>
      have htext := utf8_injective (Option.some.inj (ha.trans hb.symm))
      obtain rfl := clientAuthMessage_injective htext
      exact .clientAuth d
    | _ => cases hkind
  | descriptor d =>
    cases b with
    | descriptor e => exact .descriptor ((descriptorDigestInput_eq_iff ha hb).1 rfl)
    | _ => cases hkind
  | walletBinding d =>
    cases b with
    | walletBinding e => exact .walletBinding ((walletBindingDigestInput_eq_iff ha hb).1 rfl)
    | _ => cases hkind
  | walletGrant g =>
    cases b with
    | walletGrant h => exact .walletGrant ((walletGrantDigestInput_eq_iff ha hb).1 rfl)
    | _ => cases hkind
  | policy p =>
    cases b with
    | policy q =>
      obtain rfl := (policySigningDigestInput_eq_iff ha hb).1 rfl
      exact .policy p
    | _ => cases hkind
  | result s =>
    cases b with
    | result t =>
      obtain rfl := domainSeparated_right_inj (Option.some.inj (ha.trans hb.symm))
      exact .result s
    | _ => cases hkind
  | sealedSeed s =>
    cases b with
    | sealedSeed t =>
      obtain rfl := domainSeparated_right_inj (Option.some.inj (ha.trans hb.symm))
      exact .sealedSeed s
    | _ => cases hkind
  | walletId w =>
    cases b with
    | walletId w' =>
      have htext := domainSeparated_right_inj (Option.some.inj (ha.trans hb.symm))
      obtain rfl := utf8_injective htext
      exact .walletId w
    | _ => cases hkind
  | requestId i =>
    cases b with
    | requestId j =>
      have hbytes := domainSeparated_right_inj (Option.some.inj (ha.trans hb.symm))
      obtain rfl := Subtype.ext hbytes
      exact .requestId i
    | _ => cases hkind

theorem input_eq_of_same {a b : DigestCall} {x y : Bytes} (h : a.Same b) (ha : a.input = some x)
    (hb : b.input = some y) : x = y := by
  cases h with
  | request h => exact (requestDigestInput_eq_iff ha hb).2 h
  | descriptor h => exact (descriptorDigestInput_eq_iff ha hb).2 h
  | walletBinding h => exact (walletBindingDigestInput_eq_iff ha hb).2 h
  | walletGrant h => exact (walletGrantDigestInput_eq_iff ha hb).2 h
  | clientAuth | policy | result | sealedSeed | walletId | requestId =>
    exact Option.some.inj (ha.symm.trans hb)

theorem input_eq_iff_same {a b : DigestCall} {x y : Bytes} (ha : a.input = some x)
    (hb : b.input = some y) : x = y ↔ a.Same b := by
  refine ⟨fun h => ?_, fun h => input_eq_of_same h ha hb⟩
  subst h
  exact same_of_kind_eq (kind_eq_of_input_eq ha hb) ha hb

end DigestCall

/-- A digest binds its constructor and its input: two calls hash one byte string exactly when they
are alike, and then alone, their byte strings not being a collision, have they one digest. -/
theorem digest_binding (sha256 : Bytes → ByteArrayOf 32) {a b : DigestCall} {x y : Bytes}
    (ha : a.input = some x) (hb : b.input = some y) :
    (x = y ↔ a.Same b) ∧
      ((sha256 x = sha256 y → x = y) → (a.digest sha256 = b.digest sha256 ↔ a.Same b)) := by
  have hsame := DigestCall.input_eq_iff_same ha hb
  refine ⟨hsame, fun hcollision => ?_⟩
  rw [a.digest_eq, b.digest_eq, ha, hb, Option.map_some, Option.map_some, Option.some.injEq, ← hsame]
  exact ⟨hcollision, congrArg sha256⟩

/-- The last bytes of a byte string, in place of SHA-256. -/
def lastBytes (b : Bytes) : ByteArrayOf 32 :=
  ⟨(b.reverse ++ List.replicate 32 0).take 32, by simp⟩

theorem digest_binding_walletId :
    (DigestCall.walletId "a").digest lastBytes ≠ (DigestCall.walletId "b").digest lastBytes := by
  have hinput : ∀ w, (DigestCall.walletId w).input =
      some (domainSeparated WALLET_ID_HASH_DOMAIN (utf8 w)) := fun _ => rfl
  have hcollision : lastBytes (domainSeparated WALLET_ID_HASH_DOMAIN (utf8 "a")) ≠
      lastBytes (domainSeparated WALLET_ID_HASH_DOMAIN (utf8 "b")) := by decide +kernel
  intro h
  have hsame := ((digest_binding lastBytes (hinput "a") (hinput "b")).2
    fun heq => absurd heq hcollision).1 h
  have hwallet : ∀ v w, (DigestCall.walletId v).Same (.walletId w) → v = w := by
    intro v w hvw
    cases hvw
    rfl
  exact absurd (hwallet _ _ hsame) (by decide)

end ZolanaTvc.Protocol
