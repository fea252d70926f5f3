import ZolanaTvc.Protocol.Binding
import ZolanaTvc.Wallet.JcsAgreement

/-!
# The digests of the client

Each is SHA-256 of a domain tag, a zero byte and a payload, like the enclave's. The values hashed are
the ones that `canonicalizeJsonValue` takes.

## Main results

* `requestDigest_agree`, `descriptorDigest_agree`, `walletGrantDigest_agree`,
  `policySigningDigest_agree`: both sides compute one digest.
* `canonicalizers_agree`: the two sides agree on values, digests and texts.
-/

namespace ZolanaTvc.Wallet

open Except Json Protocol Serde

def REQUEST_DIGEST_DOMAIN : String := "ZOLANA_TVC_REQUEST_V1"

def CLIENT_AUTH_DOMAIN : String := "spr-tvc-client-auth-v1"

def RESULT_DIGEST_DOMAIN : String := "ZOLANA_TVC_RESULT_V1"

def SEALED_SEED_DIGEST_DOMAIN : String := "ZOLANA_TVC_SEALED_SEED_DIGEST_V1"

def RELEASE_POLICY_DOMAIN : String := "ZOLANA_TVC_RELEASE_POLICY_V1"

def PROVISIONING_AUTH_DOMAIN : String := "ZOLANA_TVC_PROVISIONING_AUTH_V1"

def WALLET_GRANT_DOMAIN : String := "ZOLANA_TVC_WALLET_GRANT_V1"

/-- `TextEncoder.encode` -/
def textEncode (s : JsString) : Bytes := utf8 (String.ofList (Utf16.decodeLossy s))

/-- `delete` of a property. -/
def deleteProperty (name : JsString) (ms : List (JsString × JsValue)) :
    List (JsString × JsValue) :=
  ms.filter fun m => m.1 ≠ name

/-- The value without one of its properties. -/
def withoutProperty (name : JsString) : JsValue → JsValue
  | .obj members => .obj (deleteProperty name members)
  | value => value

section Sha256

variable (sha256 : Bytes → ByteArrayOf 32)

def domainSeparatedHash (domain : String) (payload : Bytes) : ByteArrayOf 32 :=
  sha256 (domainSeparated (utf8 domain) payload)

/-- The digest of the canonical text of a value. -/
def canonicalDigest (domain : String) (value : JsValue) : Except Thrown (ByteArrayOf 32) := do
  let text ← canonicalizeJsonValue value
  return domainSeparatedHash sha256 domain (textEncode text)

def requestDigest (request : JsValue) : Except Thrown (ByteArrayOf 32) :=
  match request with
  | .obj cloned =>
    match cloned.lookup (utf16Units "authorization") with
    | some (.obj authorization) => do
      let authorization := deleteProperty (utf16Units "signature") authorization
      refuse (authorization.lookup (utf16Units "client_key_id") = none) (spr "InvalidCanonicalJson")
      canonicalDigest sha256 REQUEST_DIGEST_DOMAIN
        (.obj (defineProperty (utf16Units "authorization") (.obj authorization) cloned))
    | _ => throw (spr "InvalidCanonicalJson")
  | _ => throw (spr "InvalidCanonicalJson")

/-- The text a client key signs for a request. -/
def clientAuthMessage (requestDigestBytes : Bytes) : Except Thrown JsString := do
  refuse (requestDigestBytes.length ≠ 32) (spr "InvalidDigest")
  return utf16Units CLIENT_AUTH_DOMAIN ++ utf16Units ":" ++ bytesToHex requestDigestBytes

def resultDigest (encryptedResult : Bytes) : ByteArrayOf 32 :=
  domainSeparatedHash sha256 RESULT_DIGEST_DOMAIN encryptedResult

def releasePolicyDigest (policyJcs : Bytes) : ByteArrayOf 32 :=
  domainSeparatedHash sha256 RELEASE_POLICY_DOMAIN policyJcs

def policySigningDigest (policy : JsValue) : Except Thrown (ByteArrayOf 32) := do
  let text ← canonicalizeJsonValue policy
  return releasePolicyDigest sha256 (textEncode text)

def descriptorDigest (descriptor : JsValue) : Except Thrown (ByteArrayOf 32) :=
  canonicalDigest sha256 PROVISIONING_AUTH_DOMAIN
    (withoutProperty (utf16Units "provisioning_signature") descriptor)

/-- The grant key signs the grant without its own signature field. -/
def walletGrantDigest (grant : JsValue) : Except Thrown (ByteArrayOf 32) :=
  canonicalDigest sha256 WALLET_GRANT_DOMAIN (withoutProperty (utf16Units "signature") grant)

/-- Digest of the exact sealed-state wire bytes. -/
def sealedSeedDigest (sealedState : Bytes) : ByteArrayOf 32 :=
  domainSeparatedHash sha256 SEALED_SEED_DIGEST_DOMAIN sealedState

end Sha256

theorem textEncode_utf16Units (t : String) : textEncode (utf16Units t) = utf8 t := by
  rw [textEncode, utf16Units, Utf16.decodeLossy_encode, String.ofList_toList]

section Agreement

variable {sha256 : Bytes → ByteArrayOf 32}

/-- Both sides hash one byte string for a value. -/
theorem canonicalDigest_agree {domain : String} {v : Value} (hdistinct : v.Distinct)
    (hsafe : SafeValue v) {w : JsValue} (hw : Reorder (ofValue v) w) :
    ∃ x, canonicalInput (utf8 domain) v = some x ∧
      canonicalDigest sha256 domain w = .ok (sha256 x) := by
  obtain ⟨t, ht, hjs⟩ := canonicalize_agree hdistinct hsafe hw
  refine ⟨domainSeparated (utf8 domain) (utf8 t), by rw [canonicalInput, ht]; rfl, ?_⟩
  rw [canonicalDigest, hjs]
  show Except.ok (domainSeparatedHash sha256 domain (textEncode (utf16Units t))) = _
  rw [textEncode_utf16Units]
  rfl

theorem ofValue_obj (ms : List (String × Value)) :
    ofValue (.obj ms) = .obj (ms.map (Prod.map utf16Units ofValue)) :=
  map_obj _ _ ms

theorem nodup_ofValue {ms : List (String × Value)} (h : (ms.map Prod.fst).Nodup) :
    ((ms.map (Prod.map utf16Units ofValue)).map Prod.fst).Nodup := by
  have hnames : (ms.map (Prod.map utf16Units ofValue)).map Prod.fst =
      (ms.map Prod.fst).map utf16Units := by
    rw [List.map_map, List.map_map]
    rfl
  rw [hnames]
  exact h.map utf16Units_injective

theorem lookup_ofValue (ms : List (String × Value)) (name : String) :
    (ms.map (Prod.map utf16Units ofValue)).lookup (utf16Units name) =
      (get ms name).map ofValue := by
  induction ms with
  | nil => rfl
  | cons m ms ih =>
    obtain ⟨k, v⟩ := m
    by_cases hk : name = k
    · subst hk
      simp
    · have hunits : utf16Units name ≠ utf16Units k := utf16Units_injective.ne hk
      simp [List.lookup_cons, beq_false_of_ne hk, beq_false_of_ne hunits, ih]

theorem deleteProperty_ofValue (ms : List (String × Value)) (name : String) :
    deleteProperty (utf16Units name) (ms.map (Prod.map utf16Units ofValue)) =
      (Variants.without name ms).map (Prod.map utf16Units ofValue) := by
  rw [deleteProperty, Variants.without, List.filter_map]
  refine congrArg _ (List.filter_congr fun m _ => ?_)
  simp [utf16Units_injective.eq_iff]

theorem safe_without {ms : List (String × Value)} (h : SafeValue (.obj ms)) (name : String) :
    SafeValue (.obj (Variants.without name ms)) := by
  obtain ⟨-, -, hvalues⟩ := all_obj.1 h
  exact .obj trivial (fun _ _ => trivial) fun m hm => hvalues m (List.mem_of_mem_filter hm)

/-- Both sides hash one byte string for an object without one of its members. -/
theorem withoutDigest_agree {domain : String} {ms : List (String × Value)}
    (hdistinct : (Json.obj ms : Value).Distinct) (hsafe : SafeValue (.obj ms)) (name : String)
    {w : JsValue} (hw : Reorder (ofValue (.obj ms)) w) :
    ∃ x, canonicalInput (utf8 domain) (.obj (Variants.without name ms)) = some x ∧
      canonicalDigest sha256 domain (withoutProperty (utf16Units name) w) = .ok (sha256 x) := by
  have hms := nodup_ofValue (distinct_obj.1 hdistinct).1
  rw [ofValue_obj] at hw
  obtain ⟨ns, rfl, hns, hlookup⟩ := exists_of_reorder_obj hms hw
  refine canonicalDigest_agree (Variants.distinct_without hdistinct) (safe_without hsafe name) ?_
  rw [ofValue_obj, ← deleteProperty_ofValue]
  exact Reorder.filter_ne hms hns hlookup _

theorem nodup_defineProperty {k : JsString} {v : JsValue} {ps : List (JsString × JsValue)}
    (h : (ps.map Prod.fst).Nodup) : ((defineProperty k v ps).map Prod.fst).Nodup :=
  foldl_defineProperty_nodup [(k, v)] h

theorem lookup_defineProperty (k : JsString) (v : JsValue) (ps : List (JsString × JsValue))
    (l : JsString) : (defineProperty k v ps).lookup l = if l = k then some v else ps.lookup l := by
  induction ps with
  | nil => by_cases hl : l = k <;> simp [defineProperty, List.lookup_cons, hl, beq_false_of_ne]
  | cons m ps ih =>
    obtain ⟨k', v'⟩ := m
    rw [defineProperty]
    by_cases hk : k' = k
    · subst hk
      by_cases hl : l = k' <;> simp [List.lookup_cons, hl, beq_false_of_ne]
    · rw [if_neg hk, List.lookup_cons, List.lookup_cons, ih]
      by_cases hl : l = k'
      · simp [hl, hk]
      · rw [beq_false_of_ne hl]

/-- Objects stay alike when both are given a property. -/
theorem reorder_defineProperty {ms ns : List (JsString × JsValue)} (hms : (ms.map Prod.fst).Nodup)
    (hns : (ns.map Prod.fst).Nodup) (h : ∀ k, Option.Rel Reorder (ms.lookup k) (ns.lookup k))
    {k : JsString} {v w : JsValue} (hvw : Reorder v w) :
    Reorder (.obj (defineProperty k v ms)) (.obj (defineProperty k w ns)) := by
  rw [reorder_obj_iff_lookup (nodup_defineProperty hms) (nodup_defineProperty hns)]
  intro l
  rw [lookup_defineProperty, lookup_defineProperty]
  by_cases hl : l = k
  · rw [if_pos hl, if_pos hl]
    exact .some hvw
  · rw [if_neg hl, if_neg hl]
    exact h l

theorem defineProperty_ofValue {ms : List (String × Value)} {name : String} (v : Value)
    (hms : (ms.map Prod.fst).Nodup) (hname : name ∈ ms.map Prod.fst) :
    (replaceMember name v ms).map (Prod.map utf16Units ofValue) =
      defineProperty (utf16Units name) (ofValue v) (ms.map (Prod.map utf16Units ofValue)) := by
  induction ms with
  | nil => simp at hname
  | cons m ms ih =>
    obtain ⟨k, u⟩ := m
    obtain ⟨hk, hms⟩ := List.nodup_cons.1 hms
    rw [replaceMember] at ih ⊢
    rw [List.map_cons, List.map_cons, List.map_cons, defineProperty, Prod.map_fst]
    by_cases heq : k = name
    · -- No other member has the name.
      have hrest : ms.map (fun m => if m.1 = name then (name, v) else m) = ms := by
        refine (List.map_congr_left fun m hm => if_neg fun hm' => hk ?_).trans (List.map_id ms)
        exact List.mem_map.2 ⟨m, hm, hm'.trans heq.symm⟩
      rw [if_pos heq, if_pos (congrArg utf16Units heq), hrest]
      rfl
    · rw [if_neg heq, if_neg (utf16Units_injective.ne heq), ih hms]
      simpa [Ne.symm heq] using hname

theorem safe_replaceMember {ms : List (String × Value)} (h : SafeValue (.obj ms)) {v : Value}
    (hv : SafeValue v) (name : String) : SafeValue (.obj (replaceMember name v ms)) := by
  obtain ⟨-, -, hvalues⟩ := all_obj.1 h
  refine .obj trivial (fun _ _ => trivial) fun m hm => ?_
  obtain ⟨n, hn, rfl⟩ := List.mem_map.1 hm
  by_cases hname : n.1 = name
  · rwa [if_pos hname]
  · rw [if_neg hname]
    exact hvalues n hn

theorem exists_of_rel_some {o : Option JsValue} {v : Value} (h : Option.Rel Reorder (some (ofValue v)) o) :
    ∃ w, o = some w ∧ Reorder (ofValue v) w := by
  cases h with
  | some h => exact ⟨_, rfl, h⟩

/-- The client hashes a request without its signature as the enclave does. -/
theorem requestDigest_eq_ok {rm am : List (String × Value)}
    (hrm : (Json.obj rm : Value).Distinct) (ham : (Json.obj am : Value).Distinct)
    (hsafe : SafeValue (.obj rm)) (hauthorization : get rm "authorization" = some (.obj am))
    (hkey : (get am "client_key_id").isSome = true) {w : JsValue}
    (hw : Reorder (ofValue (.obj rm)) w) :
    ∃ x, canonicalInput (utf8 REQUEST_DIGEST_DOMAIN) (.obj (replaceMember "authorization"
        (.obj (Variants.without "signature" am)) rm)) = some x ∧
      requestDigest sha256 w = .ok (sha256 x) := by
  have hnodup := (distinct_obj.1 hrm).1
  have hnodup' := nodup_ofValue (distinct_obj.1 ham).1
  rw [ofValue_obj] at hw
  -- Up to the order of the members the client holds the enclave's value.
  obtain ⟨ns, rfl, hns, hlookup⟩ := exists_of_reorder_obj (nodup_ofValue hnodup) hw
  have hrel := hlookup (utf16Units "authorization")
  rw [lookup_ofValue, hauthorization] at hrel
  obtain ⟨a, ha, hreorder⟩ := exists_of_rel_some hrel
  rw [ofValue_obj] at hreorder
  obtain ⟨an, rfl, han, hlookup'⟩ := exists_of_reorder_obj hnodup' hreorder
  have hclient : (deleteProperty (utf16Units "signature") an).lookup (utf16Units "client_key_id") ≠
      none := by
    obtain ⟨id, hid⟩ := Option.isSome_iff_exists.1 hkey
    have hrel' := hlookup' (utf16Units "client_key_id")
    rw [lookup_ofValue, hid] at hrel'
    obtain ⟨id', hid', -⟩ := exists_of_rel_some hrel'
    rw [deleteProperty, lookup_filter_ne, if_neg (utf16Units_injective.ne (by decide)), hid']
    exact Option.some_ne_none id'
  have hmem : "authorization" ∈ rm.map Prod.fst :=
    List.mem_map.2 ⟨_, (lookup_eq_some_iff hnodup).1 hauthorization, rfl⟩
  have hsafe' : SafeValue (.obj am) :=
    (all_obj.1 hsafe).2.2 _ ((lookup_eq_some_iff hnodup).1 hauthorization)
  -- The client deletes the member, the enclave writes the others out.
  have hunsigned : Reorder (ofValue (.obj (Variants.without "signature" am)))
      (.obj (deleteProperty (utf16Units "signature") an)) := by
    rw [ofValue_obj, ← deleteProperty_ofValue]
    exact Reorder.filter_ne hnodup' han hlookup' _
  have hreplaced : Reorder (ofValue (.obj (replaceMember "authorization"
        (.obj (Variants.without "signature" am)) rm)))
      (.obj (defineProperty (utf16Units "authorization")
        (.obj (deleteProperty (utf16Units "signature") an)) ns)) := by
    rw [ofValue_obj, defineProperty_ofValue _ hnodup hmem]
    exact reorder_defineProperty (nodup_ofValue hnodup) hns hlookup hunsigned
  -- Order does not matter to the canonical text, so the digests agree.
  obtain ⟨x, hx, hjs⟩ := canonicalDigest_agree
    (distinct_replaceMember hrm (Variants.distinct_without ham))
    (safe_replaceMember hsafe (safe_without hsafe' _) _) hreplaced
  refine ⟨x, hx, ?_⟩
  simp only [requestDigest, ha, bind_eq_ok, refuse_eq_ok, exists_const]
  exact ⟨hclient, hjs⟩

/-- The request digest that the client signs is the one the enclave checks. -/
theorem requestDigest_agree {r : OperationRequest}
    (hsafe : SafeValue (OperationRequest.codec.encode r)) {w : JsValue}
    (hw : Reorder (ofValue (OperationRequest.codec.encode r)) w) :
    ∃ d, Protocol.requestDigest sha256 r = some d ∧ requestDigest sha256 w = .ok d := by
  obtain ⟨x, hx, hjs⟩ := requestDigest_eq_ok (OperationRequest.codec.distinct_encode r)
    (ClientAuthorization.codec.distinct_encode r.authorization) hsafe rfl rfl hw
  have hinput : requestDigestInput r = some x := hx
  exact ⟨sha256 x, by rw [Protocol.requestDigest, hinput]; rfl, hjs⟩

theorem descriptorDigest_agree {d : WalletDescriptor}
    (hsafe : SafeValue (WalletDescriptor.codec.encode d)) {w : JsValue}
    (hw : Reorder (ofValue (WalletDescriptor.codec.encode d)) w) :
    ∃ digest, Protocol.descriptorDigest sha256 d = some digest ∧
      descriptorDigest sha256 w = .ok digest := by
  obtain ⟨x, hx, hjs⟩ := withoutDigest_agree (WalletDescriptor.codec.distinct_encode d) hsafe
    "provisioning_signature" hw
  have hinput : descriptorDigestInput d = some x := hx
  exact ⟨sha256 x, by rw [Protocol.descriptorDigest, hinput]; rfl, hjs⟩

theorem walletGrantDigest_agree {g : WalletGrant} (hsafe : SafeValue (WalletGrant.codec.encode g))
    {w : JsValue} (hw : Reorder (ofValue (WalletGrant.codec.encode g)) w) :
    ∃ digest, Protocol.walletGrantDigest sha256 g = some digest ∧
      walletGrantDigest sha256 w = .ok digest := by
  obtain ⟨x, hx, hjs⟩ := withoutDigest_agree (WalletGrant.codec.distinct_encode g) hsafe
    "signature" hw
  have hinput : walletGrantDigestInput g = some x := hx
  exact ⟨sha256 x, by rw [Protocol.walletGrantDigest, hinput]; rfl, hjs⟩

theorem policySigningDigest_agree {p : Protocol.ReleasePolicy}
    (hsafe : SafeValue (Protocol.ReleasePolicy.codec.encode p)) {w : JsValue}
    (hw : Reorder (ofValue (Protocol.ReleasePolicy.codec.encode p)) w) :
    ∃ digest, Protocol.policySigningDigest sha256 p = some digest ∧
      policySigningDigest sha256 w = .ok digest := by
  obtain ⟨x, hx, hjs⟩ := canonicalDigest_agree (Protocol.ReleasePolicy.codec.distinct_encode p)
    hsafe hw
  have hinput : policySigningDigestInput p = some x := hx
  exact ⟨sha256 x, by rw [Protocol.policySigningDigest, hinput]; rfl, hjs⟩

end Agreement

/-- The values of the client whose strings are text and whose numbers are safe integers. -/
def SafeJsValue (w : JsValue) : Prop :=
  w.All (fun k => (Utf16.decode k).isSome = true)
    (fun x => ∃ n, ∃ h : IsSafe n, x = .finite (Binary64.ofInt n h.le)) fun _ => True

/-- The client holds no such value that the enclave does not. -/
theorem exists_ofValue_of_safe {w : JsValue} (hdistinct : w.Distinct) (hsafe : SafeJsValue w) :
    ∃ v : Value, v.Distinct ∧ SafeValue v ∧ ofValue v = w := by
  obtain ⟨v, rfl, hv⟩ := exists_map (f := utf16Units) (g := JsNumber.ofNumber) (P := SafeNumber)
    (hsafe.mono
      (fun k hk => by
        obtain ⟨cs, hcs⟩ := Option.isSome_iff_exists.1 hk
        refine ⟨String.ofList cs, ?_⟩
        rw [utf16Units, String.toList_ofList]
        exact Utf16.encode_of_decode hcs)
      (fun x hx => by
        obtain ⟨n, hn, rfl⟩ := hx
        have hrange := hn.lt
        refine ⟨.int n (by rw [abs_lt] at hrange; omega), hn, ?_⟩
        rw [JsNumber.ofNumber, ofNumeral_ofInt hn])
      fun _ _ => trivial)
  exact ⟨v, (distinct_map utf16Units_injective).1 hdistinct, hv, rfl⟩

/-- The two canonicalizers agree: they write one text for a value whose numbers are safe integers, so
that both sides compute one digest of a request, a descriptor, a grant and a policy, and they accept
the same texts of such numbers. -/
theorem canonicalizers_agree (sha256 : Bytes → ByteArrayOf 32) :
    (∀ w : JsValue, w.Distinct → SafeJsValue w →
      ∃ v : Document, SafeValue v.val ∧ ofValue v.val = w) ∧
    (∀ v : Document, SafeValue v.val → ∀ w : JsValue, Reorder (ofValue v.val) w →
      ∃ t, Protocol.canonicalizeJsonValue v.val = some t ∧
        canonicalizeJsonValue w = .ok (utf16Units t)) ∧
    (∀ r : OperationRequest, SafeValue (OperationRequest.codec.encode r) →
      ∀ w : JsValue, Reorder (ofValue (OperationRequest.codec.encode r)) w →
        ∃ d, Protocol.requestDigest sha256 r = some d ∧ requestDigest sha256 w = .ok d) ∧
    (∀ e : WalletDescriptor, SafeValue (WalletDescriptor.codec.encode e) →
      ∀ w : JsValue, Reorder (ofValue (WalletDescriptor.codec.encode e)) w →
        ∃ d, Protocol.descriptorDigest sha256 e = some d ∧ descriptorDigest sha256 w = .ok d) ∧
    (∀ g : WalletGrant, SafeValue (WalletGrant.codec.encode g) →
      ∀ w : JsValue, Reorder (ofValue (WalletGrant.codec.encode g)) w →
        ∃ d, Protocol.walletGrantDigest sha256 g = some d ∧ walletGrantDigest sha256 w = .ok d) ∧
    (∀ p : Protocol.ReleasePolicy, SafeValue (Protocol.ReleasePolicy.codec.encode p) →
      ∀ w : JsValue, Reorder (ofValue (Protocol.ReleasePolicy.codec.encode p)) w →
        ∃ d, Protocol.policySigningDigest sha256 p = some d ∧
          policySigningDigest sha256 w = .ok d) ∧
    (∀ t : String, SafeText t → isRfc8785 (utf16Units t) = Protocol.isRfc8785 t) := by
  refine ⟨fun w hdistinct hsafe => ?_,
    fun v hsafe w hw => canonicalize_agree v.property hsafe hw,
    fun r hsafe w hw => requestDigest_agree hsafe hw,
    fun e hsafe w hw => descriptorDigest_agree hsafe hw,
    fun g hsafe w hw => walletGrantDigest_agree hsafe hw,
    fun p hsafe w hw => policySigningDigest_agree hsafe hw,
    fun t ht => isRfc8785_agree ht⟩
  obtain ⟨v, hv, hv', rfl⟩ := exists_ofValue_of_safe hdistinct hsafe
  exact ⟨⟨v, hv⟩, hv', rfl⟩

end ZolanaTvc.Wallet
