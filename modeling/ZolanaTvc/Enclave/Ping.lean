import ZolanaTvc.Enclave.SeedBinding
import ZolanaTvc.Enclave.Authorization
import ZolanaTvc.Protocol.Uniqueness

/-!
# The ping endpoint, and the kinds of plaintext

The quorum key decrypts challenges, operation requests and the contents of sealed seeds, each for one
reader.

## Main results

* `plaintext_kinds`: no plaintext is of two kinds.
* `handlePing_refuses`, `execute_refuses`, `unseal_refuses`: a reader answers `InvalidRequest` to a
  plaintext that is not of its kind.
-/

namespace ZolanaTvc.Enclave

open Protocol Except Json Serde

variable {N V : Type}

/-- The challenge that `handle_ping` finds in a request body, and signs. -/
def pingPayload (state : AppState N V) (body : Bytes) : Except Failure String := do
  let body ← ofOption (fromUtf8 body) .invalid
  let request ← ofOption (parseQosPingRequest body) .invalid
  refuse (request.version ≠ API_VERSION) .invalid
  let plaintext ← ofOption (state.runtime.quorum.decrypt request.encryptedChallenge) .invalid
  let proofPayload ← ofOption (fromUtf8 plaintext) .invalid
  let challenge ← ofOption (parseQosPingChallenge proofPayload) .invalid
  refuse (challenge.version ≠ API_VERSION ∨ challenge.type ≠ TVC_QOS_PING_PROOF_TYPE ∨
    isRfc8785 proofPayload = false) .invalid
  return proofPayload

def handlePing (state : AppState N V) (body : Bytes) : Except Failure String := do
  let proofPayload ← pingPayload state body
  let signature ← ofOption (state.runtime.ephemeral.sign (utf8 proofPayload)) .unavailable
  let response : QosPingResponse :=
    { version := API_VERSION
      tvcAppProof :=
        ⟨TVC_APP_PROOF_SCHEME, state.runtime.ephemeral.publicKey, proofPayload, signature⟩ }
  ofOption (jcsSerialize QosPingResponse.codec response) .unavailable

/-- What the quorum key decrypts. -/
inductive PlaintextKind where
  | pingChallenge
  | operationRequest
  | unsealedSeed
deriving DecidableEq

/-- The reader of a kind takes the plaintext, whatever else it checks of what it has read. -/
def PlaintextKind.Reads : PlaintextKind → Bytes → Prop
  | .pingChallenge, plaintext => ∃ t challenge, fromUtf8 plaintext = some t ∧
      isRfc8785 t = true ∧ parseQosPingChallenge t = some challenge ∧
      challenge.version = API_VERSION ∧ challenge.type = TVC_QOS_PING_PROOF_TYPE
  | .operationRequest, plaintext => ∃ t request, fromUtf8 plaintext = some t ∧
      isRfc8785 t = true ∧ parseOperationRequest t = some request
  | .unsealedSeed, plaintext => ∃ contents,
      Borsh.tryFromSlice UnsealedSeed.borsh plaintext = some contents ∧
      contents.version = API_VERSION

section Shapes

/-- The members of an object that is read as a challenge. -/
structure ChallengeMembers (ms : List (String × Value)) (challenge : QosPingChallenge) : Prop where
  names : ms.map Prod.fst ⊆ ["type", "version", "challenge"]
  type : get ms "type" = some (.str challenge.type)
  version : ∃ h, get ms "version" = some (.num (.int challenge.version.toNat h))
  challenge : get ms "challenge" = some (.str (encodeLowerHex challenge.challenge.val))

theorem challenge_shape {v : Value} {challenge : QosPingChallenge}
    (h : QosPingChallenge.codec.decode .value v = some challenge) :
    (∃ ms, v = .obj ms ∧ ChallengeMembers ms challenge) ∨
      ∃ hn, v = .arr [.str challenge.type, .num (.int challenge.version.toNat hn),
        .str (encodeLowerHex challenge.challenge.val)] := by
  rcases Fields.struct_decode_eq_some.1 h with ⟨ms, rfl, hnames, hfields⟩ | ⟨vs, rfl, hfields⟩
  · simp only [Fields.decodeNamed_field] at hfields
    obtain ⟨⟨t, ht, htype⟩, ⟨n, hn, hversion⟩, ⟨b, hb, hbytes⟩, -⟩ := hfields
    obtain rfl := string_decode_eq_some htype
    obtain ⟨hrange, rfl⟩ := u8_decode_eq_some hversion
    obtain rfl := hexArray_decode_eq_some hbytes
    exact .inl ⟨ms, rfl, hnames, ht, ⟨hrange, hn⟩, hb⟩
  · simp only [Fields.decodeSeq_field, Fields.decodeSeq_done] at hfields
    obtain ⟨_, _, rfl, htype, _, _, rfl, hversion, _, _, rfl, hbytes, rfl⟩ := hfields
    obtain rfl := string_decode_eq_some htype
    obtain ⟨hrange, rfl⟩ := u8_decode_eq_some hversion
    obtain rfl := hexArray_decode_eq_some hbytes
    exact .inr ⟨hrange, rfl⟩

/-- A request is an object with a member that no challenge has, or an array that starts with its
version, where a challenge starts with its type. -/
theorem request_shape {v : Value} {request : OperationRequest}
    (h : OperationRequest.codec.decode .value v = some request) :
    (∃ ms w, v = .obj ms ∧ get ms "request_id" = some w) ∨ ∃ n vs, v = .arr (.num n :: vs) := by
  rcases Fields.struct_decode_eq_some.1 h with ⟨ms, rfl, -, hfields⟩ | ⟨vs, rfl, hfields⟩
  · obtain ⟨-, hfields⟩ := Fields.decodeNamed_field.1 hfields
    obtain ⟨⟨w, hw, -⟩, -⟩ := Fields.decodeNamed_field.1 hfields
    exact .inl ⟨ms, w, rfl, hw⟩
  · obtain ⟨w, ws, rfl, hversion, -⟩ := Fields.decodeSeq_field.1 hfields
    obtain ⟨hrange, rfl⟩ := u8_decode_eq_some hversion
    exact .inr ⟨_, ws, rfl⟩

theorem not_challenge_and_request {v : Value} {challenge : QosPingChallenge}
    {request : OperationRequest} (hc : QosPingChallenge.codec.decode .value v = some challenge)
    (hr : OperationRequest.codec.decode .value v = some request) : False := by
  rcases challenge_shape hc with ⟨ms, rfl, hms⟩ | ⟨hn, rfl⟩
  · rcases request_shape hr with ⟨_, w, heq, hw⟩ | ⟨_, _, heq⟩
    · cases heq
      exact absurd (hms.names (Fields.mem_names_of_lookup hw)) (by decide)
    · cases heq
  · rcases request_shape hr with ⟨_, w, heq, -⟩ | ⟨_, _, heq⟩ <;> cases heq

/-- What is read as a challenge or a request is an object or an array. -/
def IsCompound : Value → Prop
  | .obj _ | .arr _ => True
  | _ => False

theorem isCompound_of_decode {A T : Type} {fs : Fields A} {e : T ≃ A} {s : Source} {v : Value} {x : T}
    (h : (fs.struct e).decode s v = some x) : IsCompound v := by
  rcases Fields.struct_decode_eq_some.1 h with ⟨_, rfl, -⟩ | ⟨_, rfl, -⟩ <;> trivial

theorem head?_utf8 {c : Char} {cs : List Char} (hc : c = '{' ∨ c = '[') :
    (utf8 (String.ofList (c :: cs))).head? ≠ some 1 := by
  have hsplit : String.ofList (c :: cs) = String.ofList [c] ++ String.ofList cs := by
    rw [← String.ofList_append, List.singleton_append]
  rw [hsplit, utf8_append]
  rcases hc with rfl | rfl
  · have hfirst : utf8 (String.ofList ['\x7b']) = [0x7b] := by decide
    rw [hfirst]
    exact fun h => absurd (Option.some.inj h) (by decide)
  · have hfirst : utf8 (String.ofList ['[']) = [0x5b] := by decide
    rw [hfirst]
    exact fun h => absurd (Option.some.inj h) (by decide)

/-- A canonical text of one of them does not start with the byte that the contents of a seed do. -/
theorem head?_canonical {t : String} {v : Value} (hv : strictValue t = some v)
    (hcanonical : isRfc8785 t = true) (hcompound : IsCompound v) : (utf8 t).head? ≠ some 1 := by
  have ht := canonicalizeJsonValue_eq_some.1 ((isRfc8785_iff_strictValue hv).1 hcanonical)
  rw [← String.ofList_toList (s := t)]
  cases v with
  | obj ms =>
    obtain ⟨_, -, heq⟩ := Writer.append_obj ht
    rw [heq]
    exact head?_utf8 (.inl rfl)
  | arr vs =>
    obtain ⟨_, -, heq⟩ := Writer.append_arr ht
    rw [heq]
    exact head?_utf8 (.inr rfl)
  | _ => exact hcompound.elim

theorem head?_seed {p : Bytes} {contents : UnsealedSeed}
    (h : Borsh.tryFromSlice UnsealedSeed.borsh p = some contents) :
    p.head? = some contents.version := by
  have hvec := Borsh.tryFromSlice_eq_some_iff.1 h
  simp only [Borsh.toVec, UnsealedSeed.borsh, Borsh.Codec.map, Borsh.Codec.refine] at hvec
  obtain ⟨first, rest, hfirst, -, rfl⟩ := Borsh.Codec.encode_pair_eq_some hvec
  obtain rfl := Option.some.inj hfirst
  exact congrArg some (UInt8.ofNat_toNat (x := contents.version))

/-- No plaintext is of two kinds. -/
theorem plaintext_kinds {k l : PlaintextKind} {p : Bytes} (hk : k.Reads p) (hl : l.Reads p) :
    k = l := by
  -- Both are JSON, and no value decodes as a challenge and as a request.
  have hchallenge : ∀ {p}, PlaintextKind.pingChallenge.Reads p →
      ¬PlaintextKind.operationRequest.Reads p := by
    rintro p ⟨t, challenge, ht, -, hparse, -⟩ ⟨t', request, ht', -, hparse'⟩
    obtain rfl : t = t' := Option.some.inj (ht.symm.trans ht')
    obtain ⟨v, hv, hc⟩ := Option.bind_eq_some_iff.1 hparse
    obtain ⟨v', hv', hr⟩ := Option.bind_eq_some_iff.1 hparse'
    obtain rfl : v = v' := Option.some.inj (hv.symm.trans hv')
    exact not_challenge_and_request hc hr
  -- A seed begins with its version byte 1, which no canonical JSON text of a compound value begins
  -- with.
  have hseed : ∀ {p}, PlaintextKind.unsealedSeed.Reads p →
      ¬PlaintextKind.pingChallenge.Reads p ∧ ¬PlaintextKind.operationRequest.Reads p := by
    rintro p ⟨contents, hcontents, hversion⟩
    have hhead : p.head? = some 1 := (head?_seed hcontents).trans (congrArg some hversion)
    constructor
    · rintro ⟨t, challenge, ht, hcanonical, hparse, -⟩
      obtain ⟨v, hv, hc⟩ := Option.bind_eq_some_iff.1 hparse
      rw [← utf8_of_fromUtf8 ht] at hhead
      exact head?_canonical hv hcanonical (isCompound_of_decode hc) hhead
    · rintro ⟨t, request, ht, hcanonical, hparse⟩
      obtain ⟨v, hv, hr⟩ := Option.bind_eq_some_iff.1 hparse
      rw [← utf8_of_fromUtf8 ht] at hhead
      exact head?_canonical hv hcanonical (isCompound_of_decode hr) hhead
  cases k <;> cases l <;> first
    | rfl
    | exact absurd hl (hchallenge hk)
    | exact absurd hk (hchallenge hl)
    | exact absurd hl (hseed hk).1
    | exact absurd hl (hseed hk).2
    | exact absurd hk (hseed hl).1
    | exact absurd hk (hseed hl).2

end Shapes

section Readers

variable {state : AppState N V}

theorem pingPayload_eq_ok {body : Bytes} {t : String} :
    pingPayload state body = .ok t ↔ ∃ u request p challenge, fromUtf8 body = some u ∧
      parseQosPingRequest u = some request ∧ request.version = API_VERSION ∧
      state.runtime.quorum.decrypt request.encryptedChallenge = some p ∧ fromUtf8 p = some t ∧
      parseQosPingChallenge t = some challenge ∧ challenge.version = API_VERSION ∧
      challenge.type = TVC_QOS_PING_PROOF_TYPE ∧ isRfc8785 t = true := by
  simp only [pingPayload, bind_eq_ok, refuse_eq_ok, ofOption_eq_ok, exists_const, pure_eq_ok,
    not_or, not_not, ne_eq, Bool.not_eq_false]
  constructor
  · rintro ⟨u, hu, request, hrequest, hversion, p, hp, t, ht, challenge, hchallenge,
      ⟨hcversion, htype, hcanonical⟩, rfl⟩
    exact ⟨u, request, p, challenge, hu, hrequest, hversion, hp, ht, hchallenge, hcversion, htype,
      hcanonical⟩
  · rintro ⟨u, request, p, challenge, hu, hrequest, hversion, hp, ht, hchallenge, hcversion, htype,
      hcanonical⟩
    exact ⟨u, hu, request, hrequest, hversion, p, hp, t, ht, challenge, hchallenge,
      ⟨hcversion, htype, hcanonical⟩, rfl⟩

theorem pingPayload_error {body : Bytes} {failure : Failure}
    (h : pingPayload state body = .error failure) : failure = .invalid := by
  simp only [pingPayload, bind_eq_error, refuse_eq_error, ofOption_eq_error, pure_ne_error] at h
  grind

/-- `handle_ping` refuses a plaintext that is no challenge. -/
theorem handlePing_refuses {body p : Bytes} {u : String} {request : QosPingRequest}
    (hu : fromUtf8 body = some u) (hrequest : parseQosPingRequest u = some request)
    (hp : state.runtime.quorum.decrypt request.encryptedChallenge = some p)
    (hkind : ¬PlaintextKind.pingChallenge.Reads p) : handlePing state body = .error .invalid := by
  cases hpayload : pingPayload state body with
  | error failure =>
    rw [handlePing, hpayload, pingPayload_error hpayload]
    rfl
  | ok t =>
    obtain ⟨u', request', p', challenge, hu', hrequest', -, hp', ht, hchallenge, hversion, htype,
      hcanonical⟩ := pingPayload_eq_ok.1 hpayload
    obtain rfl : u = u' := Option.some.inj (hu.symm.trans hu')
    obtain rfl : request = request' := Option.some.inj (hrequest.symm.trans hrequest')
    obtain rfl : p = p' := Option.some.inj (hp.symm.trans hp')
    exact absurd ⟨t, challenge, ht, hcanonical, hchallenge, hversion, htype⟩ hkind

/-- `execute` refuses a plaintext that is no request, and runs nothing. -/
theorem execute_refuses {env : Environment} {body p : Bytes} {u : String}
    {encrypted : EncryptedRequest} (hu : fromUtf8 body = some u)
    (hencrypted : parseEncryptedRequest u = some encrypted)
    (hp : state.runtime.quorum.decrypt encrypted.ciphertext = some p)
    (hkind : ¬PlaintextKind.operationRequest.Reads p) :
    execute state env body = ⟨none, .error .invalid⟩ := by
  have hauthorize : authorize state env body = .error .invalid := by
    simp only [authorize, hu, hencrypted, hp, ofOption_some, ok_bind]
    cases checkEncryptedRequestBindings encrypted state.info with
    | error code => rfl
    | ok _ =>
      cases ht : fromUtf8 p with
      | none => rfl
      | some t =>
        by_cases hcanonical : isRfc8785 t = true
        · cases hrequest : parseOperationRequest t with
          | none =>
            simp [expect, refuse, hcanonical, hrequest, ofOption_none, ok_bind, error_bind, ofOption_some]
          | some request => exact absurd ⟨t, request, ht, hcanonical, hrequest⟩ hkind
        · simp [expect, refuse, hcanonical, ok_bind, error_bind, ofOption_some]
  rw [execute, hauthorize]

theorem unseal_error {request : OperationRequest} {failure : Failure}
    (h : Sealed.unseal request state.runtime = .error failure) : failure = .invalid := by
  simp only [Sealed.unseal, Roles.fromSeed, bind_eq_error, refuse_eq_error, ofOption_eq_error,
    pure_ne_error] at h
  grind

/-- `unseal` refuses contents that are those of no seed. -/
theorem unseal_refuses {request : OperationRequest} {bytes p : Bytes} {envelope : SealedSeed}
    (hbytes : request.sealedSeed = some bytes)
    (henvelope : Borsh.tryFromSlice SealedSeed.borsh bytes = some envelope)
    (hp : state.runtime.quorum.decrypt envelope.ciphertext = some p)
    (hkind : ¬PlaintextKind.unsealedSeed.Reads p) :
    Sealed.unseal request state.runtime = .error .invalid := by
  cases hunseal : Sealed.unseal request state.runtime with
  | error failure => rw [unseal_error hunseal]
  | ok opened =>
    obtain ⟨bytes', envelope', contents, owner, hbytes', hopens, -, -, ⟨hversion, -⟩, -⟩ :=
      unseal_eq_ok.1 hunseal
    obtain rfl : bytes = bytes' := Option.some.inj (hbytes.symm.trans hbytes')
    obtain rfl : envelope = envelope' := Option.some.inj (henvelope.symm.trans hopens.outer)
    obtain ⟨p', hp', hcontents⟩ := hopens.inner
    obtain rfl : p = p' := Option.some.inj (hp.symm.trans hp')
    exact absurd ⟨contents, hcontents, hversion⟩ hkind

end Readers

section Answers

variable {state : AppState N V}

/-- What `handle_ping` returns is a proof over what it signs. -/
theorem handlePing_eq_ok {body : Bytes} {text : String} (h : handlePing state body = .ok text) :
    ∃ response, pingPayload state body = .ok response.tvcAppProof.proofPayload ∧
      jcsSerialize QosPingResponse.codec response = some text := by
  simp only [handlePing, bind_eq_ok, ofOption_eq_ok] at h
  obtain ⟨t, ht, signature, -, htext⟩ := h
  exact ⟨_, ht, htext⟩

/-- The JSON of a text is an object. -/
def IsObjectText (t : String) : Prop := ∃ ms, strictValue t = some (.obj ms)

/-- What `handle_ping` signs is the canonical text of a challenge if and only if it is an object. -/
theorem challengeText_iff {body : Bytes} {t : String} (h : pingPayload state body = .ok t) :
    (∃ challenge, jcsSerialize QosPingChallenge.codec challenge = some t) ↔ IsObjectText t := by
  obtain ⟨u, request, p, challenge, -, -, -, -, -, hchallenge, -, -, hcanonical⟩ :=
    pingPayload_eq_ok.1 h
  obtain ⟨v, hv, hdecode⟩ := Option.bind_eq_some_iff.1 hchallenge
  have ht := (isRfc8785_iff_strictValue hv).1 hcanonical
  have hdistinct := (distinct_of_strictValue hv).1
  constructor
  · rintro ⟨challenge', hserialize⟩
    have hreorder := (canonicalize_eq_iff hdistinct (QosPingChallenge.codec.distinct_encode _)
      (exists_canonicalize_iff.1 ⟨t, ht⟩) (exists_canonicalize_iff.1 ⟨t, hserialize⟩)).1
      (ht.trans hserialize.symm)
    generalize hw : QosPingChallenge.codec.encode challenge' = w at hreorder
    cases hreorder with
    | obj _ _ _ => exact ⟨_, hv⟩
    | _ => exact absurd hw (by intro hw; cases hw)
  · rintro ⟨ms, hms⟩
    obtain rfl := Option.some.inj (hv.symm.trans hms)
    have hemitted : QosPingChallenge.codec.emitted .value (.obj ms) :=
      ⟨ms, rfl, fun _ _ => trivial, fun _ _ => trivial, fun _ _ => trivial, trivial⟩
    exact ⟨challenge, (jcsSerialize_eq_some_iff hcanonical hv hdecode).2 hemitted⟩

/-- What an answer to an operation is signed over. -/
theorem respond_payload {env : Environment} {a : Admitted} {result : OperationResult}
    {digest : ByteArrayOf 32} {response : EncryptedResponse}
    (h : respond state env a result digest = .ok response) :
    ∃ proof, jcsSerialize OperationProofPayload.codec proof =
      some response.tvcAppProof.proofPayload := by
  obtain ⟨proof, hproof, -⟩ := (respond_eq_ok h).proof
  exact ⟨proof, hproof⟩

end Answers

end ZolanaTvc.Enclave
