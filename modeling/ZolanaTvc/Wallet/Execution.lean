import ZolanaTvc.Wallet.Operations
import ZolanaTvc.Wallet.RequestSize

/-!
# What the client takes for an answer

The backend answers with any text. The client finds an App Proof in it, decrypts the result that the proof
names, and checks the result against the operation.

## Main results

* `OperationExecutor.answer_sound`: what the client returns is bound to the request that it sent.
-/

namespace ZolanaTvc.Wallet.OperationExecutor

open Except Effectful Json Protocol

section Execution

variable {BootProof : Type} (c : QosCrypto)
  (trustVerifier : TurnkeyAppProofWire → BootProof → Except Thrown Unit)

/-- The App Proof must name exactly the sealed seed that was presented. -/
def checkPresented (digest : Option JsValue) : Option JsString → Except Thrown Unit
  | none => return
  | some seed => do
    let bytes ← decodeLowerHex seed
    refuse (digest ≠ some (.str (bytesToHex (sealedSeedDigest c.sha256 bytes).val)))
      (spr "ReleaseBindingMismatch")

/-- Runs one operation through the encrypted envelope and returns its checked result. -/
def executeOperation (context : OperationExecutionContext) (operation : Operation)
    (sealedSeed : Option JsString) (r : Readings BootProof) : Call JsValue := do
  ofExcept (throwIfAborted r.aborted)
  let (plaintext, digest) ←
    executeOperationEnvelope c trustVerifier context operation.value sealedSeed r
  ofExcept (checkPresented c digest sealedSeed)
  let result ← ofExcept (parseStrictJson plaintext none)
  ofExcept (checkResult c.sha256 result operation digest)
  return result

end Execution

section Parse

/-- No object that `JSON.parse` makes has a name twice. -/
theorem distinct_of_read {t : Json.Tree UInt16} {v : JsValue} (h : jsReader.read t = some v) :
    v.Distinct := by
  induction t using Json.induct generalizing v with
  | null =>
    obtain rfl := Option.some.inj h
    exact .null
  | bool b =>
    obtain rfl := Option.some.inj h
    exact .bool b
  | num n =>
    obtain rfl := Option.some.inj h
    exact .num trivial
  | str s =>
    obtain rfl := Option.some.inj h
    exact .str trivial
  | arr ts ih =>
    rw [Reader.read, Reader.readItems_eq] at h
    obtain ⟨vs, hvs, rfl⟩ := Option.map_eq_some_iff.1 h
    refine distinct_arr.2 fun v hv => ?_
    obtain ⟨t, ht, hread⟩ := exists_mem_left (mapM_eq_some_iff.1 hvs) hv
    exact ih t ht hread
  | obj ms ih =>
    rw [Reader.read, Reader.readMembers_eq] at h
    obtain ⟨_, hms, rfl⟩ := Option.map_eq_some_iff.1 h
    obtain ⟨ns, hns, harrange⟩ := Option.bind_eq_some_iff.1 hms
    obtain rfl := Option.some.inj harrange
    -- Of equal names the last one stays, so the object made has each name once.
    refine distinct_obj.2 ⟨nodup_ofMembers ns, fun n hn => ?_⟩
    obtain ⟨m, hm, hread⟩ := exists_mem_left (mapM_eq_some_iff.1 hns) (ofMembers_subset ns hn)
    obtain ⟨k, -, hvalue⟩ := Option.bind_eq_some_iff.1 hread
    obtain ⟨v, hv, rfl⟩ := Option.map_eq_some_iff.1 hvalue
    exact ih m hm hv

theorem distinct_of_jsonParse {text : JsString} {v : JsValue} (h : jsonParse text = some v) :
    v.Distinct := by
  obtain ⟨t, -, hread⟩ := Option.bind_eq_some_iff.1 h
  exact distinct_of_read hread

end Parse

section Results

variable {sha256 : Bytes → ByteArrayOf 32} {operation : Operation} {result payload : JsValue}
  {digest : Option JsValue} {keys : List String}

/-- An object with just these names. -/
def HasKeys (value : JsValue) (keys : List String) : Prop :=
  ∃ members, value = .obj members ∧ (members.map Prod.fst).Perm (keys.map utf16Units)

/-- So many byte strings in hex, of a length if there is one. -/
def HexList (value : Option JsValue) (count : ℕ) (length : Option ℕ) : Prop :=
  ∃ bs : List Bytes, value = some (.arr (bs.map fun b => .str (bytesToHex b))) ∧ bs.length = count ∧
    ∀ b ∈ bs, ∀ n ∈ length, b.length = n

theorem hasKeys_of_assert {value : Option JsValue} {code : String} (distinct : ∀ v ∈ value, v.Distinct)
    (h : assertExactObjectKeys value keys code = .ok ()) : ∃ v, value = some v ∧ HasKeys v keys := by
  unfold assertExactObjectKeys at h
  split at h
  · next members =>
    simp only [bind_eq_ok, refuse_eq_ok, exists_const, Bool.not_eq_true, List.any_eq_false, not_not,
      Bool.not_eq_false'] at h
    obtain ⟨hknown, hlength⟩ := h
    have hnodup := (distinct_obj.1 (distinct _ rfl)).1
    have hsubset : members.map Prod.fst ⊆ keys.map utf16Units := by
      intro name hname
      obtain ⟨m, hm, rfl⟩ := List.mem_map.1 hname
      exact List.contains_iff_mem.1 (hknown m hm)
    refine ⟨_, rfl, members, rfl, (List.subperm_of_subset hnodup hsubset).perm_of_length_le ?_⟩
    rw [List.length_map, List.length_map, hlength]
  · cases h

/-- Values that are hex are the hex of bytes. -/
theorem exists_hex {values : List JsValue} {length : Option ℕ}
    (h : ∀ v ∈ values, ∃ bytes, requireHex (some v) length = .ok bytes) :
    ∃ bs : List Bytes, values = bs.map (fun b => .str (bytesToHex b)) ∧
      ∀ b ∈ bs, ∀ n ∈ length, b.length = n := by
  induction values with
  | nil => exact ⟨[], rfl, fun _ hb => by cases hb⟩
  | cons v vs ih =>
    obtain ⟨bs, rfl, hbs⟩ := ih fun v hv => h v (List.mem_cons_of_mem _ hv)
    obtain ⟨bytes, hv⟩ := h v List.mem_cons_self
    obtain ⟨s, heq, hs, hlength⟩ := requireHex_eq_ok.1 hv
    obtain rfl := Option.some.inj heq
    obtain rfl := decodeLowerHex_eq_ok.1 hs
    exact ⟨bytes :: bs, rfl, List.forall_mem_cons.2 ⟨hlength, hbs⟩⟩

theorem hexList_of_check {value : Option JsValue} {count : ℕ} {length : Option ℕ}
    (h : checkHexList value count length = .ok ()) : HexList value count length := by
  unfold checkHexList at h
  split at h
  · next values =>
    simp only [bind_eq_ok, refuse_eq_ok, exists_const, not_not, forM_eq_ok] at h
    obtain ⟨hcount, hvalues⟩ := h
    have hhex : ∀ v ∈ values, ∃ bytes, requireHex (some v) length = .ok bytes := by
      intro v hv
      obtain ⟨bytes, hbytes, -⟩ := hvalues v hv
      exact ⟨bytes, hbytes⟩
    obtain ⟨bs, rfl, hbs⟩ := exists_hex hhex
    exact ⟨bs, rfl, by rwa [List.length_map] at hcount, hbs⟩
  · cases h

theorem mem_resultKeys {type : String} (h : resultKeys (some (.str (utf16Units type))) = .ok keys) :
    (type, keys) ∈ RESULT_KEYS := by
  simp only [resultKeys, toTextOf, toText, bind_eq_ok, pure_eq_ok, exists_eq_left', ofOption_eq_ok,
    Option.map_eq_some_iff] at h
  obtain ⟨⟨type', _⟩, hentry, rfl⟩ := h
  have hname : utf16Units type' = utf16Units type := by simpa using List.find?_some hentry
  obtain rfl := utf16Units_injective hname
  exact List.mem_of_find?_eq_some hentry

/-- What a result holds for its operation, beside the type. -/
def Answers (sha256 : Bytes → ByteArrayOf 32) (payload result : JsValue) : Operation → Prop
  | .bootstrap => ∃ seed, property result "sealed_seed" = .ok (some (.str (bytesToHex seed))) ∧
      property payload "sealed_seed_digest" =
        .ok (some (.str (bytesToHex (sealedSeedDigest sha256 seed).val)))
  | .decrypt operation => ∃ values, property result "plaintexts" = .ok values ∧
      HexList values operation.items.length none
  | .derive operation => ∃ values, property result "values" = .ok values ∧
      HexList values operation.items.length (some 32)
  | .transactionKeys operation => ∃ values, property result "secrets" = .ok values ∧
      HexList values operation.items.length (some 32)
  | .prove operation => ∃ sealed, property result "sealed" = .ok (some sealed) ∧
      HasKeys sealed SEALED_KEYS ∧ property sealed "target" = .ok (some (.str operation.prover.target))

/-- A result of the operation's variant, with just its keys. -/
structure Fits (sha256 : Bytes → ByteArrayOf 32) (operation : Operation) (payload result : JsValue) :
    Prop where
  type : property result "type" = .ok (some (.str (utf16Units operation.type)))
  keys : ∃ keys, (operation.type, keys) ∈ RESULT_KEYS ∧ HasKeys result keys
  answers : Answers sha256 payload result operation

theorem distinct_of_property {value v : JsValue} {name : String} (distinct : value.Distinct)
    (h : property value name = .ok (some v)) : v.Distinct := by
  unfold property at h
  split at h
  · cases h
  · next members =>
    obtain ⟨hnodup, hvalues⟩ := distinct_obj.1 distinct
    exact hvalues _ ((lookup_eq_some_iff hnodup).1 (Except.ok.inj h))
  · cases h

theorem fits_of_check (distinct : result.Distinct)
    (hdigest : property payload "sealed_seed_digest" = .ok digest)
    (h : checkResult sha256 result operation digest = .ok ()) : Fits sha256 operation payload result := by
  simp only [checkResult, bind_eq_ok] at h
  obtain ⟨type, htype, keys, hkeys, _, hassert, h⟩ := h
  obtain ⟨_, heq, hresult⟩ := hasKeys_of_assert (fun v hv => by
    obtain rfl := Option.some.inj hv
    exact distinct) hassert
  obtain rfl := Option.some.inj heq
  -- A failure is thrown as soon as its fields are read; what passes is a result of its kind.
  split_ifs at h with hfailure
  · simp only [bind_eq_ok] at h
    obtain ⟨-, -, -, -, -, -, -, -, h⟩ := h
    cases h
  · simp only [bind_eq_ok, refuse_eq_ok, exists_const, not_not] at h
    obtain ⟨rfl, h⟩ := h
    refine ⟨htype, ⟨keys, mem_resultKeys hkeys, hresult⟩, ?_⟩
    cases operation with
    | bootstrap =>
      simp only [bind_eq_ok, refuse_eq_ok, exists_const, not_not] at h
      obtain ⟨-, -, -, -, -, -, -, -, -, -, -, -, -, -, -, sealed, hsealed, seed, hseed, rfl⟩ := h
      obtain ⟨s, rfl, hs, -⟩ := requireHex_eq_ok.1 hseed
      obtain rfl := decodeLowerHex_eq_ok.1 hs
      exact ⟨seed, hsealed, hdigest⟩
    | decrypt operation | derive operation | transactionKeys operation =>
      simp only [bind_eq_ok] at h
      obtain ⟨values, hvalues, hlist⟩ := h
      exact ⟨values, hvalues, hexList_of_check hlist⟩
    | prove operation =>
      simp only [bind_eq_ok, refuse_eq_ok, exists_const, not_not] at h
      obtain ⟨value, hvalue, _, hassert, target, htarget, rfl, -⟩ := h
      obtain ⟨sealed, rfl, hsealed⟩ := hasKeys_of_assert (fun v hv => by
        obtain rfl : value = some v := hv
        exact distinct_of_property distinct hvalue) hassert
      exact ⟨sealed, hvalue, hsealed, htarget⟩

end Results

section Soundness

variable {BootProof : Type}

/-- One call of `executeOperation`. -/
structure Execution (BootProof : Type) where
  context : OperationExecutionContext
  operation : Operation
  sealedSeed : Option JsString
  readings : Readings BootProof

/-- What the client has found in the answer to a request: the response with an App Proof and its payload,
and the result that was encrypted to the client. -/
structure Accepted (c : QosCrypto) (trustVerifier : TurnkeyAppProofWire → BootProof → Except Thrown Unit)
    (x : Execution BootProof) (request : OperationRequest) (answer : OperationAnswer BootProof)
    (response payload result : JsValue) : Prop where
  parsed : jsonParse answer.responseText = some response
  /-- The App Proof verifies under the key that the boot proof vouches for, and what it names. -/
  proven : OperationProven c.toCrypto trustVerifier request.value response answer.bootProof payload
  requestId : property payload "request_id" = .ok (some (.str request.requestId))
  operation : property payload "operation" = .ok (some (.str (utf16Units x.operation.type)))
  decrypted : ∃ encryptedResult bytes plaintext,
    property response "encrypted_result" = .ok (some (.str (bytesToHex encryptedResult))) ∧
      property payload "result_digest" =
        .ok (some (.str (bytesToHex (resultDigest c.sha256 encryptedResult).val))) ∧
      qosDecrypt c x.readings.responseSecret encryptedResult = .ok bytes ∧
      textDecode bytes = some plaintext ∧ jsonParse plaintext = some result
  sealedSeed : ∀ seed, x.sealedSeed = some seed → ∃ bytes, seed = bytesToHex bytes ∧
    property payload "sealed_seed_digest" =
      .ok (some (.str (bytesToHex (sealedSeedDigest c.sha256 bytes).val)))
  fits : Fits c.sha256 x.operation payload result

variable {c : QosCrypto} {trustVerifier trustVerifier' : TurnkeyAppProofWire → BootProof → Except Thrown Unit}
  {x x' : Execution BootProof} {request request' : OperationRequest}
  {answer answer' : OperationAnswer BootProof} {response response' payload payload' result result' : JsValue}

theorem property_requestId (request : OperationRequest) :
    property request.value "request_id" = .ok (some (.str request.requestId)) := rfl

theorem property_operation (request : OperationRequest) :
    property request.value "operation" = .ok (some request.operation) := rfl

theorem property_type (operation : Operation) :
    property operation.value "type" = .ok (some (.str (utf16Units operation.type))) := rfl

theorem strictEquals_str {a : Option JsValue} {s : JsString} (h : strictEquals a (some (.str s)) = true) :
    a = some (.str s) := by
  unfold strictEquals at h
  split at h
  · cases h
  · cases h
  · exact of_decide_eq_true h

/-- The request that is encrypted is for the operation. -/
theorem operation_of_encrypt {context : OperationExecutionContext} {operation : JsValue}
    {sealedSeed : Option JsString} {r : Readings BootProof} {encrypted : JsValue}
    (h : (encryptOperation c context operation sealedSeed r).result = .ok (request, encrypted)) :
    request.operation = operation := by
  simp only [encryptOperation, result_bind, bind_eq_ok, Prod.exists] at h
  obtain ⟨signed, grant, hprepare, _, -, body, -, _, -, _, -, ciphertext, -, _, -, _, -, h⟩ := h
  obtain ⟨rfl, -⟩ := Prod.mk.inj (Except.ok.inj h)
  obtain ⟨unsigned, client, n, signature, hunsigned, -, -, rfl⟩ := prepareRequest_ok hprepare
  simp only [unsignedRequest, bind_eq_ok, pure_eq_ok, Prod.mk.injEq] at hunsigned
  obtain ⟨_, -, _, -, _, -, _, -, _, -, _, -, _, -, _, -, _, -, _, -, _, -, rfl, -⟩ := hunsigned
  rfl

theorem checkPresented_eq_ok {digest : Option JsValue} {sealedSeed : Option JsString} :
    checkPresented c digest sealedSeed = .ok () ↔ ∀ seed, sealedSeed = some seed → ∃ bytes,
      seed = bytesToHex bytes ∧ digest = some (.str (bytesToHex (sealedSeedDigest c.sha256 bytes).val)) := by
  cases sealedSeed with
  | none => simp [checkPresented, pure_eq_ok]
  | some seed =>
    simp only [checkPresented, bind_eq_ok, refuse_eq_ok, not_not, decodeLowerHex_eq_ok, Option.some.injEq]
    constructor
    · rintro ⟨bytes, hseed, hdigest⟩ _ rfl
      exact ⟨bytes, hseed, hdigest⟩
    · intro h
      exact h seed rfl

/-- What the client returns was found in the answer to the request that it encrypted. -/
theorem accepted_of_execute
    (h : (executeOperation c trustVerifier x.context x.operation x.sealedSeed x.readings).result =
      .ok result) :
    ∃ request encrypted answer response payload,
      (encryptOperation c x.context x.operation.value x.sealedSeed x.readings).result =
        .ok (request, encrypted) ∧ x.readings.answer = .ok answer ∧
      Accepted c trustVerifier x request answer response payload result := by
  simp only [executeOperation, executeOperationEnvelope, sendOperation, result_bind, bind_eq_ok,
    Prod.exists] at h
  obtain ⟨_, -, plaintext, digest, ⟨request, encrypted, hencrypt, maxResponseBytes, -, answer,
    ⟨body, -, hanswer⟩, hopen⟩, _, hpresented, result', hparse, _, hcheck, hresult⟩ := h
  have hopen : openAnswer c trustVerifier x.readings request maxResponseBytes answer =
      .ok (plaintext, digest) := hopen
  have hparse : parseStrictJson plaintext none = .ok result' := hparse
  obtain rfl : result' = result := Except.ok.inj hresult
  -- What was opened is read off the verifier's two lemmas and the shape check.
  simp only [openAnswer, bind_eq_ok, refuse_eq_ok, exists_const, not_not, ofOption_eq_ok, expect_eq_ok,
    pure_eq_ok, Prod.mk.injEq] at hopen
  obtain ⟨response, hresponse, _, -, -, _, -, _, -, _, -, -, value, hvalue, encryptedResult, hencrypted,
    -, payload, hproof, bytes, hbytes, _, htext, -, _, hdigest, rfl, rfl⟩ := hopen
  have hproven := verifyOperationProof_eq_ok hproof
  have hresult := jsonParse_of_parseStrictJson hparse
  obtain ⟨s, rfl, hs, -⟩ := requireHex_eq_ok.1 hencrypted
  obtain rfl := decodeLowerHex_eq_ok.1 hs
  refine ⟨request, encrypted, answer, response, payload, hencrypt, hanswer, ?_⟩
  exact
    { parsed := jsonParse_of_parseStrictJson hresponse
      proven := hproven
      requestId := by
        obtain ⟨a, b, ha, hb, hequal⟩ := hproven.requestId
        obtain rfl := Except.ok.inj ((property_requestId request).symm.trans hb)
        rw [ha, strictEquals_str hequal]
      operation := by
        obtain ⟨operation, a, b, hoperation, ha, hb, hequal⟩ := hproven.operation
        obtain rfl := Except.ok.inj ((property_operation request).symm.trans hoperation)
        rw [operation_of_encrypt hencrypt] at hb
        obtain rfl := Except.ok.inj ((property_type x.operation).symm.trans hb)
        rw [ha, strictEquals_str hequal]
      decrypted := by
        obtain ⟨value, bytes', hvalue', hbytes', hdigest'⟩ := hproven.resultDigest
        obtain rfl := Except.ok.inj (hvalue.symm.trans hvalue')
        obtain rfl := Except.ok.inj (hencrypted.symm.trans hbytes')
        exact ⟨encryptedResult, bytes, _, hvalue, hdigest', hbytes, htext, hresult⟩
      sealedSeed := fun seed hseed => by
        obtain ⟨bytes, hbytes, hnamed⟩ := checkPresented_eq_ok.1 hpresented seed hseed
        exact ⟨bytes, hbytes, hdigest.trans (congrArg Except.ok hnamed)⟩
      fits := fits_of_check (distinct_of_jsonParse hresult) hdigest hcheck }

/-- One text is an answer to requests of one digest. -/
theorem Accepted.digest_eq (h : Accepted c trustVerifier x request answer response payload result)
    (h' : Accepted c trustVerifier' x' request' answer' response' payload' result')
    (same : answer.responseText = answer'.responseText) :
    requestDigest c.sha256 request.value = requestDigest c.sha256 request'.value := by
  obtain rfl : response = response' := by
    have hparsed := h'.parsed
    rw [← same, h.parsed] at hparsed
    exact Option.some.inj hparsed
  obtain ⟨wire, -, -, hpayload, -, hparse⟩ := h.proven.proof
  obtain ⟨wire', -, -, hpayload', -, hparse'⟩ := h'.proven.proof
  have htext : wire.proofPayload = wire'.proofPayload :=
    Json.str.inj (Option.some.inj (Except.ok.inj (hpayload.symm.trans hpayload')))
  obtain rfl : payload = payload' := by
    rw [← htext, hparse] at hparse'
    exact Option.some.inj hparse'
  obtain ⟨d, hd, hnamed⟩ := h.proven.requestDigest
  obtain ⟨d', hd', hnamed'⟩ := h'.proven.requestDigest
  have hhex : bytesToHex d.val = bytesToHex d'.val :=
    Json.str.inj (Option.some.inj (Except.ok.inj (hnamed.symm.trans hnamed')))
  have hdecode : decodeLowerHex (bytesToHex d.val) = .ok d'.val := decodeLowerHex_eq_ok.2 hhex
  obtain rfl : d = d' := Subtype.ext (Except.ok.inj ((decodeLowerHex_eq_ok.2 rfl).symm.trans hdecode))
  rw [hd, hd']

/-- Whatever the backend answers, the client returns a result only of an answer that is bound to the
request that it encrypted; and it takes no answer for two requests of different digests. -/
theorem answer_sound (c : QosCrypto)
    (trustVerifier trustVerifier' : TurnkeyAppProofWire → BootProof → Except Thrown Unit) :
    (∀ (x : Execution BootProof) (result : JsValue),
      (executeOperation c trustVerifier x.context x.operation x.sealedSeed x.readings).result = .ok result →
      ∃ request encrypted answer response payload,
        (encryptOperation c x.context x.operation.value x.sealedSeed x.readings).result =
          .ok (request, encrypted) ∧ x.readings.answer = .ok answer ∧
        Accepted c trustVerifier x request answer response payload result) ∧
    ∀ (x x' : Execution BootProof) (result result' : JsValue) (answer answer' : OperationAnswer BootProof)
      (request request' : OperationRequest) (encrypted encrypted' : JsValue),
      (executeOperation c trustVerifier x.context x.operation x.sealedSeed x.readings).result = .ok result →
      (executeOperation c trustVerifier' x'.context x'.operation x'.sealedSeed x'.readings).result =
        .ok result' →
      x.readings.answer = .ok answer → x'.readings.answer = .ok answer' →
      answer.responseText = answer'.responseText →
      (encryptOperation c x.context x.operation.value x.sealedSeed x.readings).result =
        .ok (request, encrypted) →
      (encryptOperation c x'.context x'.operation.value x'.sealedSeed x'.readings).result =
        .ok (request', encrypted') →
      requestDigest c.sha256 request.value = requestDigest c.sha256 request'.value := by
  refine ⟨fun x result => accepted_of_execute, ?_⟩
  intro x x' result result' answer answer' request request' encrypted encrypted' h h' hanswer hanswer' same
    hencrypt hencrypt'
  obtain ⟨request₁, _, answer₁, _, _, hencrypt₁, hanswer₁, haccepted⟩ := accepted_of_execute h
  obtain ⟨request₂, _, answer₂, _, _, hencrypt₂, hanswer₂, haccepted'⟩ := accepted_of_execute h'
  -- The requests and answers that the lemma speaks of are the ones given.
  obtain ⟨rfl, -⟩ := Prod.mk.inj (Except.ok.inj (hencrypt.symm.trans hencrypt₁))
  obtain ⟨rfl, -⟩ := Prod.mk.inj (Except.ok.inj (hencrypt'.symm.trans hencrypt₂))
  obtain rfl := Except.ok.inj (hanswer.symm.trans hanswer₁)
  obtain rfl := Except.ok.inj (hanswer'.symm.trans hanswer₂)
  exact haccepted.digest_eq haccepted' same

end Soundness

end ZolanaTvc.Wallet.OperationExecutor
