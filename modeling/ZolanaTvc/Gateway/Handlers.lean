import ZolanaTvc.Gateway.Signing
import ZolanaTvc.Gateway.Upstream

/-!
# The gateway's handlers

Gatekeeper sends a request again after any 5xx, so that once the enclave or Turnkey was called for it
the answer must be below.

## Main results

* `settled_iff`: after such a call the handlers answer below 500, exactly if the clock can be read for
  the grant once Turnkey was asked, and no enclave answer that is passed on has a status from 600.
-/

namespace ZolanaTvc.Gateway

open Protocol Except Effectful

/-- What a handler answers. -/
inductive Response where
  | problem (error : ApiError)
  | forwarded (forwarded : Forwarded)
  | session (info ping bootProof : Bytes)
  | enrolled (descriptor : WalletDescriptor)
  | operated (response bootProof : Bytes)
  /-- With the header `Idempotent-Replayed`. -/
  | replayed (response : Response)

def Response.status : Response → StatusCode
  | .problem e => e.status
  | .forwarded answer => answer.status
  | .session .. | .enrolled _ | .operated .. => 200
  | .replayed response => response.status

/-- A device's enrollment, signed by the wallet owner. -/
structure EnrollmentRequest where
  organizationId : String
  turnkeyWalletId : String
  solanaAddress : String
  clientPublicKey : String
  issuedAtMs : UInt64
  ownerSignature : String

/-- What the handlers share, and what they take from `serde_json` and from the check of an
enrollment. -/
structure AppState where
  crypto : SigningCrypto
  provisioner : Provisioner
  walletGrants : WalletGrants
  /-- `Enrollment::verify` -/
  verifyEnrollment : EnrollmentRequest → UInt64 → Except ApiError EnrollmentInput
  maxBodyBytes : ℕ
  /-- `serde_json::from_slice::<AppProofCarrier>`, of which the public key. -/
  readAppProofKey : Bytes → Option String
  /-- `serde_json::from_slice::<Box<RawValue>>` -/
  isJson : Bytes → Bool

def clockMs (now : Option UInt64) : Except ApiError UInt64 := ofOption now .clockUnavailable

/-- `tokio::try_join!`, which fails with the failure that comes first. -/
def tryJoin {A B : Type} (firstFails : Bool) (x : Except ApiError A) (y : Except ApiError B) :
    Except ApiError (A × B) :=
  match x, y with
  | .ok a, .ok b => .ok (a, b)
  | .error e, .ok _ => .error e
  | .ok _, .error e => .error e
  | .error e, .error e' => .error (if firstFails then e else e')

namespace AppState

variable (s : AppState)

/-- The Boot Proof lookup key of the replica that signed an enclave answer. -/
def appProofKey (body : Bytes) : Except ApiError String :=
  ofOption (s.readAppProofKey body) .invalidEnclaveAnswer

def rawJson (body : Bytes) : Except ApiError Bytes := do
  refuse (s.isJson body = false) .invalidEnclaveAnswer
  return body

structure SessionReadings where
  permit : Bool
  info : Exchange
  ping : Exchange
  infoFailsFirst : Bool
  bootProof : BootProofReadings

def session (project : ProjectId) (r : SessionReadings) : Call Response := do
  ofExcept (tryAcquire r.permit)
  let (info, ping) ← act .enclave
    (tryJoin r.infoFailsFirst (received s.maxBodyBytes r.info) (received s.maxBodyBytes r.ping))
  if ¬StatusCode.isSuccess info.status then
    return .forwarded info
  else if ¬StatusCode.isSuccess ping.status then
    return .forwarded ping
  else do
    let key ← ofExcept (s.appProofKey ping.body)
    let bootProof ← bootProof key (.project project) r.bootProof
    let info ← ofExcept (s.rawJson info.body)
    let ping ← ofExcept (s.rawJson ping.body)
    let bootProof ← ofExcept (s.rawJson bootProof)
    return .session info ping bootProof

structure EnrollReadings where
  clock : Option UInt64
  permit : Bool
  ownership : OwnershipReadings

def enroll (project : ProjectId) (request : EnrollmentRequest) (r : EnrollReadings) :
    Call Response := do
  let nowMs ← ofExcept (clockMs r.clock)
  ofExcept (s.provisioner.checkCurrent nowMs)
  let input ← ofExcept (s.verifyEnrollment request nowMs)
  ofExcept (s.walletGrants.checkClientKey s.crypto input.clientPublicKey.val)
  ofExcept (tryAcquire r.permit)
  let wallet : ClaimedWallet :=
    ⟨input.organizationId, input.turnkeyWalletId, input.solanaAddress⟩
  verifyOwnership project wallet r.ownership
  let descriptor ← ofExcept (s.provisioner.sign s.crypto input)
  return .enrolled descriptor

/-- What the ledger answers a claim. -/
inductive ClaimReading where
  | inProgress
  | unavailable
  | new (key : Key)
  /-- The outcome is kept of an earlier forward, of which this came. -/
  | answered (exchange : Exchange)

def claim (maxBodyBytes : ℕ) : ClaimReading → Call Claim
  | .inProgress => ofExcept (.error .operationInProgress)
  | .unavailable => ofExcept (.error .replayGuardUnavailable)
  | .new key => act (.claimed key) (.ok (.new key))
  | .answered exchange => act .replayed (.ok (.answered (received maxBodyBytes exchange)))

def MAX_KEPT_ANSWER_BYTES : ℕ := 65536

/-- `ReplayLedger::record` -/
def record (key : Key) (outcome : Outcome) : Call Unit :=
  match outcome with
  | .ok answer =>
    if answer.body.length > MAX_KEPT_ANSWER_BYTES then act (.released key) (.ok ())
    else act (.recorded key outcome) (.ok ())
  | .error _ => act (.recorded key outcome) (.ok ())

structure OperationsReadings where
  clock : Option UInt64
  permit : Bool
  claim : ClaimReading
  subOrg : SubOrgReadings
  /-- The clock when the grant is issued. -/
  grantClock : Option UInt64
  exchange : Exchange
  bootProof : BootProofReadings

/-- What `operations` checks before it claims the ciphertext. -/
def admits (descriptor : WalletDescriptor) (r : OperationsReadings) : Except ApiError Unit := do
  s.provisioner.verify s.crypto descriptor (← clockMs r.clock)
  match descriptor.allowedClients with
  | [client] => s.walletGrants.checkClientKey s.crypto client.clientPublicKey
  | _ => throw .invalidDescriptor
  tryAcquire r.permit

/-- The client's answer to an enclave outcome: a success with the Boot Proof of the replica that
answered, the enclave's refusal as it is, or the failure. -/
def answer (outcome : Outcome) (readings : BootProofReadings) : Call Response := do
  let answered ← attempt do
    let forwarded ← ofExcept outcome
    if ¬StatusCode.isSuccess forwarded.status then
      return Response.forwarded forwarded
    else do
      let key ← ofExcept (s.appProofKey forwarded.body)
      let bootProof ← bootProof key .shared readings
      let response ← ofExcept (s.rawJson forwarded.body)
      let bootProof ← ofExcept (s.rawJson bootProof)
      return .operated response bootProof
  match answered with
  | .ok response => return response
  | .error e => return .problem e

/-- The grant the request is forwarded with. -/
def granted (project : ProjectId) (descriptor : WalletDescriptor) (r : OperationsReadings) :
    Call WalletGrant := do
  verifySubOrgProject project r.subOrg
  -- The clock is read once more, when Turnkey may have been asked already.
  let nowMs ← ofExcept (clockMs r.grantClock)
  ofExcept (s.walletGrants.issue s.crypto project descriptor nowMs)

def operations (project : ProjectId) (descriptor : WalletDescriptor) (r : OperationsReadings) :
    Call Response := do
  ofExcept (s.admits descriptor r)
  match ← claim s.maxBodyBytes r.claim with
  | .answered outcome =>
    return .replayed (← s.answer outcome r.bootProof)
  | .new key => do
    match ← attempt (s.granted project descriptor r) with
    | .error e => do
      -- Nothing was forwarded, so the ciphertext may be sent again.
      act (.released key) (.ok ())
      ofExcept (.error e)
    | .ok _ => do
      -- What comes of the forward is recorded, a connection that was never made among it.
      let outcome ← attempt (send s.maxBodyBytes r.exchange)
      record key outcome
      s.answer outcome r.bootProof

end AppState

/-- What the caller is answered. -/
def respond (x : Call Response) : Response :=
  match x.result with
  | .ok response => response
  | .error e => .problem e

/-- The enclave or Turnkey was called for the request, or was when it first came. -/
def Effect.contact : Effect → Prop
  | .enclave | .turnkey | .replayed => True
  | _ => False

/-- After a call to the enclave or Turnkey the answer is no 5xx. -/
def Settled (x : Call Response) : Prop :=
  (∃ e ∈ x.effects, e.contact) → (respond x).status < 500

section Conditions

variable (s : AppState)

/-- No answer that is passed on has a status from 600 up. -/
def Ordinary (exchange : Exchange) : Prop :=
  ∀ forwarded, received s.maxBodyBytes exchange = .ok forwarded → forwarded.status < 600

/-- The session handler passes on no status from 600 up. -/
def SessionOrdinary (r : AppState.SessionReadings) : Prop :=
  r.permit = true → ∀ info ping, received s.maxBodyBytes r.info = .ok info →
    received s.maxBodyBytes r.ping = .ok ping →
      info.status < 600 ∧ (StatusCode.isSuccess info.status → ping.status < 600)

/-- The clock can be read after Turnkey was asked, and no status from 600 up is passed on. -/
def OperationsOrdinary (project : ProjectId) (descriptor : WalletDescriptor)
    (r : AppState.OperationsReadings) : Prop :=
  s.admits descriptor r = .ok () →
    match r.claim with
    | .inProgress | .unavailable => True
    | .answered exchange => Ordinary s exchange
    | .new _ =>
      (Asked project r.subOrg → r.grantClock ≠ none) ∧
      (r.subOrg.cached = some project.text ∨ Asked project r.subOrg →
        ∀ nowMs grant, r.grantClock = some nowMs →
          s.walletGrants.issue s.crypto project descriptor nowMs = .ok grant → Ordinary s r.exchange)

end Conditions

section Respond

variable {x : Call Response} {A : Type}

theorem settled_ofExcept_bind {y : Except ApiError A} {f : A → Call Response} :
    Settled (ofExcept y >>= f) ↔ ∀ a, y = .ok a → Settled (f a) := by
  cases y with
  | ok a =>
    rw [ofExcept_bind]
    exact ⟨fun h _ ha => Except.ok.inj ha ▸ h, fun h => h a rfl⟩
  | error e =>
    rw [ofExcept_bind]
    exact ⟨fun _ _ ha => (nomatch ha), fun _ ⟨_, he, _⟩ => (nomatch he)⟩

/-- The status decides once the first call is made. -/
theorem settled_act_bind {e : Effect} (he : e.contact) {y : Except ApiError A}
    {f : A → Call Response} : Settled (act e y >>= f) ↔ (respond (act e y >>= f)).status < 500 :=
  ⟨fun h => h ⟨e, mem_effects_bind.2 (.inl (List.mem_singleton_self e)), he⟩, fun h _ => h⟩

/-- A step that calls no one leaves the question to the rest. -/
theorem settled_act_ok_bind {e : Effect} (he : ¬e.contact) {a : A} {f : A → Call Response} :
    Settled (act e (.ok a) >>= f) ↔ Settled (f a) := by
  rw [bind_ok (a := a) rfl]
  refine imp_congr ⟨?_, ?_⟩ Iff.rfl
  · rintro ⟨e', he', hcontact⟩
    obtain he' | he' := List.mem_append.1 he'
    · rw [List.mem_singleton.1 he'] at hcontact
      exact absurd hcontact he
    · exact ⟨e', he', hcontact⟩
  · rintro ⟨e', he', hcontact⟩
    exact ⟨e', List.mem_append_right _ he', hcontact⟩

theorem respond_bind_ok {y : Call A} {f : A → Call Response} {a : A} (h : y.result = .ok a) :
    respond (y >>= f) = respond (f a) := by
  rw [bind_ok h]
  rfl

theorem respond_bind_error {y : Call A} {f : A → Call Response} {e : ApiError}
    (h : y.result = .error e) : respond (y >>= f) = .problem e := by
  rw [bind_error h]
  rfl

theorem settled_of_below (h : (respond x).status < 500) : Settled x := fun _ => h

/-- A program that fails and returns below 500. -/
theorem below_of_meets {Q : Response → Prop}
    (h : x.Meets (fun e => e.status < 500) Q) (hq : ∀ response, Q response → response.status < 500) :
    (respond x).status < 500 := by
  unfold respond
  cases hx : x.result with
  | ok response => exact hq response (h.2 response hx)
  | error e => exact h.1 e hx

end Respond

variable {s : AppState} {project : ProjectId}

section Evidence

variable {body : Bytes} {e : ApiError}

theorem appProofKey_below (h : s.appProofKey body = .error e) : e.status < 500 := by
  rw [← (ofOption_eq_error.1 h).2]
  decide

theorem rawJson_below (h : s.rawJson body = .error e) : e.status < 500 := by
  simp only [AppState.rawJson, bind_eq_error, refuse_eq_error, pure_ne_error, and_false, exists_false,
    or_false] at h
  rw [← h.2]
  decide

end Evidence

section Session

variable {r : AppState.SessionReadings}

theorem tryJoin_error {A B : Type} {firstFails : Bool} {x : Except ApiError A} {y : Except ApiError B}
    {e : ApiError} (h : tryJoin firstFails x y = .error e) : x = .error e ∨ y = .error e := by
  cases x <;> cases y <;> cases firstFails <;> simp_all [tryJoin]

theorem tryJoin_ok {A B : Type} {firstFails : Bool} {x : Except ApiError A} {y : Except ApiError B}
    {a : A} {b : B} (h : tryJoin firstFails x y = .ok (a, b)) : x = .ok a ∧ y = .ok b := by
  cases x <;> cases y <;> simp_all [tryJoin]

/-- What the enclave answers is passed on below 500 exactly if it is below 600. -/
theorem received_below_iff {maxBodyBytes : ℕ} {exchange : Exchange} {forwarded : Forwarded}
    (h : received maxBodyBytes exchange = .ok forwarded) :
    forwarded.status < 500 ↔ forwarded.status < 600 := by
  have hserver : ¬(500 ≤ forwarded.status ∧ forwarded.status < 600) := (received_ok h).1
  have hline : ∀ status : ℕ, ¬(500 ≤ status ∧ status < 600) → (status < 500 ↔ status < 600) := by
    omega
  exact hline _ hserver

theorem session_settled_iff : Settled (s.session project r) ↔ SessionOrdinary s r := by
  rw [AppState.session, settled_ofExcept_bind]
  simp only [tryAcquire, refuse_eq_ok, SessionOrdinary]
  cases hpermit : r.permit with
  | false => simp
  | true =>
    simp only [Bool.true_eq_false, not_false_eq_true, forall_const]
    rw [settled_act_bind (by exact trivial)]
    -- The two requests to the enclave fail together or succeed together.
    cases hjoin : tryJoin r.infoFailsFirst (received s.maxBodyBytes r.info)
        (received s.maxBodyBytes r.ping) with
    | error e =>
      rw [respond_bind_error rfl]
      have hbelow : e.status < 500 := by
        rcases tryJoin_error hjoin with h | h <;> exact received_below h
      refine iff_of_true hbelow fun info ping hinfo hping => ?_
      rw [hinfo, hping] at hjoin
      cases hjoin
    | ok both =>
      obtain ⟨info, ping⟩ := both
      obtain ⟨hinfo, hping⟩ := tryJoin_ok hjoin
      rw [respond_bind_ok rfl]
      have hcond : (∀ info' ping', received s.maxBodyBytes r.info = .ok info' →
          received s.maxBodyBytes r.ping = .ok ping' →
            info'.status < 600 ∧ (StatusCode.isSuccess info'.status → ping'.status < 600)) ↔
          info.status < 600 ∧ (StatusCode.isSuccess info.status → ping.status < 600) := by
        simp only [hinfo, hping, Except.ok.injEq]
        exact ⟨fun h => h info ping rfl rfl, fun h _ _ hi hp => hi ▸ hp ▸ h⟩
      rw [hcond, ← received_below_iff hinfo, ← received_below_iff hping]
      -- An answer that is no success is passed on with its own status, which may be 600 or more.
      by_cases hi : StatusCode.isSuccess info.status
      · have hinfoBelow : info.status < 500 := lt_trans hi.2 (by decide)
        by_cases hp : StatusCode.isSuccess ping.status
        · have hpingBelow : ping.status < 500 := lt_trans hp.2 (by decide)
          simp only [hi, hp, not_true_eq_false, if_false]
          refine iff_of_true (below_of_meets (Q := fun response => response.status < 500) ?_
            fun _ h => h) ⟨hinfoBelow, fun _ => hpingBelow⟩
          -- After two successes every step fails below 500.
          refine .bind (.of_error fun _ => appProofKey_below) fun key _ => ?_
          refine .bind (bootProof_meets _ _ _) fun bootProof _ => ?_
          refine .bind (.of_error fun _ => rawJson_below) fun _ _ => ?_
          refine .bind (.of_error fun _ => rawJson_below) fun _ _ => ?_
          exact .bind (.of_error fun _ => rawJson_below) fun _ _ =>
            .pure (show (200 : ℕ) < 500 by decide)
        · simp only [hi, hp, not_true_eq_false, if_false, not_false_eq_true, if_true]
          exact ⟨fun h => ⟨hinfoBelow, fun _ => h⟩, fun h => h.2 trivial⟩
      · simp only [hi, not_false_eq_true, if_true]
        exact ⟨fun h => ⟨h, fun hi' => hi'.elim⟩, fun h => h.1⟩

end Session

section Operations

variable {r : AppState.OperationsReadings} {descriptor : WalletDescriptor}

theorem respond_attempt {x : Call Response} : respond (do
    match ← attempt x with
    | .ok response => return response
    | .error e => return .problem e) = respond x := by
  rw [attempt_bind]
  unfold respond
  cases x.result <;> rfl

theorem answer_below_iff {outcome : Outcome} {readings : BootProofReadings}
    (h : ∀ e, outcome = .error e → e.status < 500) :
    (respond (s.answer outcome readings)).status < 500 ↔
      ∀ forwarded, outcome = .ok forwarded → forwarded.status < 500 := by
  rw [AppState.answer, respond_attempt]
  cases outcome with
  | error e =>
    rw [respond_bind_error rfl]
    exact iff_of_true (h e rfl) fun _ hf => (nomatch hf)
  | ok forwarded =>
    rw [respond_bind_ok rfl]
    simp only [Except.ok.injEq, forall_eq']
    by_cases hsuccess : StatusCode.isSuccess forwarded.status
    · simp only [hsuccess, not_true_eq_false, if_false]
      refine iff_of_true (below_of_meets (Q := fun response => response.status < 500) ?_ fun _ h => h)
        (lt_trans hsuccess.2 (by decide))
      refine .bind (.of_error fun _ => appProofKey_below) fun key _ => ?_
      refine .bind (bootProof_meets _ _ _) fun bootProof _ => ?_
      refine .bind (.of_error fun _ => rawJson_below) fun _ _ => ?_
      exact .bind (.of_error fun _ => rawJson_below) fun _ _ => .pure (show (200 : ℕ) < 500 by decide)
    · simp only [hsuccess, not_false_eq_true, if_true]
      exact Iff.rfl

theorem answer_received_below_iff {exchange : Exchange} {readings : BootProofReadings} :
    (respond (s.answer (received s.maxBodyBytes exchange) readings)).status < 500 ↔
      Ordinary s exchange := by
  rw [answer_below_iff fun _ => received_below]
  exact forall_congr' fun forwarded => forall_congr' fun h => received_below_iff h

/-- The grant is issued once the sub-organization is known to be the caller's. -/
theorem granted_ok {grant : WalletGrant} : (s.granted project descriptor r).result = .ok grant ↔
    (r.subOrg.cached = some project.text ∨ Asked project r.subOrg) ∧
      ∃ nowMs, r.grantClock = some nowMs ∧
        s.walletGrants.issue s.crypto project descriptor nowMs = .ok grant := by
  rw [AppState.granted, result_bind, bind_eq_ok]
  constructor
  · rintro ⟨u, howned, h⟩
    rw [result_bind, bind_eq_ok] at h
    obtain ⟨nowMs, hclock, hissue⟩ := h
    exact ⟨verifySubOrgProject_ok.1 howned, nowMs, ofOption_eq_ok.1 hclock, hissue⟩
  · rintro ⟨howned, nowMs, hclock, hissue⟩
    refine ⟨(), verifySubOrgProject_ok.2 howned, ?_⟩
    rw [result_bind, bind_eq_ok]
    exact ⟨nowMs, ofOption_eq_ok.2 hclock, hissue⟩

/-- A failure before the forward is below 500, unless it is the clock's. -/
theorem granted_error {e : ApiError} (h : (s.granted project descriptor r).result = .error e) :
    e.status < 500 ∨ e = .clockUnavailable ∧ r.grantClock = none ∧
      (r.subOrg.cached = some project.text ∨ Asked project r.subOrg) := by
  rw [AppState.granted, result_bind, bind_eq_error] at h
  obtain h | ⟨_, howned, h⟩ := h
  · exact .inl (verifySubOrgProject_error h)
  · rw [result_bind, bind_eq_error] at h
    obtain h | ⟨nowMs, -, h⟩ := h
    · obtain ⟨hclock, rfl⟩ := ofOption_eq_error.1 h
      exact .inr ⟨rfl, hclock, verifySubOrgProject_ok.1 howned⟩
    · refine .inl ?_
      rcases WalletGrants.issue_error h with rfl | rfl | rfl <;> decide

/-- Before the forward only Turnkey is called. -/
theorem mem_granted_effects {e : Effect} : e ∈ (s.granted project descriptor r).effects ↔
    e = .turnkey ∧ r.subOrg.cached = none ∧
      callPermit (.project project) r.subOrg.permits = .ok () := by
  rw [AppState.granted, mem_effects_bind, mem_verifySubOrgProject_effects, or_iff_left]
  rintro ⟨_, -, h⟩
  obtain h | ⟨_, -, h⟩ := mem_effects_bind.1 h <;> cases h

/-- A claimed request that is not forwarded is answered below 500 after Turnkey was asked, unless it is
the clock that fails. -/
theorem settled_refused_iff {key : Key} {e : ApiError}
    (h : (s.granted project descriptor r).result = .error e) :
    Settled ⟨(s.granted project descriptor r).effects ++ [.released key], .error e⟩ ↔
      (Asked project r.subOrg → r.grantClock ≠ none) := by
  constructor
  · intro hsettled hasked hclock
    have hstatus : e.status < 500 :=
      hsettled ⟨.turnkey, List.mem_append_left _ (mem_granted_effects.2 ⟨rfl, hasked.1, hasked.2.1⟩),
        trivial⟩
    rw [AppState.granted, bind_ok (verifySubOrgProject_ok.2 (.inr hasked)), hclock] at h
    cases h
    exact absurd hstatus (by decide)
  · rintro hclock ⟨e', he', hcontact⟩
    obtain he' | he' := List.mem_append.1 he'
    · obtain ⟨-, hcached, hpermit⟩ := mem_granted_effects.1 he'
      obtain hbelow | ⟨-, hnone, howned | hasked⟩ := granted_error h
      · exact hbelow
      · rw [hcached] at howned
        cases howned
      · exact absurd hnone (hclock hasked)
    · rw [List.mem_singleton.1 he'] at hcontact
      exact hcontact.elim

theorem replayed_status {x : Call Response} :
    (respond (x >>= fun response => pure (.replayed response))).status = (respond x).status := by
  unfold respond
  cases h : x.result with
  | ok response => rw [bind_ok h]; rfl
  | error e => rw [bind_error h]

theorem record_result {key : Key} {outcome : Outcome} :
    (AppState.record key outcome).result = .ok () := by
  unfold AppState.record
  split
  · split <;> rfl
  · rfl

/-- A forwarded request is answered below 500 if what is passed on is below 600. -/
theorem settled_forwarded_iff {key : Key} {done : List Effect} {x : Call Response}
    (hx : x = attempt (send s.maxBodyBytes r.exchange) >>= fun outcome =>
      AppState.record key outcome >>= fun _ => s.answer outcome r.bootProof) :
    Settled ⟨done ++ x.effects, x.result⟩ ↔ Ordinary s r.exchange := by
  have hresult : respond x = respond (s.answer (received s.maxBodyBytes r.exchange) r.bootProof) := by
    rw [hx, attempt_bind]
    exact respond_bind_ok record_result
  have henclave : Effect.enclave ∈ x.effects := by
    rw [hx, attempt_bind]
    exact List.mem_append_left _ (List.mem_singleton_self _)
  have hbelow : (respond x).status < 500 ↔ Ordinary s r.exchange := by
    rw [hresult, answer_received_below_iff]
  rw [← hbelow]
  exact ⟨fun h => h ⟨.enclave, List.mem_append_right _ henclave, trivial⟩, fun h _ => h⟩

theorem operations_settled_iff : Settled (s.operations project descriptor r) ↔
    OperationsOrdinary s project descriptor r := by
  rw [AppState.operations, settled_ofExcept_bind, OperationsOrdinary]
  refine (forall_congr' fun u => imp_congr_right fun hadmits => ?_).trans
    ⟨fun h => h (), fun h _ => h⟩
  cases r.claim with
  | inProgress => exact iff_of_true (settled_ofExcept_bind.2 fun _ h => (nomatch h)) trivial
  | unavailable => exact iff_of_true (settled_ofExcept_bind.2 fun _ h => (nomatch h)) trivial
  | answered exchange =>
    rw [AppState.claim, settled_act_bind (e := .replayed) trivial, respond_bind_ok rfl,
      replayed_status, answer_received_below_iff]
  | new key =>
    rw [AppState.claim, settled_act_ok_bind (e := .claimed key) id]
    show Settled (attempt (s.granted project descriptor r) >>= _) ↔ _
    rw [attempt_bind]
    cases hgranted : (s.granted project descriptor r).result with
    | error e =>
      refine (settled_refused_iff hgranted).trans ⟨fun h => ⟨h, ?_⟩, And.left⟩
      intro howned nowMs grant hclock hissue
      rw [granted_ok.2 ⟨howned, nowMs, hclock, hissue⟩] at hgranted
      cases hgranted
    | ok grant =>
      refine (settled_forwarded_iff rfl).trans ?_
      obtain ⟨howned, nowMs, hclock, hissue⟩ := granted_ok.1 hgranted
      refine ⟨fun h => ⟨fun _ => ?_, fun _ _ _ _ _ => h⟩, fun h => h.2 howned nowMs grant hclock hissue⟩
      rw [hclock]
      exact Option.some_ne_none nowMs

end Operations

section Enroll

variable {request : EnrollmentRequest} {r : AppState.EnrollReadings}

theorem verifyOwnership_meets {wallet : ClaimedWallet} {r : OwnershipReadings} :
    (verifyOwnership project wallet r).Meets (fun e => e.status < 500) fun _ => True := by
  refine .bind (Q := fun _ => True) ⟨fun _ => verifySubOrgProject_error, fun _ _ => trivial⟩
    fun _ _ => ?_
  refine .bind (.of_error fun _ => callPermit_below) fun _ _ => ?_
  refine .bind (.of_error fun _ => turnkeyFailure_below (by decide)) fun accounts _ => ?_
  refine .of_error fun e h => ?_
  rw [← (refuse_eq_error.1 h).2]
  decide

/-- Every check that may fail with a 5xx stands before the calls. -/
theorem enroll_settled : Settled (s.enroll project request r) := by
  rw [AppState.enroll]
  iterate 5 rw [settled_ofExcept_bind]; intro _ _
  refine settled_of_below (below_of_meets (Q := fun response => response.status < 500) ?_ fun _ h => h)
  refine .bind verifyOwnership_meets fun _ _ => ?_
  refine .bind (.of_error fun e h => ?_) fun descriptor _ => .pure (show (200 : ℕ) < 500 by decide)
  rw [Provisioner.sign_error h]
  decide

end Enroll

/-- After a call to the enclave or Turnkey every handler answers below 500, exactly if the clock can be
read for the grant once Turnkey was asked, and what is passed on of the enclave is below 600. -/
theorem settled_iff (s : AppState) (project : ProjectId) :
    (∀ r, Settled (s.session project r) ↔ SessionOrdinary s r) ∧
    (∀ request r, Settled (s.enroll project request r)) ∧
    ∀ descriptor r, Settled (s.operations project descriptor r) ↔
      OperationsOrdinary s project descriptor r :=
  ⟨fun _ => session_settled_iff, fun _ _ => enroll_settled, fun _ _ => operations_settled_iff⟩

section Unreadable

theorem length_zeros (n : ℕ) : (List.replicate n 0 : Bytes).length = n := List.length_replicate

/-- A curve that takes every key and every signature. -/
def lenientCrypto : SigningCrypto where
  sha256 _ := ⟨List.replicate 32 0, length_zeros 32⟩
  isPoint _ := true
  isSignature _ := true
  isHighS _ := false
  verifyPrehash _ _ _ := true
  signP256Prehash _ _ := some ⟨List.replicate 64 0, length_zeros 64⟩

def lenientKey : ByteArrayOf SEC1_UNCOMPRESSED_LEN := ⟨4 :: List.replicate 64 0, rfl⟩

def samplePolicy : ReleasePolicy where
  version := API_VERSION
  releaseId := "release"
  network := .devnet
  tvcApplicationId := "application"
  securityDomainId := ⟨List.replicate 32 0, length_zeros 32⟩
  acceptedManifestDigests := []
  acceptedExecutableDigests := []
  quorumKeyId := "quorum"
  quorumKeyEpoch := 0
  quorumPublicKey := lenientKey.val
  allowedOperations := OPERATIONS
  maxEncryptedRequestBytes := 262144
  maxEncryptedResponseBytes := 262144
  turnkeyTrustRootId := EXPECTED_TURNKEY_TRUST_ROOT_ID
  turnkeyProofSchemaVersions := []
  validFromMs := 0
  expiresAtMs := 1
  revocationEpoch := 0

def sampleDescriptor : WalletDescriptor where
  version := API_VERSION
  securityDomainId := samplePolicy.securityDomainId
  network := .devnet
  turnkeyOrganizationId := "organization"
  turnkeyWalletId := "wallet"
  address := "address"
  allowedClients := [⟨lenientKey.val, OPERATIONS⟩]
  expiresAtMs := 1
  provisioningSignature := List.replicate 64 0

theorem sampleLifetime : (0 : UInt64) < 1 ∧ 1 ≤ MAX_WALLET_GRANT_LIFETIME_MS := by decide

def sampleState : AppState where
  crypto := lenientCrypto
  provisioner := ⟨⟨List.replicate 32 0, length_zeros 32⟩, lenientKey, samplePolicy, 1⟩
  walletGrants := ⟨⟨List.replicate 32 0, length_zeros 32⟩, 1, [], sampleLifetime⟩
  verifyEnrollment _ _ := .error .invalidEnrollmentRequest
  maxBodyBytes := 0
  readAppProofKey _ := none
  isJson _ := false

/-- Turnkey names the sub-organization after the project, and then the clock cannot be read. -/
def unreadable : AppState.OperationsReadings where
  clock := some 0
  permit := true
  claim := .new ⟨List.replicate 32 0, length_zeros 32⟩
  subOrg := ⟨none, ⟨true, true⟩, .ok (ProjectId.sample 0).text⟩
  grantClock := none
  exchange := none
  bootProof := .cached []

theorem verify_sample : sampleState.provisioner.verify lenientCrypto sampleDescriptor 0 = .ok () := by
  obtain ⟨digest, hdigest⟩ := @exists_descriptorDigest lenientCrypto.sha256 sampleDescriptor
  have hverified : verifyP256Prehash lenientCrypto.toCrypto lenientKey.val digest
      (List.replicate 64 0) = .ok () := rfl
  simp only [Provisioner.verify, bind_eq_ok, refuse_eq_ok, ofOption_eq_ok, expect_eq_ok]
  exact ⟨(), by decide, digest, hdigest, (), hverified, by decide⟩

theorem admits_sample : sampleState.admits sampleDescriptor unreadable = .ok () := by
  show sampleState.provisioner.verify lenientCrypto sampleDescriptor 0 >>= _ = _
  rw [verify_sample]
  decide

/-- A project whose sub-organization Turnkey has just confirmed is answered 503 when the clock cannot
be read for the grant. -/
theorem clock_lost_after_contact : ¬Settled
    (sampleState.operations (ProjectId.sample 0) sampleDescriptor unreadable) := by
  rw [operations_settled_iff]
  intro h
  exact (h admits_sample).1 ⟨rfl, rfl, rfl⟩ rfl

end Unreadable

end ZolanaTvc.Gateway
