import ZolanaTvc.Control.Effectful
import ZolanaTvc.Gateway.BootProof
import ZolanaTvc.Gateway.LocalLedger
import ZolanaTvc.Gateway.Project

/-!
# The enclave and Turnkey

What the gateway asks of the enclave and of Turnkey, and the failures it makes of what they do. What
they answer, and what a call finds in the caches and the limits at its time, are readings: arguments of
the function that makes the call.
-/

namespace ZolanaTvc.Gateway

open Protocol Except Effectful

/-- What a handler does besides computing its answer. -/
inductive Effect where
  | enclave
  | turnkey
  | claimed (key : Key)
  /-- An earlier request's outcome was found. -/
  | replayed
  | released (key : Key)
  | recorded (key : Key) (outcome : Outcome)

abbrev Call := Effectful Effect ApiError

section Enclave

def JSON : HeaderValue := utf8 "application/json"

structure HttpResponse where
  status : StatusCode
  contentType : Option HeaderValue
  contentLength : Option ℕ
  /-- The body as it arrives; `none` is a read that failed. -/
  chunks : List (Option Bytes)

/-- What came of a request: nothing, or the head of a response and its body. -/
abbrev Exchange := Option HttpResponse

/-- `StatusCode::is_success` -/
def StatusCode.isSuccess (status : StatusCode) : Prop := 200 ≤ status ∧ status < 300

/-- `StatusCode::is_server_error` -/
def StatusCode.isServerError (status : StatusCode) : Prop := 500 ≤ status ∧ status < 600

instance isSuccess.decidable (status : StatusCode) : Decidable (StatusCode.isSuccess status) :=
  inferInstanceAs (Decidable (_ ∧ _))

instance isServerError.decidable (status : StatusCode) :
    Decidable (StatusCode.isServerError status) :=
  inferInstanceAs (Decidable (_ ∧ _))

/-- The loop of `read_capped`. -/
def readChunks (maxBodyBytes : ℕ) : Bytes → List (Option Bytes) → Except ApiError Bytes
  | body, [] => .ok body
  | _, none :: _ => .error .enclaveUnavailable
  | body, some chunk :: chunks =>
    if body.length + chunk.length > maxBodyBytes then .error .upstreamResponseTooLarge
    else readChunks maxBodyBytes (body ++ chunk) chunks

def readCapped (response : HttpResponse) (maxBodyBytes : ℕ) : Except ApiError Bytes := do
  refuse (response.contentLength.any (fun len => len > maxBodyBytes) = true)
    .upstreamResponseTooLarge
  readChunks maxBodyBytes [] response.chunks

/-- `Enclave::send`, after the request. -/
def received (maxBodyBytes : ℕ) (exchange : Exchange) : Outcome := do
  let response ← ofOption exchange .enclaveUnavailable
  refuse (StatusCode.isServerError response.status) .enclaveUnavailable
  let body ← readCapped response maxBodyBytes
  return ⟨response.status, response.contentType.getD JSON, body⟩

def send (maxBodyBytes : ℕ) (exchange : Exchange) : Call Forwarded :=
  act .enclave (received maxBodyBytes exchange)

theorem readChunks_error {maxBodyBytes : ℕ} {body : Bytes} {chunks : List (Option Bytes)}
    {e : ApiError} (h : readChunks maxBodyBytes body chunks = .error e) :
    e = .enclaveUnavailable ∨ e = .upstreamResponseTooLarge := by
  induction chunks generalizing body with
  | nil => cases h
  | cons chunk chunks ih =>
    cases chunk with
    | none => exact .inl (Except.error.inj h).symm
    | some chunk =>
      rw [readChunks] at h
      split_ifs at h
      · exact .inr (Except.error.inj h).symm
      · exact ih h

theorem received_error {maxBodyBytes : ℕ} {exchange : Exchange} {e : ApiError}
    (h : received maxBodyBytes exchange = .error e) :
    e = .enclaveUnavailable ∨ e = .upstreamResponseTooLarge := by
  simp only [received, readCapped, bind_eq_error, refuse_eq_error, ofOption_eq_error,
    pure_ne_error, and_false, exists_false, or_false] at h
  obtain ⟨-, rfl⟩ | ⟨_, -, ⟨-, rfl⟩ | ⟨_, -, ⟨-, rfl⟩ | ⟨_, -, h⟩⟩⟩ := h
  · exact .inl rfl
  · exact .inl rfl
  · exact .inr rfl
  · exact readChunks_error h

/-- What is forwarded has the status that the enclave answered, which is no server error's. -/
theorem received_ok {maxBodyBytes : ℕ} {exchange : Exchange} {forwarded : Forwarded}
    (h : received maxBodyBytes exchange = .ok forwarded) :
    ¬StatusCode.isServerError forwarded.status ∧
      ∃ response, exchange = some response ∧ response.status = forwarded.status := by
  simp only [received, bind_eq_ok, ofOption_eq_ok, refuse_eq_ok, pure_eq_ok] at h
  obtain ⟨response, hexchange, _, hstatus, body, -, rfl⟩ := h
  exact ⟨hstatus, response, hexchange, rfl⟩

end Enclave

section Turnkey

/-- What came of a Turnkey call: an answer, or a failure with the status if there was one. -/
abbrev TurnkeyReply (A : Type) := Except (Option StatusCode) A

def turnkeyStatus (status : Option StatusCode) (rejected : ApiError) : ApiError :=
  match status with
  | some 400 | some 403 | some 404 => rejected
  | some 401 => .turnkeyUnauthorized
  | some 429 => .turnkeyRateLimited
  | some _ | none => .turnkeyUnavailable

def turnkeyFailure {A : Type} (reply : TurnkeyReply A) (rejected : ApiError) : Except ApiError A :=
  reply.mapError fun status => turnkeyStatus status rejected

def NOT_OWNED : ApiError := .turnkeyRejected

/-- Which limits a Turnkey call counts against. -/
inductive CallShare where
  | project (project : ProjectId)
  | shared

/-- Whether the project has a slot left, and whether there is a shared one. -/
structure Permits where
  own : Bool
  shared : Bool

def tryAcquire (permit : Bool) : Except ApiError Unit := refuse (permit = false) .tooManyInFlight

def callPermit (share : CallShare) (permits : Permits) : Except ApiError Unit := do
  match share with
  | .project _ => tryAcquire permits.own
  | .shared => pure ()
  tryAcquire permits.shared

/-- Turnkey's reply to `get_boot_proof`: the proof may be missing, and may not serialize. -/
abbrev BootProofReply := TurnkeyReply (Option (Option Bytes))

/-- `fetch_boot_proof`, after the call. -/
def bootProofBody (reply : BootProofReply) : Except ApiError Bytes := do
  let bootProof ← ofOption (← turnkeyFailure reply .bootProofUnavailable) .bootProofUnavailable
  ofOption bootProof .bootProofUnavailable

/-- What a caller of `boot_proof` finds, turn by turn; the turns of many callers are the steps of
`BootProofs.Step`. -/
inductive BootProofReadings where
  | cached (body : Bytes)
  /-- Another caller's lookup, with Turnkey's reply to it. -/
  | shared (reply : BootProofReply)
  /-- Another caller's lookup, which that caller left. -/
  | abandoned (rest : BootProofReadings)
  /-- No lookup, but one that began while this caller got its slots. -/
  | yielded (permits : Permits) (rest : BootProofReadings)
  | alone (permits : Permits) (reply : BootProofReply)

/-- The loop of `boot_proof`. -/
def lookUp (share : CallShare) : BootProofReadings → Call Bytes
  | .cached body => pure body
  | .shared reply => ofExcept (bootProofBody reply)
  | .abandoned rest => lookUp share rest
  | .yielded permits rest => do
    ofExcept (callPermit share permits)
    lookUp share rest
  | .alone permits reply => do
    ofExcept (callPermit share permits)
    act .turnkey (bootProofBody reply)

def bootProof (ephemeralKey : String) (share : CallShare) (readings : BootProofReadings) :
    Call Bytes := do
  ofExcept (refuse (isLowerHex ephemeralKey EPHEMERAL_KEY_HEX_LEN = false) .invalidEnclaveAnswer)
  lookUp share readings

/-- The wallet a descriptor names, as the client claims it. -/
structure ClaimedWallet where
  organizationId : String
  walletId : String
  address : String

/-- What the check of a sub-organization finds: the name in the cache, or the slots and Turnkey's reply
to `get_whoami`. -/
structure SubOrgReadings where
  cached : Option String
  permits : Permits
  whoami : TurnkeyReply String

def fetchSubOrgProject (project : ProjectId) (r : SubOrgReadings) : Call String := do
  ofExcept (callPermit (.project project) r.permits)
  act .turnkey (turnkeyFailure r.whoami NOT_OWNED)

/-- The sub-organization's name, from the cache or from Turnkey. -/
def subOrgProject (project : ProjectId) (r : SubOrgReadings) : Call String :=
  match r.cached with
  | some name => pure name
  | none => fetchSubOrgProject project r

/-- Refuses a sub-org that is not named after the caller's project. -/
def verifySubOrgProject (project : ProjectId) (r : SubOrgReadings) : Call Unit := do
  let name ← subOrgProject project r
  ofExcept (refuse (name ≠ project.text) .subOrganizationNotOwned)

structure WalletAccount where
  walletId : String
  address : String

structure OwnershipReadings where
  subOrg : SubOrgReadings
  permits : Permits
  accounts : TurnkeyReply (List WalletAccount)

/-- Refuses a wallet that is not in a sub-org of the caller's project, or whose account does not have
the claimed address. -/
def verifyOwnership (project : ProjectId) (wallet : ClaimedWallet) (r : OwnershipReadings) :
    Call Unit := do
  verifySubOrgProject project r.subOrg
  ofExcept (callPermit (.project project) r.permits)
  let accounts ← act .turnkey (turnkeyFailure r.accounts NOT_OWNED)
  ofExcept (refuse (¬accounts.any (fun account =>
    account.walletId == wallet.walletId && account.address == wallet.address)) .walletNotOwned)

section Failures

variable {e : ApiError}

theorem received_below {maxBodyBytes : ℕ} {exchange : Exchange}
    (h : received maxBodyBytes exchange = .error e) : e.status < 500 := by
  rcases received_error h with rfl | rfl <;> decide

theorem turnkeyStatus_below {status : Option StatusCode} {rejected : ApiError}
    (hr : rejected.status < 500) : (turnkeyStatus status rejected).status < 500 := by
  unfold turnkeyStatus
  split <;> first | exact hr | decide

theorem turnkeyFailure_below {A : Type} {reply : TurnkeyReply A} {rejected : ApiError}
    (hr : rejected.status < 500) (h : turnkeyFailure reply rejected = .error e) : e.status < 500 := by
  cases reply with
  | ok a => cases h
  | error status =>
    cases h
    exact turnkeyStatus_below hr

theorem callPermit_below {share : CallShare} {permits : Permits}
    (h : callPermit share permits = .error e) : e.status < 500 := by
  have : e = .tooManyInFlight := by
    cases share with
    | project project =>
      simp only [callPermit, tryAcquire, bind_eq_error, refuse_eq_error] at h
      grind
    | shared =>
      exact (refuse_eq_error.1 h).2.symm
  rw [this]
  decide

theorem bootProofBody_below {reply : BootProofReply} (h : bootProofBody reply = .error e) :
    e.status < 500 := by
  simp only [bootProofBody, bind_eq_error, ofOption_eq_error] at h
  obtain h | ⟨_, -, ⟨-, rfl⟩ | ⟨_, -, -, rfl⟩⟩ := h
  · exact turnkeyFailure_below (by decide) h
  · decide
  · decide

theorem lookUp_meets (share : CallShare) (readings : BootProofReadings) :
    (lookUp share readings).Meets (fun e => e.status < 500) fun _ => True := by
  induction readings with
  | cached body => exact .pure trivial
  | shared reply => exact .of_error fun _ => bootProofBody_below
  | abandoned rest ih => exact ih
  | yielded permits rest ih => exact .bind (.of_error fun _ => callPermit_below) fun _ _ => ih
  | alone permits reply =>
    exact .bind (.of_error fun _ => callPermit_below) fun _ _ => .of_error fun _ => bootProofBody_below

theorem bootProof_meets (key : String) (share : CallShare) (readings : BootProofReadings) :
    (bootProof key share readings).Meets (fun e => e.status < 500) fun _ => True := by
  refine .bind (.of_error fun e h => ?_) fun _ _ => lookUp_meets share readings
  rw [(refuse_eq_error.1 h).2.symm]
  decide

end Failures

section Ownership

/-- Turnkey is asked for the name of the sub-organization, and it is the project's. -/
def Asked (project : ProjectId) (r : SubOrgReadings) : Prop :=
  r.cached = none ∧ callPermit (.project project) r.permits = .ok () ∧ r.whoami = .ok project.text

variable {project : ProjectId} {r : SubOrgReadings}

theorem turnkeyFailure_ok {A : Type} {reply : TurnkeyReply A} {rejected : ApiError} {a : A} :
    turnkeyFailure reply rejected = .ok a ↔ reply = .ok a := by
  cases reply <;> simp [turnkeyFailure, Except.mapError]

theorem fetchSubOrgProject_ok {name : String} :
    (fetchSubOrgProject project r).result = .ok name ↔
      callPermit (.project project) r.permits = .ok () ∧ r.whoami = .ok name := by
  rw [fetchSubOrgProject, result_bind, bind_eq_ok]
  show (∃ u : Unit, _ = Except.ok u ∧ turnkeyFailure r.whoami NOT_OWNED = .ok name) ↔ _
  rw [turnkeyFailure_ok]
  exact ⟨fun ⟨_, hpermit, hname⟩ => ⟨hpermit, hname⟩, fun ⟨hpermit, hname⟩ => ⟨(), hpermit, hname⟩⟩

/-- The sub-organization is the caller's if the cache or Turnkey says so. -/
theorem verifySubOrgProject_ok : (verifySubOrgProject project r).result = .ok () ↔
    r.cached = some project.text ∨ Asked project r := by
  rw [verifySubOrgProject, result_bind, bind_eq_ok]
  show (∃ name, _ ∧ refuse (name ≠ project.text) _ = .ok ()) ↔ _
  simp only [refuse_eq_ok, not_ne_iff, exists_eq_right, subOrgProject, Asked]
  cases r.cached with
  | some name => simp [pure]
  | none => simp [fetchSubOrgProject_ok]

theorem verifySubOrgProject_error {e : ApiError}
    (h : (verifySubOrgProject project r).result = .error e) : e.status < 500 := by
  rw [verifySubOrgProject, result_bind, bind_eq_error, subOrgProject] at h
  obtain h | ⟨_, -, h⟩ := h
  · cases hcached : r.cached with
    | some name =>
      rw [hcached] at h
      cases h
    | none =>
      rw [hcached] at h
      exact (Meets.bind (R := fun _ => True) (.of_error fun _ => callPermit_below) fun _ _ =>
        .of_error fun _ => turnkeyFailure_below (by decide)).1 e h
  · rw [← (refuse_eq_error.1 h).2]
    decide

/-- The check calls Turnkey if the cache does not know the name and slots are left. -/
theorem mem_verifySubOrgProject_effects {e : Effect} :
    e ∈ (verifySubOrgProject project r).effects ↔
      e = .turnkey ∧ r.cached = none ∧ callPermit (.project project) r.permits = .ok () := by
  rw [verifySubOrgProject, mem_effects_bind, subOrgProject]
  cases r.cached with
  | some name => simp [pure, Effectful.ofExcept]
  | none =>
    constructor
    · rintro (h | ⟨_, _, h⟩)
      · obtain h | ⟨_, hpermit, h⟩ := mem_effects_bind.1 h
        · cases h
        · exact ⟨List.mem_singleton.1 h, rfl, hpermit⟩
      · cases h
    · rintro ⟨rfl, -, hpermit⟩
      exact .inl (mem_effects_bind.2 (.inr ⟨(), hpermit, List.mem_singleton_self _⟩))

end Ownership

end Turnkey

end ZolanaTvc.Gateway
