import ZolanaTvc.Control.Run
import ZolanaTvc.Gateway.ReplayLedger

/-!
# Operations in flight

The handlers of `/operations` run on any number of tasks, each from one await point to the next. A command
of the ledger is executed at one instant, and with a shared store its answer can be lost, or the command
itself. A handler is dropped when its caller disconnects.
-/

namespace ZolanaTvc.Gateway

open Protocol Except Effectful

/-- A request to `/operations`, with what its handler finds but for the ledger. The reading of a claim is
not used. -/
structure OperationCall where
  project : ProjectId
  descriptor : WalletDescriptor
  ciphertext : Bytes
  readings : AppState.OperationsReadings
  valid : ∀ response, readings.exchange = some response → StatusCode.IsValid response.status

/-- The tasks of the gateway, which are configured alike, and the requests made to them. -/
structure Tasks where
  state : AppState
  http : Http
  call : ℕ → OperationCall

namespace Tasks

section Calls

variable (g : Tasks) (i : ℕ)

def key : Key := Key.of g.state.crypto.sha256 (g.call i).project (g.call i).ciphertext

def admitted : Except ApiError Unit := g.state.admits (g.call i).descriptor (g.call i).readings

def granted : Except ApiError WalletGrant :=
  (g.state.granted (g.call i).project (g.call i).descriptor (g.call i).readings).result

/-- What the enclave's answer comes to. -/
def outcome : Outcome := received g.state.maxBodyBytes (g.call i).readings.exchange

def answer (outcome : Outcome) : Response :=
  respond (g.state.answer outcome (g.call i).readings.bootProof)

/-- Two requests of one project with one ciphertext. -/
def Same (i j : ℕ) : Prop :=
  (g.call i).project = (g.call j).project ∧ (g.call i).ciphertext = (g.call j).ciphertext

end Calls

/-- Where a handler is. `since` is when its claim was executed. -/
inductive Phase where
  | arrived
  | claiming
  /-- The claim was executed, and its answer has not arrived. -/
  | claimed (since : ℕ) (answer : Except ApiError Claim)
  | holding (since : ℕ)
  | refused (since : ℕ) (error : ApiError)
  | granted (since : ℕ)
  /-- The enclave is being asked; `reached` when the request was sent. -/
  | forwarding (since : ℕ) (reached : Bool)
  | recording (since : ℕ) (outcome : Outcome)
  | answering (outcome : Outcome) (replayed : Bool)
  | done (response : Response)
  | dropped

namespace Phase

/-- The claim is new and is neither recorded nor released yet. -/
def Holds (since : ℕ) : Phase → Prop
  | claimed t (.ok (.new _)) | holding t | refused t _ | granted t | forwarding t _ | recording t _ =>
    t = since
  | _ => False

/-- The handler runs. -/
def Live : Phase → Prop
  | arrived | done _ | dropped => False
  | _ => True

/-- The handler waits for another program, so that it can be dropped there. The ledger of one process
makes nobody wait. -/
def Waits : ReplayLedger → Phase → Prop
  | _, holding _ | _, granted _ | _, forwarding .. | _, answering .. => True
  | .shared _, claiming | .shared _, claimed .. | .shared _, refused .. | .shared _, recording .. => True
  | _, _ => False

/-- After the answer to a claim. -/
def afterClaim (since : ℕ) : Except ApiError Claim → Phase
  | .ok (.new _) => holding since
  | .ok (.answered outcome) => answering outcome true
  | .error e => done (.problem e)

end Phase

/-- What has happened. No handler reads it. -/
structure Past where
  /-- When the request's claim put an entry. -/
  put : ℕ → Option ℕ
  /-- Whose claim put the last entry of the key. -/
  holder : Key → Option ℕ
  /-- The request's claim was released. -/
  gave : ℕ → Bool
  forwarded : ℕ → Bool
  /-- The request was sent to the enclave. -/
  reached : ℕ → Bool

structure State where
  now : ℕ
  ledger : ReplayLedger
  phase : ℕ → Phase
  past : Past

inductive Event where
  | passed (now : ℕ)
  | expired (key : Key)
  | turnedAway (i : ℕ)
  | admitted (i : ℕ)
  | claimed (i : ℕ)
  | heard (i : ℕ)
  | unheard (i : ℕ)
  | granted (i : ℕ)
  | ungranted (i : ℕ)
  | forwarded (i : ℕ)
  | reached (i : ℕ)
  | received (i : ℕ)
  | recorded (i : ℕ)
  | unrecorded (i : ℕ)
  | released (i : ℕ)
  | unreleased (i : ℕ)
  | answered (i : ℕ)
  | dropped (i : ℕ)

def Past.start : Past := ⟨fun _ => none, fun _ => none, fun _ => false, fun _ => false, fun _ => false⟩

/-- No request has come yet. -/
def start (now : ℕ) (ledger : ReplayLedger) : State := ⟨now, ledger, fun _ => .arrived, .start⟩

namespace State

def set (s : State) (i : ℕ) (phase : Phase) : State :=
  { s with phase := Function.update s.phase i phase }

/-- The claim of the request is executed. -/
def claim (g : Tasks) (s : State) (i : ℕ) : State :=
  let (answer, ledger) := s.ledger.claim g.http (g.key i) s.now
  let s := { s with ledger }.set i (.claimed s.now answer)
  match answer with
  | .ok (.new _) =>
    { s with past := { s.past with
      put := Function.update s.past.put i (some s.now)
      holder := Function.update s.past.holder (g.key i) (some i) } }
  | _ => s

def forward (s : State) (i since : ℕ) : State :=
  { s.set i (.forwarding since false) with
    past := { s.past with forwarded := Function.update s.past.forwarded i true } }

def reach (s : State) (i since : ℕ) : State :=
  { s.set i (.forwarding since true) with
    past := { s.past with reached := Function.update s.past.reached i true } }

def give (s : State) (i : ℕ) : State :=
  { s with past := { s.past with gave := Function.update s.past.gave i true } }

/-- The outcome of the request is recorded, or its claim released when the answer is too large. -/
def record (g : Tasks) (s : State) (i : ℕ) (outcome : Outcome) : State :=
  let s' := { s with ledger := s.ledger.record g.http (g.key i) outcome s.now }.set i (.answering outcome false)
  if ReplayLedger.Oversize outcome then s'.give i else s'

def release (g : Tasks) (s : State) (i : ℕ) (e : ApiError) : State :=
  ({ s with ledger := s.ledger.release (g.key i) }.set i (.done (.problem e))).give i

end State

/-- A step of a handler, of the store or of the clock. -/
inductive Step (g : Tasks) : State → Event → State → Prop where
  | passed {s : State} {t : ℕ} (later : s.now ≤ t) : Step g s (.passed t) { s with now := t }
  | expired {s : State} {key : Key} {ledger : SharedLedger} {held : Held} (store : s.ledger = .shared ledger)
    (entry : ledger.get key = some held) (past : held.expires ≤ s.now) :
    Step g s (.expired key) { s with ledger := .shared (ledger.del key) }
  | turnedAway {s : State} {i : ℕ} {e : ApiError} (phase : s.phase i = .arrived)
    (refusal : g.admitted i = .error e) : Step g s (.turnedAway i) (s.set i (.done (.problem e)))
  | admitted {s : State} {i : ℕ} (phase : s.phase i = .arrived) (admission : g.admitted i = .ok ()) :
    Step g s (.admitted i) (s.set i .claiming)
  | claimed {s : State} {i : ℕ} (phase : s.phase i = .claiming) : Step g s (.claimed i) (s.claim g i)
  | heard {s : State} {i since : ℕ} {answer : Except ApiError Claim}
    (phase : s.phase i = .claimed since answer) :
    Step g s (.heard i) (s.set i (.afterClaim since answer))
  /-- The command failed, or was not answered in time. -/
  | unheard {s : State} {i : ℕ} {ledger : SharedLedger} (store : s.ledger = .shared ledger)
    (phase : s.phase i = .claiming ∨ ∃ since answer, s.phase i = .claimed since answer) :
    Step g s (.unheard i) (s.set i (.done (.problem .replayGuardUnavailable)))
  | granted {s : State} {i since : ℕ} {grant : WalletGrant} (phase : s.phase i = .holding since)
    (issued : g.granted i = .ok grant) : Step g s (.granted i) (s.set i (.granted since))
  | ungranted {s : State} {i since : ℕ} {e : ApiError} (phase : s.phase i = .holding since)
    (refusal : g.granted i = .error e) : Step g s (.ungranted i) (s.set i (.refused since e))
  | forwarded {s : State} {i since : ℕ} (phase : s.phase i = .granted since) :
    Step g s (.forwarded i) (s.forward i since)
  | reached {s : State} {i since : ℕ} (phase : s.phase i = .forwarding since false) :
    Step g s (.reached i) (s.reach i since)
  /-- A request that is not sent fails for want of a connection. -/
  | received {s : State} {i since : ℕ} {reached : Bool} (phase : s.phase i = .forwarding since reached)
    (connection : reached = false → (g.call i).readings.exchange = none) :
    Step g s (.received i) (s.set i (.recording since (g.outcome i)))
  | recorded {s : State} {i since : ℕ} {outcome : Outcome} (phase : s.phase i = .recording since outcome) :
    Step g s (.recorded i) (s.record g i outcome)
  | unrecorded {s : State} {i since : ℕ} {outcome : Outcome} {ledger : SharedLedger}
    (store : s.ledger = .shared ledger) (phase : s.phase i = .recording since outcome) :
    Step g s (.unrecorded i) (s.set i (.answering outcome false))
  | released {s : State} {i since : ℕ} {e : ApiError} (phase : s.phase i = .refused since e) :
    Step g s (.released i) (s.release g i e)
  | unreleased {s : State} {i since : ℕ} {e : ApiError} {ledger : SharedLedger}
    (store : s.ledger = .shared ledger) (phase : s.phase i = .refused since e) :
    Step g s (.unreleased i) (s.set i (.done (.problem e)))
  | answered {s : State} {i : ℕ} {outcome : Outcome} {replayed : Bool}
    (phase : s.phase i = .answering outcome replayed) :
    Step g s (.answered i) (s.set i (.done
      (if replayed then .replayed (g.answer i outcome) else g.answer i outcome)))
  | dropped {s : State} {i : ℕ} (waits : (s.phase i).Waits s.ledger) :
    Step g s (.dropped i) (s.set i .dropped)

/-- What a handler does next, whatever the others do. -/
inductive Next (g : Tasks) (i : ℕ) : Phase → Phase → Prop where
  | turnedAway {e : ApiError} (refusal : g.admitted i = .error e) : Next g i .arrived (.done (.problem e))
  | admitted (admission : g.admitted i = .ok ()) : Next g i .arrived .claiming
  | claimed {since : ℕ} {answer : Except ApiError Claim} : Next g i .claiming (.claimed since answer)
  | heard {since : ℕ} {answer : Except ApiError Claim} :
    Next g i (.claimed since answer) (.afterClaim since answer)
  | unsent : Next g i .claiming (.done (.problem .replayGuardUnavailable))
  | unheard {since : ℕ} {answer : Except ApiError Claim} :
    Next g i (.claimed since answer) (.done (.problem .replayGuardUnavailable))
  | granted {since : ℕ} {grant : WalletGrant} (issued : g.granted i = .ok grant) :
    Next g i (.holding since) (.granted since)
  | ungranted {since : ℕ} {e : ApiError} (refusal : g.granted i = .error e) :
    Next g i (.holding since) (.refused since e)
  | forwarded {since : ℕ} : Next g i (.granted since) (.forwarding since false)
  | reached {since : ℕ} : Next g i (.forwarding since false) (.forwarding since true)
  | received {since : ℕ} {reached : Bool} :
    Next g i (.forwarding since reached) (.recording since (g.outcome i))
  | recorded {since : ℕ} {outcome : Outcome} :
    Next g i (.recording since outcome) (.answering outcome false)
  | released {since : ℕ} {e : ApiError} : Next g i (.refused since e) (.done (.problem e))
  | answered {outcome : Outcome} {replayed : Bool} : Next g i (.answering outcome replayed) (.done
      (if replayed then .replayed (g.answer i outcome) else g.answer i outcome))
  | dropped {phase : Phase} : Next g i phase .dropped

section Moves

variable {g : Tasks} {s s' : State} {e : Event} {i j : ℕ}

theorem claim_phase : ∃ answer, (s.claim g i).phase = Function.update s.phase i (.claimed s.now answer) := by
  simp only [State.claim]
  split
  · exact ⟨_, rfl⟩
  · exact ⟨_, rfl⟩

theorem record_phase {outcome : Outcome} :
    (s.record g i outcome).phase = Function.update s.phase i (.answering outcome false) := by
  rw [State.record]
  split_ifs <;> rfl

/-- The claim is executed, and its answer has not arrived. -/
def Phase.IsClaimed (phase : Phase) : Prop := ∃ since answer, phase = .claimed since answer

theorem afterClaim_ne_claimed {since : ℕ} {answer : Except ApiError Claim} :
    ¬(Phase.afterClaim since answer).IsClaimed := by
  rintro ⟨since', answer', h⟩
  rcases answer with e | ⟨key⟩ | ⟨outcome⟩ <;> cases h

/-- A step moves one handler at most. -/
theorem moves (h : Step g s e s') : (∀ j, s'.phase j = s.phase j) ∨
    ∃ i phase, s'.phase = Function.update s.phase i phase ∧ Next g i (s.phase i) phase ∧
      (phase.IsClaimed → e = .claimed i) := by
  -- Only the claim itself leads to a phase that has just claimed.
  have no : ∀ {phase : Phase} {i}, ¬phase.IsClaimed → phase.IsClaimed → e = .claimed i :=
    fun hno hyes => absurd hyes hno
  cases h with
  | passed | expired => exact .inl fun _ => rfl
  | claimed phase =>
    obtain ⟨answer, hphase⟩ := claim_phase
    exact .inr ⟨_, _, hphase, phase ▸ .claimed, fun _ => rfl⟩
  | heard phase => exact .inr ⟨_, _, rfl, phase ▸ .heard, no afterClaim_ne_claimed⟩
  | unheard _ phase =>
    obtain phase | ⟨since, answer, phase⟩ := phase
    · exact .inr ⟨_, _, rfl, phase ▸ .unsent, no (by simp [Phase.IsClaimed])⟩
    · exact .inr ⟨_, _, rfl, phase ▸ .unheard, no (by simp [Phase.IsClaimed])⟩
  | recorded phase =>
    exact .inr ⟨_, _, record_phase, phase ▸ .recorded, no (by simp [Phase.IsClaimed])⟩
  | turnedAway phase refusal =>
    exact .inr ⟨_, _, rfl, phase ▸ .turnedAway refusal, no (by simp [Phase.IsClaimed])⟩
  | admitted phase admission =>
    exact .inr ⟨_, _, rfl, phase ▸ .admitted admission, no (by simp [Phase.IsClaimed])⟩
  | granted phase issued =>
    exact .inr ⟨_, _, rfl, phase ▸ .granted issued, no (by simp [Phase.IsClaimed])⟩
  | ungranted phase refusal =>
    exact .inr ⟨_, _, rfl, phase ▸ .ungranted refusal, no (by simp [Phase.IsClaimed])⟩
  | forwarded phase =>
    exact .inr ⟨_, _, rfl, phase ▸ .forwarded, no (by simp [Phase.IsClaimed])⟩
  | reached phase => exact .inr ⟨_, _, rfl, phase ▸ .reached, no (by simp [Phase.IsClaimed])⟩
  | received phase => exact .inr ⟨_, _, rfl, phase ▸ .received, no (by simp [Phase.IsClaimed])⟩
  | unrecorded _ phase => exact .inr ⟨_, _, rfl, phase ▸ .recorded, no (by simp [Phase.IsClaimed])⟩
  | released phase => exact .inr ⟨_, _, rfl, phase ▸ .released, no (by simp [Phase.IsClaimed])⟩
  | unreleased _ phase => exact .inr ⟨_, _, rfl, phase ▸ .released, no (by simp [Phase.IsClaimed])⟩
  | answered phase => exact .inr ⟨_, _, rfl, phase ▸ .answered, no (by simp [Phase.IsClaimed])⟩
  | dropped => exact .inr ⟨_, _, rfl, .dropped, no (by simp [Phase.IsClaimed])⟩

theorem next_or_same (h : Step g s e s') (j : ℕ) :
    s'.phase j = s.phase j ∨ Next g j (s.phase j) (s'.phase j) := by
  obtain hsame | ⟨i, phase, hphase, hnext, -⟩ := moves h
  · exact .inl (hsame j)
  · rw [hphase]
    by_cases hj : j = i
    · subst hj
      exact .inr (by rwa [Function.update_self])
    · exact .inl (Function.update_of_ne hj ..)

/-- What becomes of a claim. -/
theorem claiming_cases (h : Step g s e s') (before : s.phase j = .claiming) :
    s'.phase j = .claiming ∨ s' = s.claim g j ∨
      s'.phase j = .done (.problem .replayGuardUnavailable) ∨ s'.phase j = .dropped := by
  obtain hsame | ⟨i, phase, hphase, hnext, hclaimed⟩ := moves h
  · exact .inl ((hsame j).trans before)
  · by_cases hj : j = i
    · subst hj
      rw [hphase, Function.update_self]
      rw [before] at hnext
      cases hnext with
      | @claimed since answer =>
        have hevent := hclaimed ⟨since, answer, rfl⟩
        subst hevent
        cases h with
        | claimed => exact .inr (.inl rfl)
      | unsent => exact .inr (.inr (.inl rfl))
      | dropped => exact .inr (.inr (.inr rfl))
    · exact .inl (hphase ▸ (Function.update_of_ne hj ..).trans before)

/-- Only a request with a grant is forwarded. -/
theorem forwarded_cases (h : Step g s e s') (j : ℕ) : s'.past.forwarded j = s.past.forwarded j ∨
    ∃ since, s.phase j = .granted since := by
  cases h with
  | claimed =>
    left
    simp only [State.claim]
    split <;> rfl
  | @forwarded i since phase =>
    by_cases hj : j = i
    · exact .inr ⟨since, hj ▸ phase⟩
    · exact .inl (Function.update_of_ne hj ..)
  | recorded =>
    left
    rw [State.record]
    split_ifs <;> rfl
  | _ => exact .inl rfl

/-- A new claim puts an entry. -/
theorem claim_put {key : Key} (h : (s.ledger.claim g.http (g.key i) s.now).1 = .ok (.new key)) :
    (s.claim g i).past.put i = some s.now := by
  simp only [State.claim, h]
  exact Function.update_self ..

theorem put_cases (h : Step g s e s') (j : ℕ) :
    s'.past.put j = s.past.put j ∨ s'.past.put j = some s.now := by
  cases h with
  | @claimed i =>
    simp only [State.claim]
    split
    · by_cases hj : j = i
      · exact .inr (hj ▸ Function.update_self ..)
      · exact .inl (Function.update_of_ne hj ..)
    · exact .inl rfl
  | recorded =>
    left
    rw [State.record]
    split_ifs <;> rfl
  | _ => exact .inl rfl

/-- Only the handler that asks the enclave sends its request. -/
theorem reached_cases (h : Step g s e s') (j : ℕ) : s'.past.reached j = s.past.reached j ∨
    s'.past.reached j = true ∧ ∃ since, s.phase j = .forwarding since false := by
  cases h with
  | claimed =>
    left
    simp only [State.claim]
    split <;> rfl
  | @reached i since phase =>
    by_cases hj : j = i
    · exact .inr ⟨hj ▸ Function.update_self .., since, hj ▸ phase⟩
    · exact .inl (Function.update_of_ne hj ..)
  | recorded =>
    left
    rw [State.record]
    split_ifs <;> rfl
  | _ => exact .inl rfl

theorem gave_mono (h : Step g s e s') {j : ℕ} (gave : s.past.gave j = true) : s'.past.gave j = true := by
  have hgive : ∀ (s : State) i, s.past.gave j = true → (s.give i).past.gave j = true := by
    intro s i hj
    show Function.update s.past.gave i true j = true
    by_cases hij : j = i
    · rw [hij, Function.update_self]
    · rwa [Function.update_of_ne hij]
  cases h with
  | claimed =>
    simp only [State.claim]
    split <;> exact gave
  | recorded =>
    rw [State.record]
    split_ifs
    · exact hgive _ _ gave
    · exact gave
  | released => exact hgive _ _ gave
  | _ => exact gave

theorem now_le (h : Step g s e s') : s.now ≤ s'.now := by
  cases h with
  | passed later => exact later
  | claimed =>
    simp only [State.claim]
    split <;> exact le_rfl
  | recorded =>
    rw [State.record]
    split_ifs <;> exact le_rfl
  | _ => exact le_rfl

end Moves

section Handlers

variable {g : Tasks} {i : ℕ} {reading : AppState.ClaimReading}

/-- The handler's answer, when the ledger answers its claim so. -/
def response (g : Tasks) (i : ℕ) (reading : AppState.ClaimReading) : Response :=
  respond (g.state.operations (g.call i).project (g.call i).descriptor
    { (g.call i).readings with claim := reading })

theorem answer_result (s : AppState) (outcome : Outcome) (readings : BootProofReadings) :
    ∃ answered, (s.answer outcome readings).result = .ok answered := by
  rw [AppState.answer, attempt_bind]
  split
  · exact ⟨_, rfl⟩
  · exact ⟨_, rfl⟩

theorem response_turnedAway {e : ApiError} (h : g.admitted i = .error e) :
    g.response i reading = .problem e := by
  have hadmits : g.state.admits (g.call i).descriptor { (g.call i).readings with claim := reading } =
      .error e := h
  rw [response, AppState.operations, hadmits]
  rfl

theorem response_admitted (h : g.admitted i = .ok ()) : g.response i reading =
    respond (AppState.claim g.state.maxBodyBytes reading >>= fun claim =>
      match claim with
      | .answered outcome => do
        return .replayed (← g.state.answer outcome (g.call i).readings.bootProof)
      | .new key => do
        match ← attempt (g.state.granted (g.call i).project (g.call i).descriptor (g.call i).readings) with
        | .error e => do
          act (.released key) (.ok ())
          ofExcept (.error e)
        | .ok _ => do
          let outcome ← attempt (send g.state.maxBodyBytes (g.call i).readings.exchange)
          AppState.record key outcome
          g.state.answer outcome (g.call i).readings.bootProof) := by
  have hadmits : g.state.admits (g.call i).descriptor { (g.call i).readings with claim := reading } =
      .ok () := h
  rw [response, AppState.operations, hadmits]
  rfl

theorem response_inProgress (h : g.admitted i = .ok ()) :
    g.response i .inProgress = .problem .operationInProgress := by
  rw [response_admitted h]
  rfl

theorem response_unavailable (h : g.admitted i = .ok ()) :
    g.response i .unavailable = .problem .replayGuardUnavailable := by
  rw [response_admitted h]
  rfl

theorem respond_replayed {x : Call Response} {response : Response} (h : x.result = .ok response) :
    respond (x >>= fun response => pure (.replayed response)) = .replayed (respond x) := by
  rw [respond_bind_ok h]
  unfold respond
  rw [h]
  rfl

theorem response_answered (h : g.admitted i = .ok ()) (k : ℕ) :
    g.response i (.answered (g.call k).readings.exchange) = .replayed (g.answer i (g.outcome k)) := by
  obtain ⟨answered, hanswered⟩ :=
    answer_result g.state (g.outcome k) (g.call i).readings.bootProof
  rw [response_admitted h, AppState.claim, respond_bind_ok rfl]
  exact respond_replayed hanswered

/-- What is left to do once the claim is new. -/
theorem response_new (h : g.admitted i = .ok ()) (key : Key) : g.response i (.new key) =
    respond (match g.granted i with
      | .error e => (do
        act (.released key) (.ok ())
        ofExcept (.error e) : Call Response)
      | .ok _ => do
        let outcome ← attempt (send g.state.maxBodyBytes (g.call i).readings.exchange)
        AppState.record key outcome
        g.state.answer outcome (g.call i).readings.bootProof) := by
  rw [response_admitted h, AppState.claim, respond_bind_ok rfl]
  rfl

theorem response_ungranted (h : g.admitted i = .ok ()) {e : ApiError} (hgranted : g.granted i = .error e)
    (key : Key) : g.response i (.new key) = .problem e := by
  rw [response_new h, hgranted]
  rfl

theorem record_result (key : Key) (outcome : Outcome) : (AppState.record key outcome).result = .ok () := by
  unfold AppState.record
  split
  · split_ifs <;> rfl
  · rfl

theorem response_granted (h : g.admitted i = .ok ()) {grant : WalletGrant}
    (hgranted : g.granted i = .ok grant) (key : Key) :
    g.response i (.new key) = g.answer i (g.outcome i) := by
  rw [response_new h, hgranted]
  show respond (attempt (send g.state.maxBodyBytes (g.call i).readings.exchange) >>= fun outcome =>
    AppState.record key outcome >>= fun _ => g.state.answer outcome (g.call i).readings.bootProof) = _
  rw [respond_bind_ok (a := g.outcome i) rfl, respond_bind_ok (record_result key _)]
  rfl

end Handlers

end Tasks

end ZolanaTvc.Gateway
