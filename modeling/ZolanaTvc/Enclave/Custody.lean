import ZolanaTvc.Control.Run
import ZolanaTvc.Enclave.State

/-!
# The custodian

Turnkey signs for the enclave once the owner approves. `sign_with_approval` submits one activity and asks
for it until it is settled. It is read as a state machine whose every step is one request and its
answer; the deadline of the operation ends it from outside.

## Main results

* `sign_asks_once`: whatever Turnkey answers, the owner is asked for one approval, and the answer returned
  is the answer to that one.
-/

namespace ZolanaTvc.Enclave.Custody

section Types

-- The parameters of the payload to sign, the signature a completed activity holds and an app proof.
variable (Params Signature Proof : Type)

inductive ActivityStatus where
  | completed
  | consensusNeeded
  | pending
  | rejected
  | failed
  /-- Any other. -/
  | other
deriving DecidableEq

inductive ActivityType where
  | signRawPayloadV2
  | other
deriving DecidableEq

inductive Intent where
  | signRawPayloadIntentV2 (params : Params)
  | other
deriving DecidableEq

inductive Result where
  | signRawPayloadResult (result : Signature)
  | other

structure Activity where
  id : String
  organizationId : String
  type : ActivityType
  intent : Option (Intent Params)
  status : ActivityStatus
  result : Option (Result Signature)
  appProofs : List Proof

inductive TurnkeyClientError where
  | unexpectedHttpStatus (status : ℕ)
  | other
deriving DecidableEq

structure SignRawPayloadRequest where
  type : String
  timestampMs : String
  organizationId : String
  parameters : Params

inductive Request where
  | submit (request : SignRawPayloadRequest Params)
  | getActivity (organizationId activityId : String)

/-- What one request meets: its answer, and the clock of the client. -/
structure Reading where
  answer : Except TurnkeyClientError (Option (Activity Params Signature Proof))
  currentTimestamp : ℕ

structure ActivityResult where
  result : Signature
  activityId : String
  status : ActivityStatus
  appProofs : List Proof

/-- Where `sign_with_approval` stands. -/
inductive Phase where
  | submitting (permissionRetries : ℕ) (request : SignRawPayloadRequest Params)
  | polling (activityId : String)
  | returned (result : Except CustodyError (ActivityResult Signature Proof))

/-- A request and what it met. -/
abbrev Exchange := Request Params × Reading Params Signature Proof

end Types

variable {Params Signature Proof : Type} [DecidableEq Params]

/-- Whether an activity is the one that was submitted. -/
def Matches (organizationId : String) (params : Params) (activityId : String)
    (activity : Activity Params Signature Proof) : Prop :=
  activity.id = activityId ∧ activity.organizationId = organizationId ∧
    activity.type = .signRawPayloadV2 ∧ activity.intent = some (.signRawPayloadIntentV2 params)

instance matches.decidable (organizationId : String) (params : Params) (activityId : String)
    (activity : Activity Params Signature Proof) :
    Decidable (Matches organizationId params activityId activity) :=
  inferInstanceAs (Decidable (_ ∧ _))

section Machine

variable (organizationId : String) (params : Params)

/-- What is made of an activity. -/
def examine (activityId : String) (activity : Activity Params Signature Proof) :
    Phase Params Signature Proof :=
  if ¬Matches organizationId params activityId activity then .returned (.error .unavailable)
  else
    match activity.status with
    | .completed =>
      match activity.result with
      | some (.signRawPayloadResult result) =>
        .returned (.ok ⟨result, activityId, activity.status, activity.appProofs⟩)
      | _ => .returned (.error .unavailable)
    | .consensusNeeded => .polling activityId
    | .pending => .polling activityId
    | .rejected => .returned (.error .declined)
    | .failed => .returned (.error .declined)
    | .other => .returned (.error .unavailable)

def MAX_PERMISSION_RETRIES : ℕ := 10

/-- What comes of an answer. -/
def answered (phase : Phase Params Signature Proof) (reading : Reading Params Signature Proof) :
    Phase Params Signature Proof :=
  match phase with
  | .submitting permissionRetries request =>
    match reading.answer with
    | .ok (some activity) => examine organizationId params activity.id activity
    | .ok none => .returned (.error .unavailable)
    | .error failure =>
      -- New grants take time to propagate; other errors may have created an activity.
      if failure = .unexpectedHttpStatus 403 ∧ permissionRetries < MAX_PERMISSION_RETRIES then
        .submitting (permissionRetries + 1)
          { request with timestampMs := reading.currentTimestamp.repr }
      else .returned (.error .unavailable)
  | .polling activityId =>
    match reading.answer with
    | .ok (some activity) => examine organizationId params activityId activity
    | _ => .returned (.error .unavailable)
  | .returned result => .returned result

/-- The request that is made next. -/
def Phase.request : Phase Params Signature Proof → Option (Request Params)
  | .submitting _ request => some (.submit request)
  | .polling activityId => some (.getActivity organizationId activityId)
  | .returned _ => none

def start (timestampMs : ℕ) : Phase Params Signature Proof :=
  .submitting 0 ⟨"ACTIVITY_TYPE_SIGN_RAW_PAYLOAD_V2", timestampMs.repr, organizationId, params⟩

/-- The requests made and where they lead, as far as readings are given. -/
def exchange (phase : Phase Params Signature Proof) :
    List (Reading Params Signature Proof) →
      List (Exchange Params Signature Proof) × Phase Params Signature Proof
  | [] => ([], phase)
  | reading :: readings =>
    match phase.request organizationId with
    | none => ([], phase)
    | some request =>
      let (exchanges, last) := exchange (answered organizationId params phase reading) readings
      ((request, reading) :: exchanges, last)

def signWithApproval (timestampMs : ℕ) (readings : List (Reading Params Signature Proof)) :
    List (Exchange Params Signature Proof) × Phase Params Signature Proof :=
  exchange organizationId params (start organizationId params timestampMs) readings

/-- One request and its answer. -/
def Step (phase : Phase Params Signature Proof) (e : Exchange Params Signature Proof)
    (phase' : Phase Params Signature Proof) : Prop :=
  phase.request organizationId = some e.1 ∧ phase' = answered organizationId params phase e.2

variable {organizationId params}

theorem run_exchange (phase : Phase Params Signature Proof)
    (readings : List (Reading Params Signature Proof)) :
    Run (Step organizationId params) phase (exchange organizationId params phase readings).1
      (exchange organizationId params phase readings).2 := by
  induction readings generalizing phase with
  | nil => exact .nil phase
  | cons reading readings ih =>
    rw [exchange]
    cases hrequest : phase.request organizationId with
    | none => exact .nil phase
    | some request => exact .cons ⟨hrequest, rfl⟩ (ih (answered organizationId params phase reading))

end Machine

section Runs

variable {organizationId : String} {params : Params}

/-- The activity that an answer carries. -/
def carried (e : Exchange Params Signature Proof) : Option (Activity Params Signature Proof) :=
  e.2.answer.toOption.join

/-- The first activity that the answers carry. -/
def firstActivity (exchanges : List (Exchange Params Signature Proof)) :
    Option (Activity Params Signature Proof) :=
  (exchanges.filterMap carried).head?

def isSubmit : Request Params → Bool
  | .submit _ => true
  | .getActivity _ _ => false

/-- A submit of an organization's payload. -/
def Submits (organizationId : String) (params : Params) (e : Exchange Params Signature Proof) : Prop :=
  ∃ timestampMs, e.1 =
    .submit ⟨"ACTIVITY_TYPE_SIGN_RAW_PAYLOAD_V2", timestampMs, organizationId, params⟩

/-- An answer that no activity came of: a 403. -/
def Denied (e : Exchange Params Signature Proof) : Prop :=
  e.2.answer = .error (.unexpectedHttpStatus 403)

/-- An answer to wait on: the activity of an id is still to be settled. -/
def Waits (organizationId : String) (params : Params) (activityId : String)
    (e : Exchange Params Signature Proof) : Prop :=
  ∃ activity, carried e = some activity ∧ Matches organizationId params activityId activity ∧
    (activity.status = .pending ∨ activity.status = .consensusNeeded)

theorem examine_eq_polling {activityId id : String} {activity : Activity Params Signature Proof} :
    examine organizationId params activityId activity = .polling id ↔ id = activityId ∧
      Matches organizationId params activityId activity ∧
        (activity.status = .pending ∨ activity.status = .consensusNeeded) := by
  unfold examine
  by_cases hmatches : Matches organizationId params activityId activity
  · cases hstatus : activity.status <;> simp [hmatches, eq_comm]
    cases hresult : activity.result with
    | none => simp
    | some result => cases result <;> simp
  · simp [hmatches]

theorem examine_ne_submitting {activityId : String} {activity : Activity Params Signature Proof} {n : ℕ}
    {request : SignRawPayloadRequest Params} :
    examine organizationId params activityId activity ≠ .submitting n request := by
  unfold examine
  by_cases hmatches : Matches organizationId params activityId activity
  · cases hstatus : activity.status <;> simp [hmatches]
    cases hresult : activity.result with
    | none => simp
    | some result => cases result <;> simp
  · simp [hmatches]

theorem examine_ok {activityId : String} {activity : Activity Params Signature Proof}
    {r : ActivityResult Signature Proof} :
    examine organizationId params activityId activity = .returned (.ok r) ↔
      Matches organizationId params activityId activity ∧ activity.status = .completed ∧
        ∃ result, activity.result = some (.signRawPayloadResult result) ∧
          r = ⟨result, activityId, .completed, activity.appProofs⟩ := by
  unfold examine
  by_cases hmatches : Matches organizationId params activityId activity
  · cases hstatus : activity.status <;> simp [hmatches]
    cases hresult : activity.result with
    | none => simp
    | some result => cases result <;> simp [eq_comm]
  · simp [hmatches]

theorem examine_declined {activityId : String} {activity : Activity Params Signature Proof} :
    examine organizationId params activityId activity = .returned (.error .declined) ↔
      Matches organizationId params activityId activity ∧
        (activity.status = .rejected ∨ activity.status = .failed) := by
  unfold examine
  by_cases hmatches : Matches organizationId params activityId activity
  · cases hstatus : activity.status <;> simp [hmatches]
    cases hresult : activity.result with
    | none => simp
    | some result => cases result <;> simp
  · simp [hmatches]

omit [DecidableEq Params] in
theorem carried_denied {e : Exchange Params Signature Proof} (h : Denied e) : carried e = none := by
  rw [carried, h]
  rfl

omit [DecidableEq Params] in
theorem firstActivity_denied {exchanges : List (Exchange Params Signature Proof)}
    (h : ∀ e ∈ exchanges, Denied e) : firstActivity exchanges = none := by
  rw [firstActivity, List.filterMap_eq_nil_iff.2 fun e he => carried_denied (h e he)]
  rfl

omit [DecidableEq Params] in
theorem firstActivity_append {exchanges : List (Exchange Params Signature Proof)}
    {first : Activity Params Signature Proof} (h : firstActivity exchanges = some first)
    (later : List (Exchange Params Signature Proof)) :
    firstActivity (exchanges ++ later) = some first := by
  rw [firstActivity, List.filterMap_append, List.head?_append]
  rw [firstActivity] at h
  rw [h]
  rfl

omit [DecidableEq Params] in
theorem firstActivity_denied_cons {denials later : List (Exchange Params Signature Proof)}
    {e : Exchange Params Signature Proof} {activity : Activity Params Signature Proof}
    (h : ∀ d ∈ denials, Denied d) (he : carried e = some activity) :
    firstActivity (denials ++ e :: later) = some activity := by
  rw [firstActivity, List.filterMap_append,
    List.filterMap_eq_nil_iff.2 fun d hd => carried_denied (h d hd), List.filterMap_cons, he]
  rfl

variable (organizationId params)

/-- What was exchanged before a request: denials of the submit, or these, the submit that was answered
with an activity, and polls of it. -/
def Live (exchanges : List (Exchange Params Signature Proof)) : Phase Params Signature Proof → Prop
  | .submitting permissionRetries request =>
    exchanges.length = permissionRetries ∧ permissionRetries ≤ MAX_PERMISSION_RETRIES ∧
      (∀ e ∈ exchanges, Denied e ∧ Submits organizationId params e) ∧
        request = ⟨"ACTIVITY_TYPE_SIGN_RAW_PAYLOAD_V2", request.timestampMs, organizationId, params⟩
  | .polling activityId =>
    ∃ denials first polls, exchanges = denials ++ first :: polls ∧
      denials.length ≤ MAX_PERMISSION_RETRIES ∧
      (∀ e ∈ denials, Denied e ∧ Submits organizationId params e) ∧
      Submits organizationId params first ∧ Waits organizationId params activityId first ∧
      ∀ e ∈ polls, e.1 = .getActivity organizationId activityId ∧
        Waits organizationId params activityId e
  | .returned _ => False

variable {organizationId params}

/-- A step goes on or returns. -/
theorem Live.step {exchanges : List (Exchange Params Signature Proof)}
    {phase phase' : Phase Params Signature Proof} {e : Exchange Params Signature Proof}
    (h : Live organizationId params exchanges phase) (hstep : Step organizationId params phase e phase') :
    Live organizationId params (exchanges ++ [e]) phase' ∨ ∃ r, phase' = .returned r := by
  obtain ⟨hrequest, rfl⟩ := hstep
  cases phase with
  | submitting n request =>
    -- Only refused submissions lie behind, all of one request.
    obtain ⟨hlength, hbound, hdenied, hsubmitted⟩ := h
    have hsubmits : Submits organizationId params e :=
      ⟨request.timestampMs, (Option.some.inj hrequest).symm.trans (congrArg Request.submit hsubmitted)⟩
    cases hanswer : e.2.answer with
    | ok carries =>
      cases carries with
      | none => exact .inr ⟨.error .unavailable, by rw [answered, hanswer]⟩
      | some activity =>
        have hnext : answered organizationId params (.submitting n request) e.2 =
            examine organizationId params activity.id activity := by
          rw [answered, hanswer]
        rw [hnext]
        cases hexamine : examine organizationId params activity.id activity with
        | submitting k request' => exact absurd hexamine examine_ne_submitting
        | returned r => exact .inr ⟨r, rfl⟩
        | polling id =>
          obtain ⟨rfl, hmatches, hwaits⟩ := examine_eq_polling.1 hexamine
          have hcarried : carried e = some activity := by
            rw [carried, hanswer]
            rfl
          -- The first activity waits for approval, and it is what the polls ask for from now on.
          exact .inl ⟨exchanges, e, [], rfl, hlength ▸ hbound, hdenied, hsubmits,
            ⟨activity, hcarried, hmatches, hwaits⟩, by simp⟩
    | error failure =>
      rw [answered, hanswer]
      dsimp only
      by_cases hretry : failure = .unexpectedHttpStatus 403 ∧ n < MAX_PERMISSION_RETRIES
      · rw [if_pos hretry]
        -- Refused with 403 and not yet too often: the same request is submitted again.
        refine .inl ⟨?_, hretry.2, ?_, ?_⟩
        · rw [List.length_append, hlength, List.length_singleton]
        · refine List.forall_mem_append.2 ⟨hdenied, ?_⟩
          rw [List.forall_mem_singleton]
          exact ⟨hanswer.trans (congrArg Except.error hretry.1), hsubmits⟩
        · rw [hsubmitted]
      · rw [if_neg hretry]
        exact .inr ⟨_, rfl⟩
  | polling activityId =>
    -- A poll that still waits is one more poll; anything else returns.
    obtain ⟨denials, first, polls, rfl, hbound, hdenied, hsubmits, hfirst, hpolls⟩ := h
    cases hanswer : e.2.answer with
    | error failure => exact .inr ⟨.error .unavailable, by rw [answered, hanswer]⟩
    | ok carries =>
      cases carries with
      | none => exact .inr ⟨.error .unavailable, by rw [answered, hanswer]⟩
      | some activity =>
        have hnext : answered organizationId params (.polling activityId) e.2 =
            examine organizationId params activityId activity := by
          rw [answered, hanswer]
        rw [hnext]
        cases hexamine : examine organizationId params activityId activity with
        | submitting k request' => exact absurd hexamine examine_ne_submitting
        | returned r => exact .inr ⟨r, rfl⟩
        | polling id =>
          obtain ⟨rfl, hmatches, hwaits⟩ := examine_eq_polling.1 hexamine
          have hcarried : carried e = some activity := by
            rw [carried, hanswer]
            rfl
          refine .inl ⟨denials, first, polls ++ [e], by simp, hbound, hdenied, hsubmits, hfirst, ?_⟩
          refine List.forall_mem_append.2 ⟨hpolls, ?_⟩
          rw [List.forall_mem_singleton]
          exact ⟨(Option.some.inj hrequest).symm, activity, hcarried, hmatches, hwaits⟩
  | returned r => exact h.elim

/-- A run that has not returned is live. -/
theorem live_of_run {timestampMs : ℕ} {exchanges : List (Exchange Params Signature Proof)}
    {phase : Phase Params Signature Proof}
    (h : Run (Step organizationId params) (start organizationId params timestampMs) exchanges phase) :
    Live organizationId params exchanges phase ∨ ∃ r, phase = .returned r := by
  refine h.history (I := fun exchanges phase => Live organizationId params exchanges phase ∨
    ∃ r, phase = .returned r) (.inl ⟨rfl, Nat.zero_le _, by simp, rfl⟩) ?_
  rintro passed s e s' - hlive hstep
  obtain hlive | ⟨r, rfl⟩ := hlive
  · exact hlive.step hstep
  · cases hstep.1

/-- What was exchanged before a request is live. -/
theorem live_before {timestampMs : ℕ} {before after : List (Exchange Params Signature Proof)}
    {e : Exchange Params Signature Proof} {phase : Phase Params Signature Proof}
    (h : Run (Step organizationId params) (start organizationId params timestampMs) (before ++ e :: after)
      phase) : ∃ s s', Live organizationId params before s ∧ Step organizationId params s e s' ∧
        Run (Step organizationId params) s' after phase := by
  obtain ⟨s, hbefore, hafter⟩ := h.split
  cases hafter with
  | cons hstep hafter =>
    obtain hlive | ⟨r, rfl⟩ := live_of_run hbefore
    · exact ⟨s, _, hlive, hstep, hafter⟩
    · cases hstep.1

variable (organizationId params) in
/-- The owner is asked for one approval, and the answer is the answer to it. -/
structure AsksOnce (exchanges : List (Exchange Params Signature Proof))
    (phase : Phase Params Signature Proof) : Prop where
  submits : exchanges.countP (fun e => isSubmit e.1) ≤ 11
  submitted : ∀ e ∈ exchanges, isSubmit e.1 = true → Submits organizationId params e
  resubmits : ∀ before e after, exchanges = before ++ e :: after → isSubmit e.1 = true →
    ∀ d ∈ before, Denied d ∧ carried d = none
  queries : ∀ before e after, exchanges = before ++ e :: after → ∀ first,
    firstActivity before = some first → e.1 = .getActivity organizationId first.id
  signed : ∀ r, phase = .returned (.ok r) → ∃ first last activity,
    firstActivity exchanges = some first ∧ exchanges.getLast? = some last ∧
      carried last = some activity ∧ Matches organizationId params first.id activity ∧
        activity.status = .completed ∧ activity.result = some (.signRawPayloadResult r.result) ∧
          r.activityId = first.id
  declined : phase = .returned (.error .declined) ↔ ∃ first e activity,
    firstActivity exchanges = some first ∧ e ∈ exchanges ∧ carried e = some activity ∧
      Matches organizationId params first.id activity ∧
        (activity.status = .rejected ∨ activity.status = .failed)
  ends : ∀ before e after, exchanges = before ++ e :: after → isSubmit e.1 = false →
    (∀ first, firstActivity exchanges = some first → ¬Waits organizationId params first.id e) →
      after = [] ∧ ∃ r, phase = .returned r

/-- After a phase that returned nothing is requested. -/
theorem run_returned {r : Except CustodyError (ActivityResult Signature Proof)}
    {exchanges : List (Exchange Params Signature Proof)} {phase : Phase Params Signature Proof}
    (h : Run (Step organizationId params) (.returned r) exchanges phase) :
    exchanges = [] ∧ phase = .returned r := by
  cases h with
  | nil => exact ⟨rfl, rfl⟩
  | cons hstep => cases hstep.1

omit [DecidableEq Params] in
theorem Live.exists_first {exchanges : List (Exchange Params Signature Proof)} {activityId : String}
    (h : Live organizationId params exchanges (.polling activityId)) :
    ∃ first, firstActivity exchanges = some first ∧ first.id = activityId := by
  obtain ⟨denials, e, polls, rfl, -, hdenied, -, ⟨activity, hcarried, hmatches, -⟩, -⟩ := h
  exact ⟨activity, firstActivity_denied_cons (fun d hd => (hdenied d hd).1) hcarried, hmatches.1⟩

omit [DecidableEq Params] in
theorem isSubmit_of_submits {e : Exchange Params Signature Proof}
    (h : Submits organizationId params e) : isSubmit e.1 = true := by
  obtain ⟨timestampMs, h⟩ := h
  rw [h]
  rfl

/-- A request of a live run: a submit after denials alone, or a poll of the first activity. -/
theorem Live.request {exchanges : List (Exchange Params Signature Proof)}
    {s s' : Phase Params Signature Proof} {e : Exchange Params Signature Proof}
    (h : Live organizationId params exchanges s) (hstep : Step organizationId params s e s') :
    (isSubmit e.1 = true ∧ Submits organizationId params e ∧ (∀ d ∈ exchanges, Denied d) ∧
        exchanges.length ≤ MAX_PERMISSION_RETRIES) ∨
      ∃ first, s = .polling first.id ∧ firstActivity exchanges = some first ∧
        e.1 = .getActivity organizationId first.id := by
  cases s with
  | submitting n request =>
    obtain ⟨hlength, hbound, hdenied, hsubmitted⟩ := h
    have hsubmits : Submits organizationId params e :=
      ⟨request.timestampMs, (Option.some.inj hstep.1).symm.trans (congrArg Request.submit hsubmitted)⟩
    exact .inl ⟨isSubmit_of_submits hsubmits, hsubmits, fun d hd => (hdenied d hd).1, hlength ▸ hbound⟩
  | polling activityId =>
    obtain ⟨first, hfirst, rfl⟩ := h.exists_first
    exact .inr ⟨first, rfl, hfirst, (Option.some.inj hstep.1).symm⟩
  | returned r => exact h.elim

omit [DecidableEq Params] in
theorem Live.submits {exchanges : List (Exchange Params Signature Proof)}
    {s : Phase Params Signature Proof} (h : Live organizationId params exchanges s) :
    exchanges.countP (fun e => isSubmit e.1) ≤ 11 := by
  cases s with
  | submitting n request =>
    obtain ⟨hlength, hbound, -, -⟩ := h
    have hcount := List.countP_le_length (p := fun e => isSubmit e.1) (l := exchanges)
    rw [MAX_PERMISSION_RETRIES] at hbound
    omega
  | polling activityId =>
    obtain ⟨denials, first, polls, rfl, hbound, -, -, -, hpolls⟩ := h
    have hcount := List.countP_le_length (p := fun e => isSubmit e.1) (l := denials)
    have hzero : polls.countP (fun e => isSubmit e.1) = 0 := by
      rw [List.countP_eq_zero]
      intro e he
      rw [(hpolls e he).1]
      exact Bool.false_ne_true
    rw [List.countP_append, List.countP_cons, hzero]
    rw [MAX_PERMISSION_RETRIES] at hbound
    split_ifs <;> omega
  | returned r => exact h.elim

/-- What comes of an answer in a live run: an activity it carries is compared with the first. -/
theorem Live.answer {exchanges : List (Exchange Params Signature Proof)}
    {s s' : Phase Params Signature Proof} {e : Exchange Params Signature Proof}
    (h : Live organizationId params exchanges s) (hstep : Step organizationId params s e s')
    (later : List (Exchange Params Signature Proof)) :
    (∃ first activity, carried e = some activity ∧
        firstActivity (exchanges ++ e :: later) = some first ∧
          s' = examine organizationId params first.id activity) ∨
      carried e = none ∧ ((∃ n request, s' = .submitting n request ∧ isSubmit e.1 = true) ∨
        s' = .returned (.error .unavailable)) := by
  obtain ⟨hrequest, rfl⟩ := hstep
  cases hanswer : e.2.answer with
  | ok carries =>
    -- What the answer is compared with differs: a submission's own activity is the first one, a
    -- poll's was carried by an earlier exchange.
    cases carries with
    | none =>
      refine .inr ⟨by rw [carried, hanswer]; rfl, .inr ?_⟩
      cases s with
      | submitting n request => rw [answered, hanswer]
      | polling activityId => rw [answered, hanswer]
      | returned r => exact h.elim
    | some activity =>
      have hcarried : carried e = some activity := by
        rw [carried, hanswer]
        rfl
      refine .inl ?_
      cases s with
      | submitting n request =>
        refine ⟨activity, activity, hcarried,
          firstActivity_denied_cons (fun d hd => (h.2.2.1 d hd).1) hcarried, ?_⟩
        rw [answered, hanswer]
      | polling activityId =>
        obtain ⟨first, hfirst, rfl⟩ := h.exists_first
        refine ⟨first, activity, hcarried, firstActivity_append hfirst _, ?_⟩
        rw [answered, hanswer]
      | returned r => exact h.elim
  | error failure =>
    refine .inr ⟨by rw [carried, hanswer]; rfl, ?_⟩
    cases s with
    | submitting n request =>
      rw [answered, hanswer]
      dsimp only
      split_ifs
      · exact .inl ⟨_, _, rfl, (Option.some.inj hrequest) ▸ rfl⟩
      · exact .inr rfl
    | polling activityId => exact .inr (by rw [answered, hanswer])
    | returned r => exact h.elim

/-- The last exchange of a run that returned. -/
theorem exists_last {timestampMs : ℕ} {exchanges : List (Exchange Params Signature Proof)}
    {r : Except CustodyError (ActivityResult Signature Proof)}
    (h : Run (Step organizationId params) (start organizationId params timestampMs) exchanges
      (.returned r)) : ∃ passed last s, exchanges = passed ++ [last] ∧
        Live organizationId params passed s ∧ Step organizationId params s last (.returned r) := by
  obtain rfl | ⟨passed, last, rfl⟩ := List.eq_nil_or_concat' exchanges
  · cases h
  · obtain ⟨s, s', hlive, hstep, hafter⟩ := live_before h
    cases hafter
    exact ⟨passed, last, s, rfl, hlive, hstep⟩

theorem asksOnce_of_run {timestampMs : ℕ} {exchanges : List (Exchange Params Signature Proof)}
    {phase : Phase Params Signature Proof}
    (h : Run (Step organizationId params) (start organizationId params timestampMs) exchanges phase) :
    AsksOnce organizationId params exchanges phase where
  submits := by
    -- A run that has returned was live before its last exchange.
    obtain hlive | ⟨r, rfl⟩ := live_of_run h
    · exact hlive.submits
    · obtain ⟨passed, last, s, rfl, hlive, hstep⟩ := exists_last h
      have hpassed := hlive.submits
      rw [List.countP_append, List.countP_singleton]
      obtain ⟨-, -, -, hlength⟩ | ⟨first, -, -, hrequest⟩ := hlive.request hstep
      · have hcount := List.countP_le_length (p := fun e => isSubmit e.1) (l := passed)
        rw [MAX_PERMISSION_RETRIES] at hlength
        split_ifs <;> omega
      · rw [hrequest]
        exact hpassed
  submitted := by
    intro e he hsubmit
    obtain ⟨before, after, rfl⟩ := List.append_of_mem he
    obtain ⟨s, s', hlive, hstep, -⟩ := live_before h
    -- The exchange is a submission of the one request, or a poll of the first activity.
    obtain ⟨-, hsubmits, -⟩ | ⟨first, -, -, hrequest⟩ := hlive.request hstep
    · exact hsubmits
    · rw [hrequest] at hsubmit
      cases hsubmit
  resubmits := by
    rintro before e after rfl hsubmit d hd
    obtain ⟨s, s', hlive, hstep, -⟩ := live_before h
    obtain ⟨-, -, hdenied, -⟩ | ⟨first, -, -, hrequest⟩ := hlive.request hstep
    · exact ⟨hdenied d hd, carried_denied (hdenied d hd)⟩
    · rw [hrequest] at hsubmit
      cases hsubmit
  queries := by
    rintro before e after rfl first hfirst
    obtain ⟨s, s', hlive, hstep, -⟩ := live_before h
    obtain ⟨-, -, hdenied, -⟩ | ⟨first', -, hfirst', hrequest⟩ := hlive.request hstep
    · rw [firstActivity_denied hdenied] at hfirst
      cases hfirst
    · obtain rfl := Option.some.inj (hfirst.symm.trans hfirst')
      exact hrequest
  signed := by
    rintro r rfl
    obtain ⟨passed, last, s, rfl, hlive, hstep⟩ := exists_last h
    obtain ⟨first, activity, hcarried, hfirst, hexamine⟩ | ⟨-, ⟨n, request, hnext, -⟩ | hnext⟩ :=
      hlive.answer hstep []
    -- `Ok` comes out of `examine` alone, which looked at this activity.
    · obtain ⟨hmatches, hstatus, result, hresult, rfl⟩ := examine_ok.1 hexamine.symm
      exact ⟨first, last, activity, hfirst, List.getLast?_concat, hcarried, hmatches, hstatus, hresult,
        rfl⟩
    · cases hnext
    · cases hnext
  declined := by
    constructor
    · rintro rfl
      obtain ⟨passed, last, s, rfl, hlive, hstep⟩ := exists_last h
      obtain ⟨first, activity, hcarried, hfirst, hexamine⟩ | ⟨-, ⟨n, request, hnext, -⟩ | hnext⟩ :=
        hlive.answer hstep []
      · obtain ⟨hmatches, hstatus⟩ := examine_declined.1 hexamine.symm
        exact ⟨first, last, activity, hfirst, by simp, hcarried, hmatches, hstatus⟩
      · cases hnext
      · cases hnext
    · rintro ⟨first, e, activity, hfirst, he, hcarried, hmatches, hstatus⟩
      obtain ⟨before, after, rfl⟩ := List.append_of_mem he
      obtain ⟨s, s', hlive, hstep, hafter⟩ := live_before h
      obtain ⟨first', activity', hcarried', hfirst', rfl⟩ | ⟨hnone, -⟩ := hlive.answer hstep after
      · obtain rfl := Option.some.inj (hcarried.symm.trans hcarried')
        obtain rfl := Option.some.inj (hfirst.symm.trans hfirst')
        rw [examine_declined.2 ⟨hmatches, hstatus⟩] at hafter
        exact (run_returned hafter).2
      · rw [hcarried] at hnone
        cases hnone
  ends := by
    rintro before e after rfl hpoll hwaits
    obtain ⟨s, s', hlive, hstep, hafter⟩ := live_before h
    -- Neither of the two phases that go on can follow: one needs a submission, the other an
    -- activity that waits.
    have hreturned : ∃ r, s' = .returned r := by
      obtain ⟨first, activity, hcarried, hfirst, rfl⟩ | ⟨-, ⟨n, request, -, hsubmit⟩ | hnext⟩ :=
        hlive.answer hstep after
      · cases hexamine : examine organizationId params first.id activity with
        | returned r => exact ⟨r, rfl⟩
        | submitting n request => exact absurd hexamine examine_ne_submitting
        | polling id =>
          obtain ⟨-, hmatches, hstatus⟩ := examine_eq_polling.1 hexamine
          exact absurd ⟨activity, hcarried, hmatches, hstatus⟩ (hwaits first hfirst)
      · rw [hpoll] at hsubmit
        cases hsubmit
      · exact ⟨_, hnext⟩
    obtain ⟨r, rfl⟩ := hreturned
    obtain ⟨hnil, hphase⟩ := run_returned hafter
    exact ⟨hnil, r, hphase⟩

/-- Whatever Turnkey answers, at most 11 submits are made and each but the first follows a 403; once an
answer carried an activity, that activity alone is asked for, until an answer settles it. The signature
returned is of that activity, and the enclave is declined only if that activity is. -/
theorem sign_asks_once (organizationId : String) (params : Params) (timestampMs : ℕ)
    (readings : List (Reading Params Signature Proof)) :
    AsksOnce organizationId params (signWithApproval organizationId params timestampMs readings).1
      (signWithApproval organizationId params timestampMs readings).2 :=
  asksOnce_of_run (run_exchange _ readings)

end Runs

end ZolanaTvc.Enclave.Custody
