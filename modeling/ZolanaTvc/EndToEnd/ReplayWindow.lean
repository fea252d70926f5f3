import ZolanaTvc.Enclave.Authorization
import ZolanaTvc.Gateway.LocalRuns
import ZolanaTvc.Protocol.RoundTrip
import ZolanaTvc.Protocol.Uniqueness

/-!
# The replay window and the times of a request

The gateway's ledger counts its window from the claim of a ciphertext, or from the record of its outcome,
and the enclave accepts a request between the times that its client chose. A request that its client dated
ahead of the clock can be forwarded, forgotten by the ledger, and forwarded again before it expires, by as
much as the enclave's check came after the claim.

## Main results

* `request_once`: a ciphertext that is claimed anew only once its request has expired runs once.
* `request_twice`: a request that passes the enclave's check in two forwards.
-/

namespace ZolanaTvc.EndToEnd

open Protocol Gateway

section Clock

def NANOS_PER_MS : ℕ := 1000000

/-- What `now_ms` reads. Instants are counted in nanoseconds since the epoch. -/
def nowMs (now : ℕ) : Option UInt64 :=
  if now / NANOS_PER_MS < UInt64.size then some (.ofNat (now / NANOS_PER_MS)) else none

/-- What the enclave reads in a ciphertext. -/
def opened (quorum : Enclave.QuorumPair) (ciphertext : Bytes) : Option OperationRequest := do
  let plaintext ← quorum.decrypt ciphertext
  let plaintext ← fromUtf8 plaintext
  if isRfc8785 plaintext = false then none else parseOperationRequest plaintext

/-- The request of a ciphertext passes the check of its times, which is the one that `validate` makes. -/
def Passes (quorum : Enclave.QuorumPair) (ciphertext : Bytes) (now : ℕ) : Prop :=
  ∃ request t, opened quorum ciphertext = some request ∧ nowMs now = some t ∧
    ¬(request.expiresAtMs < t ∨ request.issuedAtMs > saturatingAdd t MAX_CLOCK_SKEW_MS ∨
      request.expiresAtMs < request.issuedAtMs ∨
      request.expiresAtMs - request.issuedAtMs > MAX_REQUEST_AGE_MS)

/-- The request of a ciphertext has expired. -/
def Expired (quorum : Enclave.QuorumPair) (ciphertext : Bytes) (now : ℕ) : Prop :=
  ∀ request, opened quorum ciphertext = some request → request.expiresAtMs.toNat < now / NANOS_PER_MS

variable {N V : Type} {quorum : Enclave.QuorumPair} {ciphertext : Bytes} {now later : ℕ}

theorem nowMs_eq_some {t : UInt64} : nowMs now = some t ↔ t.toNat = now / NANOS_PER_MS := by
  unfold nowMs
  constructor
  · intro h
    split_ifs at h with hlt
    obtain rfl := Option.some.inj h
    exact UInt64.toNat_ofNat_of_lt' hlt
  · intro h
    rw [if_pos (h ▸ t.toNat_lt_size), ← h, UInt64.ofNat_toNat]

theorem passes_iff : Passes quorum ciphertext now ↔
    ∃ request, opened quorum ciphertext = some request ∧ now / NANOS_PER_MS < UInt64.size ∧
      now / NANOS_PER_MS ≤ request.expiresAtMs.toNat ∧
      request.issuedAtMs.toNat ≤ now / NANOS_PER_MS + 60000 ∧
      request.issuedAtMs.toNat ≤ request.expiresAtMs.toNat ∧
      request.expiresAtMs.toNat ≤ request.issuedAtMs.toNat + 300000 := by
  constructor
  · rintro ⟨request, t, hopened, hnow, hfresh⟩
    rw [nowMs_eq_some] at hnow
    rw [Enclave.fresh_iff, hnow] at hfresh
    exact ⟨request, hopened, hnow ▸ t.toNat_lt_size, hfresh⟩
  · rintro ⟨request, hopened, hlt, hfresh⟩
    refine ⟨request, .ofNat (now / NANOS_PER_MS), hopened, if_pos hlt, ?_⟩
    rwa [Enclave.fresh_iff, UInt64.toNat_ofNat_of_lt' hlt]

/-- A request that is authorized has passed the check. -/
theorem passes_of_authorized {state : Enclave.AppState N V} {env : Enclave.Environment} {body : Bytes}
    {a : Enclave.Admitted} (h : Enclave.Authorized state env body a) (clock : env.clock 0 = nowMs now) :
    Passes state.runtime.quorum a.encrypted.ciphertext now := by
  obtain ⟨plaintext, text, hplaintext, htext, hcanonical, hrequest⟩ := h.plaintext
  obtain ⟨t, hnow, hsigned, -⟩ := h.signed
  refine ⟨a.request, t, ?_, clock.symm.trans hnow, (Enclave.signed_iff.1 hsigned).2.2.1⟩
  simp only [opened, hplaintext, htext, hcanonical, hrequest, Option.bind_eq_bind, Option.bind_some,
    Bool.true_eq_false, if_false]

theorem Expired.mono (h : Expired quorum ciphertext now) (hle : now ≤ later) :
    Expired quorum ciphertext later := fun request hopened =>
  Nat.lt_of_lt_of_le (h request hopened) (Nat.div_le_div_right hle)

theorem Expired.not_passes (h : Expired quorum ciphertext now) : ¬Passes quorum ciphertext now := by
  rw [passes_iff]
  rintro ⟨request, hopened, -, hunexpired, -⟩
  exact absurd (h request hopened) (Nat.not_lt.2 hunexpired)

/-- A request that passes expires within the clock skew and the longest lifetime of a request. -/
theorem Passes.expires_le (h : Passes quorum ciphertext now) {request : OperationRequest}
    (hopened : opened quorum ciphertext = some request) :
    request.expiresAtMs.toNat ≤ now / NANOS_PER_MS + 360000 := by
  obtain ⟨request', hopened', -, -, hissued, -, hlifetime⟩ := passes_iff.1 h
  obtain rfl := Option.some.inj (hopened.symm.trans hopened')
  omega

end Clock

/-- The tasks of the gateway, and the enclave. -/
structure World where
  gateway : Tasks.State
  /-- The requests whose claims were new, in the order of their claims. -/
  claims : List ℕ
  /-- The request passed the check of its times in its forward. -/
  passed : ℕ → Prop

inductive Event where
  | gateway (e : Tasks.Event)
  /-- The enclave checks the times of a request that was sent to it. -/
  | checked (i : ℕ)

def isNew : Except ApiError Claim → Bool
  | .ok (.new _) => true
  | _ => false

/-- The claim that a step of the gateway makes, when it is new. -/
def claimed (g : Tasks) (s : Tasks.State) : Tasks.Event → List ℕ
  | .claimed i => if isNew (s.ledger.claim g.http (g.key i) s.now).1 then [i] else []
  | _ => []

def start (now : ℕ) (ledger : ReplayLedger) : World := ⟨Tasks.start now ledger, [], fun _ => False⟩

/-- Gateway and enclave read one clock. -/
inductive Step (g : Tasks) (quorum : Enclave.QuorumPair) : World → Event → World → Prop where
  | gateway {w : World} {e : Tasks.Event} {s : Tasks.State} (step : g.Step w.gateway e s) :
    Step g quorum w (.gateway e) { w with gateway := s, claims := w.claims ++ claimed g w.gateway e }
  | checked {w : World} {i : ℕ} (reached : w.gateway.past.reached i = true) :
    Step g quorum w (.checked i) { w with
      passed := Function.update w.passed i
        (w.passed i ∨ Passes quorum (g.call i).ciphertext w.gateway.now) }

/-- A ciphertext is not claimed again between the time at which the ledger has forgotten an earlier claim
of it, which was not released, and the time at which its request has expired. -/
def Outlasts (g : Tasks) (quorum : Enclave.QuorumPair) (w : World) : Event → Prop
  | .gateway (.claimed j) => w.gateway.ledger.Forgets (g.key j) w.gateway.now →
    ∀ i ∈ w.claims, g.Same i j → w.gateway.past.gave i = false →
      Expired quorum (g.call j).ciphertext w.gateway.now
  | _ => True

def StepOutlasting (g : Tasks) (quorum : Enclave.QuorumPair) (w : World) (e : Event) (w' : World) : Prop :=
  Step g quorum w e w' ∧ Outlasts g quorum w e

/-- The gateway's steps are in time, and its ledger has room. -/
def StepKept (g : Tasks) (quorum : Enclave.QuorumPair) (w : World) (e : Event) (w' : World) : Prop :=
  Step g quorum w e w' ∧ ∀ e', e = .gateway e' → Tasks.InTime w.gateway e' ∧ Tasks.Roomy w.gateway e'

/-- A ciphertext passes the enclave's check in one forward of a project, unless an earlier claim of it was
released. -/
structure Once (g : Tasks) (w : World) : Prop where
  claimed : ∀ i, w.passed i → i ∈ w.claims
  nodup : w.claims.Nodup
  apart : w.claims.Pairwise fun i j => g.Same i j → w.passed i → w.passed j →
    w.gateway.past.gave i = true

/-- What holds of every state of a run in which the requests expire before their claims are forgotten. -/
structure Ordered (g : Tasks) (quorum : Enclave.QuorumPair) (w : World) : Prop where
  before : ∀ i, w.gateway.phase i = .arrived ∨ w.gateway.phase i = .claiming →
    i ∉ w.claims ∧ w.gateway.past.reached i = false
  holds : ∀ i, (w.gateway.phase i).HasClaim → i ∈ w.claims
  reached : ∀ i, w.gateway.past.reached i = true → i ∈ w.claims
  passed : ∀ i, w.passed i → w.gateway.past.reached i = true
  nodup : w.claims.Nodup
  apart : w.claims.Pairwise fun i j => g.Same i j → w.gateway.past.gave i = true ∨
    ¬w.passed j ∧ Expired quorum (g.call j).ciphertext w.gateway.now

section Order

variable {g : Tasks} {quorum : Enclave.QuorumPair} {w w' : World} {e : Event}

theorem Ordered.once (h : Ordered g quorum w) : Once g w where
  claimed i hpassed := h.reached i (h.passed i hpassed)
  nodup := h.nodup
  apart := h.apart.imp fun hapart hsame _ hpassed =>
    (hapart hsame).resolve_right fun hexpired => hexpired.1 hpassed

/-- The enclave checks a request. -/
theorem Ordered.check (h : Ordered g quorum w) {i : ℕ} (reached : w.gateway.past.reached i = true) :
    Ordered g quorum { w with
      passed := Function.update w.passed i
        (w.passed i ∨ Passes quorum (g.call i).ciphertext w.gateway.now) } := by
  refine ⟨h.before, h.holds, h.reached, fun j hpassed => ?_, h.nodup,
    h.apart.imp fun {k j} hapart hsame => (hapart hsame).imp_right fun ⟨hpassed, hexpired⟩ => ⟨?_, hexpired⟩⟩
  · by_cases hj : j = i
    · exact hj ▸ reached
    · exact h.passed j (by simpa [hj] using hpassed)
  · by_cases hj : j = i
    · subst hj
      simpa using ⟨hpassed, hexpired.not_passes⟩
    · simpa [hj] using hpassed

/-- Whoever holds a claim held it before, unless it claims just now. -/
theorem hasClaim_next {phase phase' : Tasks.Phase} {j : ℕ} (h : g.Next j phase phase')
    (holds : phase'.HasClaim) : phase.HasClaim ∨ phase'.IsClaimed := by
  cases h with
  | claimed => exact .inr ⟨_, _, rfl⟩
  | @heard since answer =>
    rcases answer with error | ⟨key⟩ | ⟨outcome⟩
    · exact holds.elim fun _ h => h.elim
    · exact .inl ⟨since, rfl⟩
    · exact holds.elim fun _ h => h.elim
  | granted | ungranted | forwarded | reached | received => exact .inl ⟨_, rfl⟩
  | _ => exact holds.elim fun _ h => h.elim

/-- A handler that has not claimed yet had not before. -/
theorem before_next {phase phase' : Tasks.Phase} {j : ℕ} (h : g.Next j phase phase')
    (before : phase' = .arrived ∨ phase' = .claiming) : phase = .arrived ∨ phase = .claiming := by
  cases h with
  | admitted => exact .inl rfl
  | @heard since answer =>
    rcases answer with error | ⟨key⟩ | ⟨outcome⟩ <;> simp [Tasks.Phase.afterClaim] at before
  | _ => simp at before

theorem isNew_iff {s : Tasks.State} {i : ℕ} :
    isNew (s.ledger.claim g.http (g.key i) s.now).1 = true ↔ s.ledger.Forgets (g.key i) s.now := by
  rw [← ReplayLedger.claim_new_iff]
  rcases (s.ledger.claim g.http (g.key i) s.now).1 with error | ⟨key⟩ | ⟨outcome⟩ <;> simp [isNew]

/-- A step makes a new claim, or none. -/
theorem claimed_cases {s s' : Tasks.State} {e : Tasks.Event} (h : g.Step s e s') :
    claimed g s e = [] ∨ ∃ i, e = .claimed i ∧ claimed g s e = [i] ∧
      s.ledger.Forgets (g.key i) s.now ∧ s.phase i = .claiming := by
  cases h with
  | @claimed i phase =>
    by_cases hnew : isNew (s.ledger.claim g.http (g.key i) s.now).1 = true
    · exact .inr ⟨i, rfl, if_pos hnew, isNew_iff.1 hnew, phase⟩
    · exact .inl (if_neg hnew)
  | _ => exact .inl rfl

/-- Who holds a claim just after a step that claims has just claimed. -/
theorem mem_claimed {s s' : Tasks.State} {e : Tasks.Event} {j : ℕ} (h : g.Step s e s')
    (changed : s'.phase j ≠ s.phase j) (claim : (s'.phase j).IsClaimed) (holds : (s'.phase j).HasClaim) :
    j ∈ claimed g s e := by
  obtain hsame | ⟨i, phase, hphase, hnext, hclaimed⟩ := Tasks.moves h
  · exact absurd (hsame j) changed
  · by_cases hj : j = i
    · subst hj
      rw [hphase, Function.update_self] at claim
      obtain rfl := hclaimed claim
      cases h with
      | claimed =>
        rw [Tasks.claim_fields.2.2, Function.update_self] at holds
        obtain ⟨since, holds⟩ := holds
        unfold claimed
        rcases hanswer : (s.ledger.claim g.http (g.key j) s.now).1 with error | ⟨key⟩ | ⟨outcome⟩
        · rw [hanswer] at holds
          exact holds.elim
        · simp [isNew, hanswer]
        · rw [hanswer] at holds
          exact holds.elim
    · rw [hphase, Function.update_of_ne hj] at changed
      exact absurd rfl changed

/-- A step of the gateway. -/
theorem Ordered.gateway (h : Ordered g quorum w) {e : Tasks.Event} {s : Tasks.State}
    (step : g.Step w.gateway e s) (outlasts : Outlasts g quorum w (.gateway e)) :
    Ordered g quorum { w with gateway := s, claims := w.claims ++ claimed g w.gateway e } := by
  -- Nobody comes back to before its claim.
  have hbefore : ∀ j, s.phase j = .arrived ∨ s.phase j = .claiming →
      w.gateway.phase j = .arrived ∨ w.gateway.phase j = .claiming := fun j hj => by
    obtain hsame | hnext := Tasks.next_or_same step j
    · rwa [← hsame]
    · exact before_next hnext hj
  have hmem : ∀ j, j ∈ w.claims → j ∈ w.claims ++ claimed g w.gateway e := fun j hj =>
    List.mem_append_left _ hj
  -- A new claim is that of a handler that was claiming a key which the ledger does not hold.
  have hfresh : ∀ j, j ∈ claimed g w.gateway e → w.gateway.phase j = .claiming ∧
      w.gateway.ledger.Forgets (g.key j) w.gateway.now ∧ e = .claimed j := fun j hj => by
    obtain hnone | ⟨i, he, hi, hforgets, hclaiming⟩ := claimed_cases step
    · rw [hnone] at hj
      cases hj
    · obtain rfl : j = i := List.mem_singleton.1 (hi ▸ hj)
      exact ⟨hclaiming, hforgets, he⟩
  refine ⟨fun j hj => ?_, fun j hj => ?_, fun j hj => ?_, fun j hj => ?_, ?_, ?_⟩
  -- A handler that has not claimed yet is not in the list: the step that would put it there moves
  -- it on.
  · obtain ⟨hclaims, hreached⟩ := h.before j (hbefore j hj)
    refine ⟨fun hmem => ?_, ?_⟩
    · obtain hmem | hmem := List.mem_append.1 hmem
      · exact hclaims hmem
      · obtain ⟨-, -, rfl⟩ := hfresh j hmem
        cases step with
        | claimed =>
          rw [Tasks.claim_fields.2.2, Function.update_self] at hj
          simp at hj
    · obtain hsame | ⟨-, since, hforwarding⟩ := Tasks.reached_cases step j
      · exact hsame.trans hreached
      · have hj := hbefore j hj
        rw [hforwarding] at hj
        simp at hj
  -- Whoever holds a claim held it before, or has just made it.
  · by_cases hsame : s.phase j = w.gateway.phase j
    · exact hmem j (h.holds j (hsame ▸ hj))
    · have hnext := (Tasks.next_or_same step j).resolve_left hsame
      obtain hholds | hclaimed := hasClaim_next hnext hj
      · exact hmem j (h.holds j hholds)
      · exact List.mem_append_right _ (mem_claimed step hsame hclaimed hj)
  · obtain hsame | ⟨-, since, hforwarding⟩ := Tasks.reached_cases step j
    · exact hmem j (h.reached j (hsame ▸ hj))
    · exact hmem j (h.holds j ⟨since, by rw [hforwarding]; rfl⟩)
  · have hreached := h.passed j hj
    obtain hsame | ⟨htrue, -⟩ := Tasks.reached_cases step j
    · exact hsame.trans hreached
    · exact htrue
  -- The new claim is by a handler that was not in the list.
  · refine List.nodup_append.2 ⟨h.nodup, ?_, ?_⟩
    · obtain hnone | ⟨i, -, hi, -⟩ := claimed_cases step
      · exact hnone ▸ List.nodup_nil
      · exact hi ▸ List.nodup_singleton i
    · rintro i hi j hj rfl
      exact (h.before i (.inr (hfresh i hj).1)).1 hi
  -- Pairs of older claims stay as they were: what was given up or has expired is so later on.
  · refine List.pairwise_append.2 ⟨h.apart.imp fun hapart hsame => ?_, ?_, fun i hi j hj hsame => ?_⟩
    · exact (hapart hsame).imp (Tasks.gave_mono step)
        fun ⟨hpassed, hexpired⟩ => ⟨hpassed, hexpired.mono (Tasks.now_le step)⟩
    · obtain hnone | ⟨i, -, hi, -⟩ := claimed_cases step
      · exact hnone ▸ .nil
      · exact hi ▸ List.pairwise_singleton ..
    · -- The ledger has forgotten the earlier claim, so that its request has expired.
      obtain ⟨hclaiming, hforgets, rfl⟩ := hfresh j hj
      have hpassed : ¬w.passed j := fun hpassed => by
        have hreached := (h.before j (.inr hclaiming)).2
        rw [h.passed j hpassed] at hreached
        cases hreached
      cases hgave : w.gateway.past.gave i with
      | true => exact .inl (Tasks.gave_mono step hgave)
      | false =>
        have hexpired := outlasts hforgets i hi hsame hgave
        exact .inr ⟨hpassed, hexpired.mono (Tasks.now_le step)⟩

theorem Ordered.step (h : Ordered g quorum w) (hstep : StepOutlasting g quorum w e w') :
    Ordered g quorum w' := by
  obtain ⟨hstep, outlasts⟩ := hstep
  cases hstep with
  | gateway step => exact h.gateway step outlasts
  | checked reached => exact h.check reached

theorem Ordered.run (h : Ordered g quorum w) {es : List Event}
    (run : Run (StepOutlasting g quorum) w es w') : Ordered g quorum w' := by
  induction run with
  | nil => exact h
  | cons hstep _ ih => exact ih (h.step hstep)

protected theorem Ordered.start (now : ℕ) (ledger : ReplayLedger) :
    Ordered g quorum (start now ledger) where
  before _ _ := ⟨List.not_mem_nil, rfl⟩
  holds _ holds := holds.elim fun _ h => h.elim
  reached _ reached := by cases reached
  passed _ passed := passed.elim
  nodup := List.nodup_nil
  apart := .nil

/-- The gateway's part of a run. -/
theorem gateway_run {es : List Event} (run : Run (StepKept g quorum) w es w') :
    ∃ es', Run (Tasks.StepKept g) w.gateway es' w'.gateway := by
  induction run with
  | nil => exact ⟨[], .nil _⟩
  | cons hstep _ ih =>
    obtain ⟨es', hrun⟩ := ih
    obtain ⟨hstep, hkept⟩ := hstep
    cases hstep with
    | @gateway e' s step =>
      obtain ⟨hintime, hroomy⟩ := hkept e' rfl
      exact ⟨e' :: es', .cons ⟨⟨step, hintime⟩, hroomy⟩ hrun⟩
    | checked => exact ⟨es', hrun⟩

/-- A new claim puts an entry. -/
theorem claims_put {es : List Event} (run : Run (Step g quorum) w es w')
    (put : ∀ i ∈ w.claims, ∃ t, w.gateway.past.put i = some t) :
    ∀ i ∈ w'.claims, ∃ t, w'.gateway.past.put i = some t := by
  induction run with
  | nil => exact put
  | cons hstep _ ih =>
    refine ih ?_
    cases hstep with
    | checked => exact put
    | gateway step =>
      intro i hi
      obtain hi | hi := List.mem_append.1 hi
      · obtain ⟨t, ht⟩ := put i hi
        obtain hsame | hnow := Tasks.put_cases step i
        · exact ⟨t, hsame.trans ht⟩
        · exact ⟨_, hnow⟩
      · obtain hnone | ⟨j, rfl, hj, hforgets, -⟩ := claimed_cases step
        · rw [hnone] at hi
          cases hi
        · obtain rfl : i = j := List.mem_singleton.1 (hj ▸ hi)
          obtain ⟨key, hnew⟩ := ReplayLedger.claim_new_iff.2 hforgets
          cases step with
          | claimed => exact ⟨_, Tasks.claim_put hnew⟩

end Order

/-- A ciphertext that is claimed anew only once its request has expired passes the enclave's check in one
forward. With a window that handlers keep to, it is enough that the request expires within the window of
its claim; a request that passes expires within 360 s; and whatever the enclave authorizes has passed. -/
theorem request_once (g : Tasks) (quorum : Enclave.QuorumPair) {ledger : ReplayLedger}
    (empty : ledger.IsEmpty) (now : ℕ) :
    (∀ es w, Run (StepOutlasting g quorum) (start now ledger) es w → Once g w) ∧
    (∀ es w j, Run (StepKept g quorum) (start now ledger) es w → Tasks.Roomy w.gateway (.claimed j) →
      (∀ i ∈ w.claims, g.Same i j → ∀ t request, w.gateway.past.put i = some t →
        opened quorum (g.call j).ciphertext = some request →
        request.expiresAtMs.toNat < (t + Tasks.window (Tasks.start now ledger)) / NANOS_PER_MS) →
      Outlasts g quorum w (.gateway (.claimed j))) ∧
    (∀ ciphertext now request, Passes quorum ciphertext now → opened quorum ciphertext = some request →
      request.expiresAtMs.toNat ≤ now / NANOS_PER_MS + 360000) ∧
    ∀ (N V : Type) (state : Enclave.AppState N V) env body a now, Enclave.Authorized state env body a →
      env.clock 0 = nowMs now → Passes state.runtime.quorum a.encrypted.ciphertext now := by
  refine ⟨fun es w run => ((Ordered.start now ledger).run run).once, fun es w j run roomy within => ?_,
    fun ciphertext now request passes => passes.expires_le,
    fun N V state env body a now => passes_of_authorized⟩
  intro forgets i hi hsame hgave request hopened
  obtain ⟨t, hput⟩ := claims_put (run.mono fun _ _ _ h => h.1) (fun _ hi => by cases hi) i hi
  obtain ⟨es', hrun⟩ := gateway_run run
  have hkey : g.key j = g.key i := by rw [Tasks.key, Tasks.key, hsame.1, hsame.2]
  have hforgotten := Tasks.forgets_after empty hrun hput hgave (hkey ▸ forgets) roomy
  exact Nat.lt_of_lt_of_le (within i hi hsame t request hput hopened) (Nat.div_le_div_right hforgotten)

section Sample

open Tasks (answeredTasks granted_answered admitted_answered)

/-- A request that is dated 60 s after the instant of its first check. -/
def aheadRequest : OperationRequest :=
  { bootstrapRequest with issuedAtMs := 420005, expiresAtMs := 720005 }

/-- A quorum key that decrypts everything to one text. -/
def constantPair (plaintext : String) : Enclave.QuorumPair where
  encrypt _ _ := none
  decrypt _ := some (utf8 plaintext)
  decrypt_encrypt _ _ _ h := by cases h

theorem exists_opened : ∃ quorum, ∀ ciphertext, opened quorum ciphertext = some aheadRequest := by
  have hwithin : aheadRequest.operation.WithinReader := trivial
  obtain ⟨t, -, hcanonical, hparse⟩ :=
    jcsSerialize_roundTrip OperationRequest.exact (OperationRequest.fits_iff.2 hwithin)
  rw [OperationRequest.norm_eq] at hparse
  refine ⟨constantPair t, fun ciphertext => ?_⟩
  have hutf8 : fromUtf8 (utf8 t) = some t := fromUtf8_utf8 t
  simp only [opened, constantPair, hutf8, hcanonical, Option.bind_eq_bind, Option.bind_some,
    Bool.true_eq_false, if_false]
  exact hparse

/-- The ledger of one process with the window that is shipped. -/
def shippedLedger : ReplayLedger := .local (.new 360000000000 200000 0)

/-- A request that is dated ahead of the clock is claimed 10 ms before the ledger's first rotation, and
reaches the enclave 15 ms after its claim. It is sent again at an instant after the second rotation. -/
def resending (later : ℕ) : List Event :=
  [.gateway (.passed 359990000000), .gateway (.admitted 0), .gateway (.claimed 0), .gateway (.heard 0),
    .gateway (.granted 0), .gateway (.passed 360000000000), .gateway (.admitted 2), .gateway (.claimed 2),
    .gateway (.heard 2), .gateway (.passed 360005000000), .gateway (.forwarded 0), .gateway (.reached 0),
    .checked 0, .gateway (.received 0), .gateway (.recorded 0), .gateway (.passed later),
    .gateway (.admitted 3), .gateway (.claimed 3), .gateway (.heard 3), .gateway (.granted 3),
    .gateway (.forwarded 3), .gateway (.reached 3), .checked 3]

/-- A step that keeps a condition besides. -/
def StepKeeping (quorum : Enclave.QuorumPair) (P : World → Event → Prop) (w : World) (e : Event) (w' : World) :
    Prop :=
  StepKept answeredTasks quorum w e w' ∧ P w e

theorem kept {w : World} {e : Tasks.Event} {s : Tasks.State} {quorum : Enclave.QuorumPair}
    {P : World → Event → Prop} (step : answeredTasks.Step w.gateway e s) (intime : Tasks.InTime w.gateway e)
    (roomy : Tasks.Roomy w.gateway e) (keeps : P w (.gateway e)) :
    StepKeeping quorum P w (.gateway e)
      { w with gateway := s, claims := w.claims ++ claimed answeredTasks w.gateway e } :=
  ⟨⟨.gateway step, fun _ he => Event.gateway.inj he ▸ ⟨intime, roomy⟩⟩, keeps⟩

/-- The first claim is in the generation before the current one, and its request was sent. -/
structure Sent (w : World) (ledger : LocalLedger) : Prop where
  now : w.gateway.now = 360005000000
  entries : w.gateway.ledger = .local ledger
  age : ledger.state.age (answeredTasks.key 0) = some 1
  rotatedAt : ledger.state.rotatedAt = 360000000000
  window : ledger.window = 360000000000
  room : (ledger.state.maps ledger.state.current).size < ledger.maxEntries
  claims : w.claims = [0]
  phase : w.gateway.phase 0 = .forwarding 359990000000 true
  phase' : w.gateway.phase 3 = .arrived
  reached : w.gateway.past.reached 0 = true
  gave : w.gateway.past.gave 0 = false
  passed : w.passed = fun _ => False

theorem exists_sent (quorum : Enclave.QuorumPair) (later : ℕ) : ∃ w ledger,
    Run (StepKeeping quorum (Outlasts answeredTasks quorum)) (start 0 shippedLedger)
      ((resending later).take 12) w ∧ Sent w ledger := by
  obtain ⟨grant, hgrant⟩ := granted_answered 0
  -- The ledger never fills up in this run.
  have hroom : ∀ {w : World} {i : ℕ} {ledger : LocalLedger}, w.gateway.ledger = .local ledger →
      (ledger.state.maps ledger.state.current).size < ledger.maxEntries →
      Tasks.Roomy w.gateway (.claimed i) := by
    intro w i ledger hledger hsize ledger' hledger'
    obtain rfl := ReplayLedger.local.inj (hledger.symm.trans hledger')
    exact hsize
  -- The second claim finds the first one, so that it is not new.
  have hremembers : ∀ {w : World} {i : ℕ},
      (w.gateway.ledger.claim answeredTasks.http (answeredTasks.key i) w.gateway.now).1 =
        .error .operationInProgress →
      Outlasts answeredTasks quorum w (.gateway (.claimed i)) := by
    intro w i hanswer forgets
    have hnew : ∃ key, (w.gateway.ledger.claim answeredTasks.http (answeredTasks.key i) w.gateway.now).1 =
        .ok (.new key) := ReplayLedger.claim_new_iff.2 forgets
    obtain ⟨key, hnew⟩ := hnew
    rw [hnew] at hanswer
    cases hanswer
  exact ⟨_, _, .cons (kept (.passed (by decide)) trivial trivial trivial) <|
    .cons (kept (.admitted rfl (admitted_answered 0 (by decide))) trivial trivial trivial) <|
    .cons (kept (.claimed rfl) trivial (hroom rfl (by decide)) fun _ _ hi => by cases hi) <|
    .cons (kept (.heard rfl) trivial trivial trivial) <|
    .cons (kept (.granted rfl hgrant) trivial trivial trivial) <|
    .cons (kept (.passed (by decide)) trivial trivial trivial) <|
    .cons (kept (.admitted rfl (admitted_answered 2 (by decide))) trivial trivial trivial) <|
    .cons (kept (.claimed rfl) trivial (hroom rfl (by decide)) (hremembers rfl)) <|
    .cons (kept (.heard rfl) trivial trivial trivial) <|
    .cons (kept (.passed (by decide)) trivial trivial trivial) <|
    .cons (kept (.forwarded rfl) trivial trivial trivial) <|
    .single (kept (.reached rfl) trivial trivial trivial),
    { now := rfl
      entries := rfl
      age := by decide +kernel
      rotatedAt := rfl
      window := rfl
      room := by decide
      claims := rfl
      phase := rfl
      phase' := rfl
      reached := rfl
      gave := rfl
      passed := rfl }⟩

/-- The ledger has rotated twice since the first claim, whose request passed the check. -/
structure Forgotten (later : ℕ) (w : World) : Prop where
  now : w.gateway.now = later
  forgets : w.gateway.ledger.Forgets (answeredTasks.key 3) w.gateway.now
  roomy : Tasks.Roomy w.gateway (.claimed 3)
  claims : w.claims = [0]
  phase : w.gateway.phase 3 = .arrived
  passed : w.passed 0 ∧ ¬w.passed 3
  gave : w.gateway.past.gave 0 = false

/-- What is kept of every step that makes no claim. -/
def Claimless (P : World → Event → Prop) : Prop :=
  ∀ w e, (∀ i, e ≠ .gateway (.claimed i)) → P w e

theorem Sent.forgotten {w : World} {ledger : LocalLedger} {quorum : Enclave.QuorumPair} {later : ℕ}
    {P : World → Event → Prop} (keeps : Claimless P) (h : Sent w ledger)
    (passes : Passes quorum [1] w.gateway.now) (hlater : 720000000000 ≤ later) : ∃ w',
      Run (StepKeeping quorum P) w (((resending later).drop 12).take 4) w' ∧ Forgotten later w' := by
  have hsize : ¬ReplayLedger.Oversize (answeredTasks.outcome 0) := by decide
  generalize houtcome : answeredTasks.outcome 0 = outcome at hsize
  have hrecord : (w.gateway.set 0 (.recording 359990000000 outcome)).record answeredTasks 0 outcome =
      { w.gateway.set 0 (.recording 359990000000 outcome) with
        ledger := .local (ledger.record (answeredTasks.key 0) outcome) }.set 0 (.answering outcome false) := by
    have hentries : (w.gateway.set 0 (.recording 359990000000 outcome)).ledger = .local ledger := h.entries
    simp only [Tasks.State.record, ReplayLedger.record, if_neg hsize, hentries]
  -- Recording does not make the entry younger, so the next rotation drops it.
  have hrotates : (ledger.record (answeredTasks.key 0) outcome).rotates later := by
    left
    show ledger.window ≤ later - (ledger.state.set _ _).rotatedAt
    rw [Generations.set_rotatedAt, h.window, h.rotatedAt]
    omega
  have hforgets : ((ledger.record (answeredTasks.key 0) outcome).rotated later).get
      (answeredTasks.key 3) = none := by
    have hage : (ledger.state.set (answeredTasks.key 0) (.answered outcome)).age (answeredTasks.key 3) =
        some 1 := Generations.age_set.trans h.age
    rw [Generations.get_eq_none_iff_age, LocalLedger.age_rotated, if_pos hrotates]
    exact if_neg (by rw [LocalLedger.record, hage]; decide)
  have hroom : ((ledger.record (answeredTasks.key 0) outcome).state.maps
      (ledger.record (answeredTasks.key 0) outcome).state.current).size < ledger.maxEntries := by
    show ((ledger.state.set _ _).maps (ledger.state.set _ _).current).size < _
    rw [Generations.size_set, Generations.set_current]
    exact h.room
  have hintime : ∀ since outcome', (w.gateway.set 0 (.recording 359990000000 outcome)).phase 0 =
      .recording since outcome' → w.gateway.now < since + Tasks.window w.gateway := by
    intro since outcome' hphase
    obtain ⟨rfl, -⟩ := Tasks.Phase.recording.inj hphase
    rw [h.now, Tasks.window, h.entries]
    show 360005000000 < 359990000000 + ledger.window
    rw [h.window]
    decide
  have hphase : (w.gateway.set 0 (.recording 359990000000 outcome)).phase 0 =
      .recording 359990000000 outcome := rfl
  refine ⟨_, .cons ⟨⟨.checked h.reached, fun _ he => by cases he⟩, keeps _ _ fun _ he => by cases he⟩ <|
    .cons (kept (houtcome ▸ .received h.phase fun h => by cases h) trivial trivial
      (keeps _ _ fun _ he => by cases he)) <|
    .cons (kept (.recorded hphase) hintime trivial (keeps _ _ fun _ he => by cases he)) <|
    .single (kept (.passed ?_) trivial trivial (keeps _ _ fun _ he => by cases he)), ?_⟩
  · exact ((congrArg Tasks.State.now hrecord).trans h.now).trans_le (by omega)
  · have hledger := congrArg Tasks.State.ledger hrecord
    exact
      { now := rfl
        forgets := Eq.mpr (congrArg (ReplayLedger.Forgets _ _) hledger) hforgets
        roomy := by
          intro ledger' hledger'
          obtain rfl := ReplayLedger.local.inj (hledger.symm.trans hledger')
          exact hroom
        claims := by
          show ((w.claims ++ []) ++ []) ++ [] = [0]
          simp [h.claims]
        phase := (congrArg (fun s => s.phase 3) hrecord).trans h.phase'
        passed := by
          show Function.update w.passed 0 (w.passed 0 ∨ Passes quorum [1] w.gateway.now) 0 ∧
            ¬Function.update w.passed 0 (w.passed 0 ∨ Passes quorum [1] w.gateway.now) 3
          rw [Function.update_self, Function.update_of_ne (by decide), h.passed]
          exact ⟨.inr passes, id⟩
        gave := (congrArg (fun s => s.past.gave 0) hrecord).trans h.gave }

theorem claim_now {g : Tasks} {s : Tasks.State} {i : ℕ} : (s.claim g i).now = s.now := by
  simp only [Tasks.State.claim]
  split <;> rfl

theorem claim_gave {g : Tasks} {s : Tasks.State} {i j : ℕ} :
    (s.claim g i).past.gave j = s.past.gave j := by
  simp only [Tasks.State.claim]
  split <;> rfl

/-- The request is sent again and claimed anew, and is checked once more. -/
theorem Forgotten.again {w : World} {quorum : Enclave.QuorumPair} {later : ℕ} {P : World → Event → Prop}
    (keeps : Claimless P) (h : Forgotten later w)
    (claim : ∀ w', w'.claims = w.claims → w'.gateway.now = w.gateway.now → P w' (.gateway (.claimed 3))) : ∃ w',
      Run (StepKeeping quorum P) w ((resending later).drop 16) w' ∧ w'.claims = [0, 3] ∧ w'.passed 0 ∧
        (w'.passed 3 ↔ Passes quorum [1] later) ∧ w'.gateway.past.gave 0 = false := by
  obtain ⟨grant, hgrant⟩ := granted_answered 3
  have hadmitted := admitted_answered 3 (by decide)
  have hnew : ∃ key, ((w.gateway.set 3 .claiming).ledger.claim answeredTasks.http (answeredTasks.key 3)
      w.gateway.now).1 = .ok (.new key) := ReplayLedger.claim_new_iff.2 h.forgets
  -- The ledger knows nothing of the request and takes it for a new one.
  obtain ⟨key, hnew⟩ := hnew
  have hclaimed : ((w.gateway.set 3 .claiming).claim answeredTasks 3).phase 3 =
      .claimed w.gateway.now (.ok (.new key)) := by
    rw [Tasks.claim_fields.2.2, Function.update_self]
    exact congrArg _ hnew
  refine ⟨_, .cons (kept (.admitted h.phase hadmitted) trivial trivial (keeps _ _ fun _ he => by cases he)) <|
    .cons (kept (.claimed rfl) trivial h.roomy (claim _ (List.append_nil _) rfl)) <|
    .cons (kept (.heard hclaimed) trivial trivial (keeps _ _ fun _ he => by cases he)) <|
    .cons (kept (.granted rfl hgrant) trivial trivial (keeps _ _ fun _ he => by cases he)) <|
    .cons (kept (.forwarded rfl) trivial trivial (keeps _ _ fun _ he => by cases he)) <|
    .cons (kept (.reached rfl) trivial trivial (keeps _ _ fun _ he => by cases he)) <|
    .single ⟨⟨.checked rfl, fun _ he => by cases he⟩, keeps _ _ fun _ he => by cases he⟩, ?_, ?_, ?_, ?_⟩
  · have hthird : claimed answeredTasks (w.gateway.set 3 .claiming) (.claimed 3) = [3] :=
      if_pos (isNew_iff.2 h.forgets)
    have hclaims : ((w.claims ++ []) ++ claimed answeredTasks (w.gateway.set 3 .claiming) (.claimed 3)) =
        [0, 3] := by
      rw [hthird, h.claims]
      rfl
    exact (List.append_nil _).trans ((List.append_nil _).trans
      ((List.append_nil _).trans ((List.append_nil _).trans hclaims)))
  · exact h.passed.1
  · show Function.update w.passed 3 (_ ∨ Passes quorum [1] (Tasks.State.claim _ _ _).now) 3 ↔ _
    rw [Function.update_self, claim_now, ← h.now]
    exact or_iff_right h.passed.2
  · exact claim_gave.trans h.gave

theorem aheadRequest_passes {quorum : Enclave.QuorumPair}
    (hopened : ∀ ciphertext, opened quorum ciphertext = some aheadRequest) {now : ℕ}
    (hle : 360005 ≤ now / NANOS_PER_MS) (hge : now / NANOS_PER_MS ≤ 720005) : Passes quorum [1] now := by
  have hissued : aheadRequest.issuedAtMs.toNat = 420005 := rfl
  have hexpires : aheadRequest.expiresAtMs.toNat = 720005 := rfl
  refine passes_iff.2 ⟨aheadRequest, hopened _, Nat.lt_of_le_of_lt hge (by decide), ?_⟩
  omega

theorem claimless_outlasts {quorum : Enclave.QuorumPair} : Claimless (Outlasts answeredTasks quorum) := by
  rintro w (e | i) h
  · cases e with
    | claimed i => exact absurd rfl (h i)
    | _ => trivial
  · trivial

/-- A request that is sent again when the ledger has forgotten it is claimed anew and forwarded, and as it has
expired by then it does not pass again. -/
theorem request_once_expired : ∃ quorum w,
    Run (StepOutlasting answeredTasks quorum) (start 0 shippedLedger) (resending 720006000000) w ∧
      w.claims = [0, 3] ∧ answeredTasks.Same 0 3 ∧ w.passed 0 ∧ ¬w.passed 3 ∧ Once answeredTasks w := by
  obtain ⟨quorum, hopened⟩ := exists_opened
  have hempty : shippedLedger.IsEmpty := rfl
  have hexpired : Expired quorum [1] 720006000000 := by
    intro request hrequest
    obtain rfl := Option.some.inj ((hopened [1]).symm.trans hrequest)
    decide
  obtain ⟨w, ledger, hrun, hsent⟩ := exists_sent quorum 720006000000
  have hlater : 720000000000 ≤ 720006000000 := by decide
  obtain ⟨w', hrun', hforgotten⟩ := hsent.forgotten claimless_outlasts
    (aheadRequest_passes hopened (by rw [hsent.now]; decide) (by rw [hsent.now]; decide)) hlater
  obtain ⟨w'', hrun'', hclaims, hfirst, hsecond, -⟩ := hforgotten.again claimless_outlasts
    fun w' _ hnow _ _ _ _ _ => by
      rw [hnow, hforgotten.now]
      exact hexpired
  have hrun := ((hrun.append hrun').append hrun'').mono fun _ _ _ h =>
    (⟨h.1.1, h.2⟩ : StepOutlasting answeredTasks quorum _ _ _)
  exact ⟨quorum, w'', hrun, hclaims, ⟨rfl, rfl⟩, hfirst, fun h => hexpired.not_passes (hsecond.1 h),
    (request_once answeredTasks quorum hempty 0).1 _ w'' hrun⟩

/-- The ledger forgets the claim while its request is still fresh. -/
theorem request_twice : ∃ quorum w,
    Run (StepKept answeredTasks quorum) (start 0 shippedLedger) (resending 720000000000) w ∧
    w.claims = [0, 3] ∧ answeredTasks.Same 0 3 ∧ w.passed 0 ∧ w.passed 3 ∧
    w.gateway.past.gave 0 = false ∧ ¬Once answeredTasks w := by
  obtain ⟨quorum, hopened⟩ := exists_opened
  obtain ⟨w, ledger, hrun, hsent⟩ := exists_sent quorum 720000000000
  have hrun : Run (StepKeeping quorum fun _ _ => True) _ _ w := hrun.mono fun _ _ _ h => ⟨h.1, trivial⟩
  obtain ⟨w', hrun', hforgotten⟩ := hsent.forgotten (fun _ _ _ => trivial)
    (aheadRequest_passes hopened (by rw [hsent.now]; decide) (by rw [hsent.now]; decide)) (le_refl 720000000000)
  obtain ⟨w'', hrun'', hclaims, hfirst, hsecond, hgave⟩ := hforgotten.again
    (fun _ _ _ => trivial) fun _ _ _ => trivial
  have hsecond := hsecond.2 (aheadRequest_passes hopened (by decide) (by decide))
  have hsame : answeredTasks.Same 0 3 := ⟨rfl, rfl⟩
  have hrun := ((hrun.append hrun').append hrun'').mono fun _ _ _ h => h.1
  refine ⟨quorum, w'', hrun, hclaims, hsame, hfirst, hsecond, hgave, fun h => ?_⟩
  have hapart := h.apart
  rw [hclaims] at hapart
  have hgave' := List.rel_of_pairwise_cons hapart (List.mem_singleton_self 3) hsame hfirst hsecond
  rw [hgave] at hgave'
  cases hgave'

end Sample

end ZolanaTvc.EndToEnd
