import ZolanaTvc.Gateway.SharedRuns

/-!
# Resent operations

With the shared ledger a request that comes within the window of a claim is answered from what became of
that claim, and is not forwarded. What a handler answers is what `operations` answers by itself, given what
the ledger told it.

## Main results

* `handled_run`: a handler that is done has run `operations`.
* `resend_once`: what the requests of one project with one ciphertext come to.
-/

namespace ZolanaTvc.Gateway

open Protocol Except

namespace Tasks

variable {g : Tasks} {s s' : State} {e : Event} {i j k : ℕ}

section Replays

/-- What the store keeps for a key. -/
def State.entry (s : State) (key : Key) : Option Held :=
  match s.ledger with
  | .local _ => none
  | .shared ledger => ledger.get key

/-- A handler that answers from an earlier claim, of one of the outcomes `earlier`. -/
def Replaying (g : Tasks) (j : ℕ) (earlier : Outcome → Prop) : Phase → Prop
  | .claimed _ answer => answer = .error .operationInProgress ∨
    ∃ outcome, earlier outcome ∧ answer = .ok (.answered outcome)
  | .answering outcome replayed => earlier outcome ∧ replayed = true
  | .done response => response = .problem .operationInProgress ∨
    response = .problem .replayGuardUnavailable ∨
    ∃ outcome, earlier outcome ∧ response = .replayed (g.answer j outcome)
  | .dropped => True
  | _ => False

/-- The requests of one project with one ciphertext, from a state on. -/
structure Replays (g : Tasks) (start : State) : Prop where
  /-- A request that is claimed within the window of a claim that stands is answered from it. -/
  resent : ∀ {es s k t j s' es' s''}, Run (StepInTime g) start es s → s.past.put k = some t →
    s.past.gave k = false → g.Same k j → g.Step s (.claimed j) s' → s.now < t + window s →
    Run (StepInTime g) s' es' s'' → s''.past.forwarded j = false ∧
      ∀ response, s''.phase j = .done response → response = .problem .operationInProgress ∨
        response = .problem .replayGuardUnavailable ∨
        s.past.forwarded k = true ∧ response = .replayed (g.answer j (g.outcome k))
  /-- Of two requests that are claimed within one window one was released. -/
  alone : ∀ {es s i j ti tj}, Run (StepInTime g) start es s → i ≠ j → g.Same i j →
    s.past.put i = some ti → s.past.put j = some tj → ti ≤ tj → tj < ti + window s →
    s.past.gave i = true ∨ s.past.gave j = true
  /-- Only a request whose claim is new is forwarded. -/
  forwarded : ∀ {es s i}, Run (StepInTime g) start es s → s.past.forwarded i = true →
    ∃ t, s.past.put i = some t
  /-- A request whose claim is not new is turned away before it, or answered from another's. -/
  unclaimed : ∀ {es s j}, Run (StepInTime g) start es s → s.past.put j = none →
    s.past.forwarded j = false ∧ ∀ response, s.phase j = .done response →
      (∃ e, g.admitted j = .error e ∧ response = .problem e) ∨
      response = .problem .operationInProgress ∨ response = .problem .replayGuardUnavailable ∨
      ∃ k, g.Same k j ∧ s.past.forwarded k = true ∧ response = .replayed (g.answer j (g.outcome k))
  /-- A handler reads entries of its own project and ciphertext. -/
  read : ∀ {es s j s' held}, Run (StepInTime g) start es s → g.Step s (.claimed j) s' →
    s.entry (g.key j) = some held → ∃ i, s.past.holder (g.key j) = some i ∧ g.Same i j
  /-- A handler overwrites or deletes the entry of its own claim only. -/
  write : ∀ {es s i e s' key held}, Run (StepInTime g) start es s → StepInTime g s e s' →
    e = .claimed i ∨ e = .recorded i ∨ e = .released i → s.entry key = some held →
    s'.entry key ≠ some held → s.past.holder key = some i
  /-- A handler that is done has answered as `operations` does, with what the ledger told it. -/
  handled : ∀ {es s i response}, Run (StepInTime g) start es s → s.phase i = .done response →
    ∃ reading, response = g.response i reading

variable {ledger : SharedLedger} {earlier earlier' : Outcome → Prop} {phase phase' : Phase}

theorem outcome_valid (i : ℕ) (answer : Forwarded) (h : g.outcome i = .ok answer) :
    StatusCode.IsValid answer.status := by
  obtain ⟨-, response, hexchange, hstatus⟩ := received_ok h
  exact hstatus ▸ (g.call i).valid response hexchange

theorem Replaying.mono (h : ∀ outcome, earlier outcome → earlier' outcome)
    (replaying : Replaying g j earlier phase) : Replaying g j earlier' phase := by
  cases phase with
  | claimed since answer => exact replaying.imp_right fun ⟨o, ho, heq⟩ => ⟨o, h o ho, heq⟩
  | answering outcome replayed => exact replaying.imp_left (h outcome)
  | done response => exact replaying.imp_right (Or.imp_right fun ⟨o, ho, heq⟩ => ⟨o, h o ho, heq⟩)
  | dropped => trivial
  | _ => exact replaying

theorem Replaying.next (replaying : Replaying g j earlier phase) (h : Next g j phase phase') :
    Replaying g j earlier phase' := by
  cases h with
  | heard =>
    obtain rfl | ⟨outcome, houtcome, rfl⟩ := replaying
    · exact .inl rfl
    · exact ⟨houtcome, rfl⟩
  | unheard => exact .inr (.inl rfl)
  | answered =>
    obtain ⟨houtcome, rfl⟩ := replaying
    exact .inr (.inr ⟨_, houtcome, rfl⟩)
  | dropped => trivial
  | _ => exact replaying.elim

/-- A request that is answered from an earlier claim is not forwarded. -/
theorem replaying_run {es : List Event} (run : Run (StepInTime g) s es s')
    (replaying : Replaying g j earlier (s.phase j)) (fresh : s.past.forwarded j = false) :
    Replaying g j earlier (s'.phase j) ∧ s'.past.forwarded j = false := by
  refine run.invariant (I := fun s => Replaying g j earlier (s.phase j) ∧ s.past.forwarded j = false)
    ⟨replaying, fresh⟩ ?_
  rintro s e s' - ⟨replaying, fresh⟩ ⟨hstep, -⟩
  refine ⟨?_, ?_⟩
  · obtain hsame | hnext := next_or_same hstep j
    · exact hsame ▸ replaying
    · exact replaying.next hnext
  · obtain hsame | ⟨since, hphase⟩ := forwarded_cases hstep j
    · exact hsame.trans fresh
    · rw [hphase] at replaying
      exact replaying.elim

namespace Tenancy

/-- What a claim finds is an entry of a claim, and it is answered from it. -/
theorem claimed_known (h : Tenancy g ledger s) {held : Held} (taken : ledger.get (g.key j) = some held) :
    ∃ i, s.past.holder (g.key j) = some i ∧ g.key i = g.key j ∧ (s.claim g j).past = s.past ∧
      Replaying g j (fun outcome => s.past.forwarded i = true ∧ outcome = g.outcome i)
        ((s.claim g j).phase j) := by
  obtain ⟨i, hholder, hkey, -, hkeeps⟩ := h.entry _ held taken
  have hclaim := claim_known h.shared taken
  refine ⟨i, hholder, hkey, hclaim ▸ rfl, ?_⟩
  have hphase : (s.claim g j).phase j =
      .claimed s.now (SharedLedger.claim g.http (g.key j) (some (some held.text))) := by
    rw [hclaim]
    exact Function.update_self ..
  rw [hphase]
  obtain hrunning | ⟨hforwarded, hstored⟩ := hkeeps
  · rw [hrunning]
    exact .inl rfl
  · exact .inr ⟨_, ⟨hforwarded, rfl⟩, SharedLedger.claim_stored hstored (outcome_valid i)⟩

end Tenancy

/-- An earlier request of the same project with the same ciphertext was forwarded, to this outcome. -/
def Earlier (g : Tasks) (past : Past) (j : ℕ) (outcome : Outcome) : Prop :=
  ∃ k, g.Same k j ∧ past.forwarded k = true ∧ outcome = g.outcome k

/-- The phase of a request whose claim put no entry. -/
def Unclaimed (g : Tasks) (past : Past) (j : ℕ) (phase : Phase) : Prop :=
  phase = .arrived ∨ phase = .claiming ∨ (∃ e, g.admitted j = .error e ∧ phase = .done (.problem e)) ∨
    Replaying g j (Earlier g past j) phase

theorem forwarded_mono (h : Step g s e s') (hi : s.past.forwarded i = true) :
    s'.past.forwarded i = true := by
  cases h with
  | claimed =>
    simp only [State.claim]
    split <;> exact hi
  | @forwarded j since phase =>
    show Function.update s.past.forwarded j true i = true
    by_cases hij : i = j
    · rw [hij, Function.update_self]
    · rwa [Function.update_of_ne hij]
  | recorded =>
    rw [State.record]
    split_ifs <;> exact hi
  | _ => exact hi

theorem Unclaimed.mono (h : Step g s e s') (unclaimed : Unclaimed g s.past j phase) :
    Unclaimed g s'.past j phase := by
  refine unclaimed.imp_right (Or.imp_right (Or.imp_right (Replaying.mono ?_)))
  rintro outcome ⟨k, hsame, hforwarded, heq⟩
  exact ⟨k, hsame, forwarded_mono h hforwarded, heq⟩

/-- A claim that is made is not unmade. -/
theorem put_mono (h : Step g s e s') (hput : s'.past.put j = none) : s.past.put j = none := by
  cases h with
  | @claimed i =>
    simp only [State.claim] at hput
    split at hput
    · by_cases hij : j = i
      · rw [hij] at hput
        exact absurd hput (by simp [State.set])
      · exact (Function.update_of_ne hij ..).symm.trans hput
    · exact hput
  | recorded =>
    rw [State.record] at hput
    split_ifs at hput <;> exact hput
  | _ => exact hput

/-- The past of a claim that finds no entry. -/
theorem Tenancy.put_of_vacant (h : Tenancy g ledger s) (vacant : ledger.get (g.key j) = none) :
    (s.claim g j).past.put j = some s.now := by
  rw [claim_new h.shared vacant]
  exact Function.update_self ..

theorem Tenancy.unclaimed_step (h : Tenancy g ledger s) (free : ∀ i j, g.key i = g.key j → g.Same i j)
    (hstep : Step g s e s') (unclaimed : s.past.put j = none → Unclaimed g s.past j (s.phase j))
    (hput : s'.past.put j = none) : Unclaimed g s'.past j (s'.phase j) := by
  have hbefore := unclaimed (put_mono hstep hput)
  obtain hsame | hnext := next_or_same hstep j
  · exact hsame ▸ hbefore.mono hstep
  -- An operation without an entry of its own is not yet admitted, on its way to the claim, turned
  -- away by it, or has been told an outcome.
  · obtain hphase | hphase | ⟨error, -, hphase⟩ | hreplaying := hbefore
    · rw [hphase] at hnext
      cases hafter : s'.phase j <;> rw [hafter] at hnext <;> cases hnext
      · exact .inr (.inl rfl)
      · next refusal => exact .inr (.inr (.inl ⟨_, refusal, rfl⟩))
      · exact .inr (.inr (.inr trivial))
    · obtain hafter | rfl | hafter | hafter := claiming_cases hstep hphase
      · exact .inr (.inl hafter)
      -- A vacant key would have given it an entry, so it met another's.
      · cases hget : ledger.get (g.key j) with
        | none =>
          rw [h.put_of_vacant hget] at hput
          cases hput
        | some held =>
          obtain ⟨i, -, hkey, hpast, hreplaying⟩ := h.claimed_known hget
          rw [hpast]
          refine .inr (.inr (.inr (hreplaying.mono ?_)))
          rintro outcome ⟨hforwarded, rfl⟩
          exact ⟨i, free i j hkey, hforwarded, rfl⟩
      · exact hafter ▸ .inr (.inr (.inr (.inr (.inl rfl))))
      · exact hafter ▸ .inr (.inr (.inr trivial))
    · rw [hphase] at hnext
      cases hafter : s'.phase j <;> rw [hafter] at hnext <;> cases hnext
      exact .inr (.inr (.inr trivial))
    · exact Unclaimed.mono hstep (.inr (.inr (.inr (hreplaying.next hnext))))

theorem unclaimed_run (free : ∀ i j, g.key i = g.key j → g.Same i j) {es : List Event}
    (run : Run (StepInTime g) s es s') (h : Tenancy g ledger s)
    (unclaimed : s.past.put j = none → Unclaimed g s.past j (s.phase j) ∧ s.past.forwarded j = false)
    (hput : s'.past.put j = none) :
    Unclaimed g s'.past j (s'.phase j) ∧ s'.past.forwarded j = false := by
  induction run generalizing ledger with
  | nil => exact unclaimed hput
  | cons hstep _ ih =>
    obtain ⟨ledger', h', -⟩ := h.step hstep
    refine ih h' (fun hput' => ?_) hput
    obtain ⟨hphase, hforwarded⟩ := unclaimed (put_mono hstep.1 hput')
    refine ⟨h.unclaimed_step free hstep.1 (fun hput => (unclaimed hput).1) hput', ?_⟩
    obtain hsame | ⟨since, hgranted⟩ := forwarded_cases hstep.1 j
    · exact hsame.trans hforwarded
    · have hfacts := h.facts j
      rw [hgranted] at hfacts
      cases hfacts.1.symm.trans (put_mono hstep.1 hput')

theorem Tenancy.entry_eq (h : Tenancy g ledger s) (key : Key) : s.entry key = ledger.get key := by
  rw [State.entry, h.shared]

/-- A command changes the entry of its own claim, or puts one where there is none. -/
theorem Tenancy.write (h : Tenancy g ledger s) (hstep : StepInTime g s e s')
    (command : e = .claimed i ∨ e = .recorded i ∨ e = .released i) {key : Key} {held : Held}
    (before : s.entry key = some held) (after : s'.entry key ≠ some held) :
    s.past.holder key = some i := by
  obtain ⟨hstep, intime⟩ := hstep
  rw [h.entry_eq] at before
  obtain rfl | rfl | rfl := command
  · exfalso
    cases hget : ledger.get (g.key i) with
    | none =>
      cases hstep with
      | claimed =>
        -- A claim that finds nothing writes its own key only.
        rw [claim_new h.shared hget] at after
        have hkey : key ≠ g.key i := by
          rintro rfl
          rw [hget] at before
          cases before
        refine after ?_
        show (ledger.put (g.key i) RUNNING s.now).get key = some held
        rw [SharedLedger.get_put, if_neg hkey, before]
    | some other =>
      cases hstep with
      | claimed =>
        rw [claim_known h.shared hget] at after
        -- A claim that finds an entry writes nothing.
        exact after ((h.entry_eq key).trans before)
  · cases hstep with
    | @recorded _ since outcome phase =>
      have hfacts := h.facts i
      rw [phase] at hfacts
      obtain ⟨hput, hkept, -⟩ := hfacts
      -- The write is made while the entry of this very claim stands.
      have hin : s.now < since + ledger.window := h.window_eq ▸ intime since outcome phase
      have hkey : key = g.key i := by
        by_contra hne
        refine after ?_
        obtain heq | ⟨text, -, heq⟩ | heq := record_cases outcome h.shared
        · rw [heq]
          show (ledger.del (g.key i)).get key = some held
          rw [SharedLedger.get_del, if_neg hne, before]
        · rw [heq]
          show (ledger.setXx (g.key i) text s.now).get key = some held
          rw [SharedLedger.get_setXx, if_neg hne, before]
        · rw [heq]
          exact (h.entry_eq key).trans before
      exact hkey ▸ (h.tenant i since hput hkept hin).1
  · cases hstep with
    | @released _ since error phase =>
      have hfacts := h.facts i
      rw [phase] at hfacts
      obtain ⟨hput, hkept⟩ := hfacts
      have hin : s.now < since + ledger.window := h.window_eq ▸ intime since error phase
      have hkey : key = g.key i := by
        by_contra hne
        refine after ?_
        rw [State.release, h.shared]
        show (ledger.del (g.key i)).get key = some held
        rw [SharedLedger.get_del, if_neg hne, before]
      exact hkey ▸ (h.tenant i since hput hkept hin).1

end Replays

section Apart

variable {ledger : SharedLedger}

/-- Two claims of one key are a window apart, unless one of them was released. -/
def Apart (g : Tasks) (window : ℕ) (past : Past) : Prop :=
  ∀ i j ti tj, i ≠ j → g.key i = g.key j → past.put i = some ti → past.put j = some tj →
    past.gave i = true ∨ past.gave j = true ∨ ti + window ≤ tj ∨ tj + window ≤ ti

theorem gave_give (h : s.past.gave j = true) : (s.give i).past.gave j = true := by
  show Function.update s.past.gave i true j = true
  by_cases hj : j = i
  · rw [hj, Function.update_self]
  · rwa [Function.update_of_ne hj]

/-- How the past of the claims changes. -/
theorem past_cases (h : Tenancy g ledger s) (hstep : Step g s e s') :
    (∀ i, s'.past.put i = s.past.put i) ∧ (∀ i, s.past.gave i = true → s'.past.gave i = true) ∨
    ∃ i, ledger.get (g.key i) = none ∧ s'.past.gave = s.past.gave ∧
      s'.past.put = Function.update s.past.put i (some s.now) := by
  cases hstep with
  | @claimed i =>
    cases hget : ledger.get (g.key i) with
    | none =>
      rw [claim_new h.shared hget]
      exact .inr ⟨i, hget, rfl, rfl⟩
    | some held =>
      rw [claim_known h.shared hget]
      exact .inl ⟨fun _ => rfl, fun _ => id⟩
  | @recorded i since outcome =>
    left
    rw [State.record]
    split_ifs
    · exact ⟨fun _ => rfl, fun _ => gave_give⟩
    · exact ⟨fun _ => rfl, fun _ => id⟩
  | released => exact .inl ⟨fun _ => rfl, fun _ => gave_give⟩
  | _ => exact .inl ⟨fun _ => rfl, fun _ => id⟩

theorem Tenancy.apart_step (h : Tenancy g ledger s) (hstep : Step g s e s')
    (apart : Apart g ledger.window s.past) : Apart g ledger.window s'.past := by
  obtain ⟨hput, hgave⟩ | ⟨k, hvacant, hgave, hput⟩ := past_cases h hstep
  -- No entry is put: what was apart stays apart.
  · intro i j ti tj hne hkey hi hj
    obtain h | h | h := apart i j ti tj hne hkey ((hput i).symm.trans hi) ((hput j).symm.trans hj)
    · exact .inl (hgave i h)
    · exact .inr (.inl (hgave j h))
    · exact .inr (.inr h)
  · -- An entry that stands would have been found.
    have hstands : ∀ i t, g.key i = g.key k → s.past.put i = some t →
        s.past.gave i = true ∨ t + ledger.window ≤ s.now := by
      intro i t hkey hi
      by_contra hcon
      obtain ⟨hkept, hin⟩ := not_or.1 hcon
      obtain ⟨-, held, hget, -⟩ := h.tenant i t hi (Bool.not_eq_true _ ▸ hkept) (Nat.not_le.1 hin)
      rw [hkey, hvacant] at hget
      cases hget
    intro i j ti tj hne hkey hi hj
    rw [hput] at hi hj
    rw [hgave]
    -- Only a pair with the new entry of `k` is new.
    by_cases hik : i = k
    · subst hik
      rw [Function.update_self] at hi
      rw [Function.update_of_ne (Ne.symm hne)] at hj
      obtain rfl := Option.some.inj hi
      obtain h | h := hstands j tj hkey.symm hj
      · exact .inr (.inl h)
      · exact .inr (.inr (.inr h))
    · rw [Function.update_of_ne hik] at hi
      by_cases hjk : j = k
      · subst hjk
        rw [Function.update_self] at hj
        obtain rfl := Option.some.inj hj
        obtain h | h := hstands i ti hkey hi
        · exact .inl h
        · exact .inr (.inr (.inl h))
      · rw [Function.update_of_ne hjk] at hj
        exact apart i j ti tj hne hkey hi hj

theorem apart_run {es : List Event} (run : Run (StepInTime g) s es s') (h : Tenancy g ledger s)
    (apart : Apart g ledger.window s.past) : Apart g ledger.window s'.past := by
  induction run generalizing ledger with
  | nil => exact apart
  | cons hstep _ ih =>
    obtain ⟨ledger', h', hwindow⟩ := h.step hstep
    have hapart := h.apart_step hstep.1 apart
    rw [← hwindow] at hapart ⊢
    exact ih h' hapart

end Apart

section Handled

variable {ledger : SharedLedger} {phase phase' : Phase}

/-- What the ledger answers a claim. -/
def Answers (g : Tasks) (answer : Except ApiError Claim) : Prop :=
  answer = .error .operationInProgress ∨ (∃ key, answer = .ok (.new key)) ∨
    ∃ k, answer = .ok (.answered (g.outcome k))

/-- How far a handler has come in `operations`. -/
def Follows (g : Tasks) (i : ℕ) : Phase → Prop
  | .arrived | .dropped => True
  | .claiming | .holding _ => g.admitted i = .ok ()
  | .claimed _ answer => g.admitted i = .ok () ∧ Answers g answer
  | .refused _ e => g.admitted i = .ok () ∧ g.granted i = .error e
  | .granted _ | .forwarding .. => g.admitted i = .ok () ∧ ∃ grant, g.granted i = .ok grant
  | .recording _ outcome | .answering outcome false =>
    g.admitted i = .ok () ∧ (∃ grant, g.granted i = .ok grant) ∧ outcome = g.outcome i
  | .answering outcome true => g.admitted i = .ok () ∧ ∃ k, outcome = g.outcome k
  | .done response => ∃ reading, response = g.response i reading

theorem Follows.next (follows : Follows g i phase) (h : Next g i phase phase')
    (answers : ∀ since answer, phase' = .claimed since answer → Answers g answer) :
    Follows g i phase' := by
  cases h with
  | turnedAway refusal => exact ⟨.inProgress, (response_turnedAway refusal).symm⟩
  | admitted admission => exact admission
  | claimed => exact ⟨follows, answers _ _ rfl⟩
  | heard =>
    -- The ledger says: it runs, it is yours, or here is what was answered before.
    obtain ⟨hadmitted, rfl | ⟨key, rfl⟩ | ⟨k, rfl⟩⟩ := follows
    · exact ⟨.inProgress, (response_inProgress hadmitted).symm⟩
    · exact hadmitted
    · exact ⟨hadmitted, k, rfl⟩
  | unsent => exact ⟨.unavailable, (response_unavailable follows).symm⟩
  | unheard => exact ⟨.unavailable, (response_unavailable follows.1).symm⟩
  | granted issued => exact ⟨follows, _, issued⟩
  | ungranted refusal => exact ⟨follows, refusal⟩
  | forwarded => exact follows
  | reached => exact follows
  | received => exact ⟨follows.1, follows.2, rfl⟩
  | recorded => exact follows
  | released => exact ⟨.new (g.key i), (response_ungranted follows.1 follows.2 _).symm⟩
  | @answered outcome replayed =>
    cases replayed with
    | true =>
      obtain ⟨hadmitted, k, rfl⟩ := follows
      exact ⟨.answered (g.call k).readings.exchange, (response_answered hadmitted k).symm⟩
    | false =>
      obtain ⟨hadmitted, ⟨grant, hgranted⟩, rfl⟩ := follows
      exact ⟨.new (g.key i), (response_granted hadmitted hgranted _).symm⟩
  | dropped => trivial

theorem Tenancy.answers (h : Tenancy g ledger s) (i : ℕ) :
    ∃ answer, (s.claim g i).phase i = .claimed s.now answer ∧ Answers g answer := by
  cases hget : ledger.get (g.key i) with
  | none =>
    rw [claim_new h.shared hget]
    exact ⟨_, Function.update_self .., .inr (.inl ⟨_, rfl⟩)⟩
  | some held =>
    obtain ⟨answer, hphase⟩ := @claim_phase g s i
    have hself : (s.claim g i).phase i = .claimed s.now answer := by rw [hphase, Function.update_self]
    obtain ⟨k, -, -, -, hreplaying⟩ := h.claimed_known hget
    rw [hself] at hreplaying
    refine ⟨answer, hself, hreplaying.imp_right fun ⟨outcome, ⟨_, houtcome⟩, hanswer⟩ => .inr ?_⟩
    exact ⟨k, houtcome ▸ hanswer⟩

theorem claimed_of_next {since : ℕ} {answer : Except ApiError Claim}
    (h : Next g i phase (.claimed since answer)) : phase = .claiming := by
  generalize hafter : Phase.claimed since answer = phase' at h
  cases h with
  | claimed => rfl
  | heard => exact absurd ⟨_, _, hafter.symm⟩ afterClaim_ne_claimed
  | _ => cases hafter

theorem follows_run {es : List Event} (run : Run (StepInTime g) s es s') (h : Tenancy g ledger s)
    (follows : Follows g i (s.phase i)) : Follows g i (s'.phase i) := by
  induction run generalizing ledger with
  | nil => exact follows
  | @cons s₁ s₂ s₃ e es hstep _ ih =>
    obtain ⟨ledger', h', -⟩ := h.step hstep
    refine ih h' ?_
    obtain hsame | hnext := next_or_same hstep.1 i
    · exact hsame ▸ follows
    · refine follows.next hnext fun since answer hclaimed => ?_
      rw [hclaimed] at hnext
      have hclaiming := claimed_of_next hnext
      obtain hafter | rfl | hafter | hafter := claiming_cases hstep.1 hclaiming
      · cases hafter.symm.trans hclaimed
      · obtain ⟨answer', hphase, hanswers⟩ := h.answers i
        obtain ⟨-, rfl⟩ := Phase.claimed.inj (hphase.symm.trans hclaimed)
        exact hanswers
      · cases hafter.symm.trans hclaimed
      · cases hafter.symm.trans hclaimed

/-- A handler that is done has answered as `operations` does, with what the ledger told it. -/
theorem handled_run {windowSecs now : ℕ} {es : List Event} {response : Response}
    (run : Run (StepInTime g) (start now (.shared ⟨∅, windowSecs⟩)) es s)
    (hdone : s.phase i = .done response) : ∃ reading, response = g.response i reading := by
  have hfollows : Follows g i (s.phase i) :=
    follows_run (s := start now (.shared ⟨∅, windowSecs⟩)) run (Tenancy.start now rfl) trivial
  rwa [hdone] at hfollows

end Handled

/-- Where SHA-256 tells the calls' inputs apart, their keys tell the projects and the ciphertexts apart. -/
theorem free_of_sha256 (distinct : ∀ i j,
    g.state.crypto.sha256 (Key.input (g.call i).project (g.call i).ciphertext) =
      g.state.crypto.sha256 (Key.input (g.call j).project (g.call j).ciphertext) →
    Key.input (g.call i).project (g.call i).ciphertext = Key.input (g.call j).project (g.call j).ciphertext) :
    ∀ i j, g.key i = g.key j → g.Same i j :=
  fun i j h => Key.input_injective (distinct i j (Key.mk.inj h))

/-- With the shared ledger a resent operation does not run twice, as long as the entries are written
in time. -/
theorem resend_once (g : Tasks) (free : ∀ i j, g.key i = g.key j → g.Same i j) (windowSecs now : ℕ) :
    Replays g (start now (.shared ⟨∅, windowSecs⟩)) where
  resent {es s k t j s' es' s''} run hput hkept hsame hstep hin run' := by
    obtain ⟨ledger, h, -⟩ := (Tenancy.start (g := g) now rfl).run run
    rw [h.window_eq] at hin
    obtain ⟨hholder, held, hget, -⟩ := h.tenant k t hput hkept hin
    have hkey : g.key k = g.key j := by rw [key, key, hsame.1, hsame.2]
    cases hstep with
    | claimed hphase =>
      -- The entry that stands under the key is the one that `k` put.
      obtain ⟨i, hholder', -, hpast, hreplaying⟩ := h.claimed_known (hkey ▸ hget)
      rw [← hkey, hholder] at hholder'
      obtain rfl := Option.some.inj hholder'
      have hfresh : s.past.forwarded j = false := by
        have hfacts := h.facts j
        rw [hphase] at hfacts
        exact hfacts.2.2
      obtain ⟨hreplaying, hforwarded⟩ := replaying_run run' hreplaying (hpast ▸ hfresh)
      refine ⟨hforwarded, fun response hdone => ?_⟩
      rw [hdone] at hreplaying
      refine hreplaying.imp_right (Or.imp_right ?_)
      rintro ⟨outcome, ⟨hforwarded, rfl⟩, hresponse⟩
      exact ⟨hforwarded, hresponse⟩
  alone {es s i j ti tj} run hne hsame hi hj hle hlt := by
    obtain ⟨ledger, h, hwindow⟩ := (Tenancy.start (g := g) now rfl).run run
    have hkey : g.key i = g.key j := by rw [key, key, hsame.1, hsame.2]
    -- Two entries of one key are a window apart, or one of the two was given up.
    have hapart := apart_run run (Tenancy.start (g := g) now rfl) (fun _ _ _ _ _ _ hi => by cases hi)
    rw [h.window_eq, hwindow] at hlt
    obtain h | h | h | h := hapart i j ti tj hne hkey hi hj
    · exact .inl h
    · exact .inr h
    · omega
    · omega
  forwarded {es s i} run hforwarded := by
    cases hput : s.past.put i with
    | some t => exact ⟨t, rfl⟩
    | none =>
      -- What never put an entry was never forwarded.
      have hfresh := (unclaimed_run free run (Tenancy.start (g := g) now rfl)
        (fun _ => ⟨.inl rfl, rfl⟩) hput).2
      rw [hforwarded] at hfresh
      cases hfresh
  unclaimed {es s j} run hput := by
    obtain ⟨hphase, hforwarded⟩ := unclaimed_run free run (Tenancy.start (g := g) now rfl)
      (fun _ => ⟨.inl rfl, rfl⟩) hput
    refine ⟨hforwarded, fun response hdone => ?_⟩
    rw [hdone] at hphase
    obtain h | h | ⟨e, hadmitted, h⟩ | hreplaying := hphase
    · cases h
    · cases h
    · exact .inl ⟨e, hadmitted, Phase.done.inj h⟩
    · refine .inr (hreplaying.imp_right (Or.imp_right ?_))
      rintro ⟨outcome, ⟨k, hsame, hforwarded, rfl⟩, hresponse⟩
      exact ⟨k, hsame, hforwarded, hresponse⟩
  read {es s j s' held} run hstep hentry := by
    obtain ⟨ledger, h, -⟩ := (Tenancy.start (g := g) now rfl).run run
    rw [h.entry_eq] at hentry
    obtain ⟨i, hholder, hkey, -⟩ := h.entry _ held hentry
    exact ⟨i, hholder, free i j hkey⟩
  write {es s i e s' key held} run hstep command before after := by
    obtain ⟨ledger, h, -⟩ := (Tenancy.start (g := g) now rfl).run run
    exact h.write hstep command before after
  handled run hdone := handled_run run hdone

section Sample

/-- What the handler of a request finds: no slot is left for the second one. -/
def sampleReadings (i : ℕ) : AppState.OperationsReadings :=
  { unreadable with permit := i ≠ 1 }

/-- One request, sent again and again. -/
def sampleTasks : Tasks where
  state := sampleState
  http := .documented
  call i := ⟨.sample 0, sampleDescriptor, [1], sampleReadings i, fun _ h => by cases h⟩

theorem issue_sample : ∃ grant,
    sampleState.walletGrants.issue lenientCrypto (.sample 0) sampleDescriptor 0 = .ok grant :=
  WalletGrants.exists_issue (.sample 0) 0 rfl (List.not_mem_nil) fun _ => ⟨_, rfl⟩

/-- One request, sent again and again, and answered. -/
def answeredTasks : Tasks :=
  { sampleTasks with
    call := fun i => { sampleTasks.call i with
      readings := { sampleReadings i with grantClock := some 0, exchange := some ⟨200, none, none, []⟩ }
      valid := fun response h => by
        obtain rfl := Option.some.inj h
        simp [StatusCode.IsValid] } }

theorem granted_answered (i : ℕ) : ∃ grant, answeredTasks.granted i = .ok grant := by
  obtain ⟨grant, hissue⟩ := issue_sample
  exact ⟨grant, granted_ok.2 ⟨.inr ⟨rfl, rfl, rfl⟩, 0, rfl, hissue⟩⟩

theorem admitted_answered (i : ℕ) (h : i ≠ 1) : answeredTasks.admitted i = .ok () := by
  have hpermit : sampleReadings i = unreadable := by
    simp [sampleReadings, unreadable, h]
  have hadmits := admits_sample
  rw [← hpermit] at hadmits
  exact hadmits

theorem exists_stored_answered : ∃ text,
    SharedLedger.stored answeredTasks.http (answeredTasks.outcome 0) = some text := by
  have houtcome : answeredTasks.outcome 0 = .ok ⟨200, JSON, []⟩ := rfl
  have hsome : (Record.new answeredTasks.http (answeredTasks.outcome 0)).isSome := by
    refine Record.new_isSome_iff.2 fun answer hanswer => ?_
    obtain rfl := Except.ok.inj (houtcome.symm.trans hanswer)
    exact ⟨by decide +kernel, by decide +kernel⟩
  obtain ⟨record, hnew⟩ := Option.isSome_iff_exists.1 hsome
  obtain ⟨text, hstored, -⟩ := SharedLedger.stored_new hnew
  exact ⟨text, hstored⟩

theorem phase_set {phase : Phase} : (s.set i phase).phase i = phase := Function.update_self ..

/-- The first request was answered by the enclave, while another one was refused. -/
structure Recording (s : State) (ledger : SharedLedger) : Prop where
  now : s.now = 0
  entries : s.ledger = .shared ledger
  window : ledger.window = 360 * NANOS_PER_SEC
  entry : (ledger.get (answeredTasks.key 0)).isSome = true
  phase : s.phase 0 = .recording 0 (answeredTasks.outcome 0)
  arrived : s.phase 2 = .arrived
  refused : s.phase 3 = .done (.problem .operationInProgress)
  put : s.past.put 0 = some 0
  gave : s.past.gave 0 = false
  forwarded : s.past.forwarded 0 = true

theorem exists_recording : ∃ s ledger, Run (StepInTime answeredTasks) (start 0 (.shared ⟨∅, 360⟩))
    [.admitted 0, .claimed 0, .heard 0, .granted 0, .forwarded 0, .reached 0, .admitted 3, .claimed 3,
      .heard 3, .received 0] s ∧
      Recording s ledger := by
  obtain ⟨grant, hgrant⟩ := granted_answered 0
  exact ⟨_, _, .cons ⟨.admitted rfl (admitted_answered 0 (by decide)), trivial⟩ <|
    .cons ⟨.claimed rfl, trivial⟩ <| .cons ⟨.heard rfl, trivial⟩ <| .cons ⟨.granted rfl hgrant, trivial⟩ <|
    .cons ⟨.forwarded rfl, trivial⟩ <| .cons ⟨.reached rfl, trivial⟩ <|
    .cons ⟨.admitted rfl (admitted_answered 3 (by decide)), trivial⟩ <| .cons ⟨.claimed rfl, trivial⟩ <|
    .cons ⟨.heard rfl, trivial⟩ <| .single ⟨.received rfl (fun h => by cases h), trivial⟩,
    { now := rfl
      entries := rfl
      window := rfl
      entry := rfl
      phase := rfl
      arrived := rfl
      refused := rfl
      put := rfl
      gave := rfl
      forwarded := rfl }⟩

/-- The handler of a second request is about to claim, and finds what was stored of the first one's
outcome. -/
structure Resending (s : State) (ledger : SharedLedger) (held : Held) : Prop where
  now : s.now = 5
  entries : s.ledger = .shared ledger
  window : ledger.window = 360 * NANOS_PER_SEC
  entry : ledger.get (answeredTasks.key 2) = some held
  stored : SharedLedger.stored answeredTasks.http (answeredTasks.outcome 0) = some held.text
  phase : s.phase 2 = .claiming
  refused : s.phase 3 = .done (.problem .operationInProgress)
  put : s.past.put 0 = some 0
  gave : s.past.gave 0 = false
  forwarded : s.past.forwarded 0 = true

theorem Recording.resending {s : State} {ledger : SharedLedger} (h : Recording s ledger) :
    ∃ s' ledger' held, Run (StepInTime answeredTasks) s [.recorded 0, .passed 5, .admitted 2] s' ∧
      Resending s' ledger' held := by
  have hsize : ¬ReplayLedger.Oversize (answeredTasks.outcome 0) := by decide
  obtain ⟨text, hstored⟩ := exists_stored_answered
  -- the outcome is a variable from here on: evaluating its text takes the kernel too long
  generalize houtcome : answeredTasks.outcome 0 = outcome at hsize hstored
  have hrecord : s.record answeredTasks 0 outcome =
      { s with ledger := .shared (ledger.setXx (answeredTasks.key 0) text s.now) }.set 0
        (.answering outcome false) := by
    simp only [State.record, ReplayLedger.record, if_neg hsize, h.entries, hstored]
  have hintime : InTime s (.recorded 0) := by
    intro since outcome' hphase
    obtain ⟨rfl, -⟩ := Phase.recording.inj (h.phase.symm.trans hphase)
    rw [h.now, Tasks.window, h.entries]
    show 0 < 0 + ledger.window
    rw [h.window]
    decide
  have step := Step.recorded (g := answeredTasks) (houtcome ▸ h.phase)
  rw [hrecord] at step
  refine ⟨_, ledger.setXx (answeredTasks.key 0) text s.now, ⟨text, s.now + ledger.window⟩,
    .cons ⟨step, hintime⟩ <|
    .cons ⟨.passed (t := 5) ?_, trivial⟩ <|
    .single ⟨.admitted h.arrived (admitted_answered 2 (by decide)), trivial⟩, ?_⟩
  · show s.now ≤ 5
    rw [h.now]
    decide
  · obtain ⟨held, hheld⟩ := Option.isSome_iff_exists.1 h.entry
    exact
      { now := rfl
        entries := rfl
        window := SharedLedger.window_setXx.trans h.window
        entry := by
          have hkey : answeredTasks.key 2 = answeredTasks.key 0 := rfl
          rw [SharedLedger.get_setXx, if_pos hkey, hheld]
          rfl
        stored := houtcome ▸ hstored
        phase := rfl
        refused := h.refused
        put := h.put
        gave := h.gave
        forwarded := h.forwarded }

theorem Resending.answered {s : State} {ledger : SharedLedger} {held : Held} (h : Resending s ledger held) :
    ∃ s', answeredTasks.Step s (.claimed 2) s' ∧
      s'.phase 2 = .claimed 5 (.ok (.answered (answeredTasks.outcome 0))) := by
  have hclaim := claim_known (g := answeredTasks) (i := 2) h.entries h.entry
  rw [SharedLedger.claim_stored h.stored (outcome_valid 0), h.now] at hclaim
  exact ⟨_, .claimed h.phase, hclaim ▸ phase_set⟩

/-- The first of three requests with one ciphertext is forwarded. The third comes while it runs, and is
refused; the second comes after its outcome is stored, and is answered it. -/
theorem resend_once_sample : ∃ es s s' es' s'',
    Run (StepInTime answeredTasks) (start 0 (.shared ⟨∅, 360⟩)) es s ∧ s.past.forwarded 0 = true ∧
    s.phase 3 = .done (.problem .operationInProgress) ∧
    answeredTasks.Step s (.claimed 2) s' ∧ Run (StepInTime answeredTasks) s' es' s'' ∧
    s''.phase 2 = .done (.replayed (answeredTasks.answer 2 (answeredTasks.outcome 0))) ∧
    s''.past.forwarded 2 = false := by
  obtain ⟨s₀, ledger₀, run₀, hrecording⟩ := exists_recording
  obtain ⟨s, ledger, held, run, hresending⟩ := hrecording.resending
  obtain ⟨s', step, hphase⟩ := hresending.answered
  have heard : answeredTasks.StepInTime s' (.heard 2)
      (s'.set 2 (.answering (answeredTasks.outcome 0) true)) := ⟨.heard hphase, trivial⟩
  have hanswering : (s'.set 2 (.answering (answeredTasks.outcome 0) true)).phase 2 =
      .answering (answeredTasks.outcome 0) true := phase_set
  have run' : Run (StepInTime answeredTasks) s' [.heard 2, .answered 2] _ :=
    .cons heard (.single ⟨.answered hanswering, trivial⟩)
  have hfree := free_of_sha256 (g := answeredTasks) fun _ _ _ => rfl
  have hsame : answeredTasks.Same 0 2 := ⟨rfl, rfl⟩
  have hin : s.now < 0 + window s := by
    rw [hresending.now, window, hresending.entries]
    show 5 < 0 + ledger.window
    rw [hresending.window]
    decide
  exact ⟨_, s, s', _, _, run₀.append run, hresending.forwarded, hresending.refused, step, run',
    phase_set, ((resend_once answeredTasks hfree 360 0).resent (run₀.append run)
      hresending.put hresending.gave hsame step hin run').1⟩

/-- A request that is sent again while its first handler holds the claim is turned away before the ledger,
for want of a slot. -/
theorem resend_turnedAway : ∃ es s, Run (StepInTime sampleTasks) (start 0 (.shared ⟨∅, 360⟩)) es s ∧
    s.past.put 0 = some 0 ∧ s.past.gave 0 = false ∧ sampleTasks.Same 0 1 ∧ s.now < 0 + window s ∧
    s.phase 1 = .done (.problem .tooManyInFlight) := by
  have hadmitted : sampleTasks.admitted 0 = .ok () := admits_sample
  have hrefused : sampleTasks.admitted 1 = .error .tooManyInFlight := by
    show sampleState.admits sampleDescriptor (sampleReadings 1) = _
    have hverify : sampleState.provisioner.verify sampleState.crypto sampleDescriptor 0 = .ok () :=
      verify_sample
    have hclock : clockMs (sampleReadings 1).clock = .ok 0 := rfl
    rw [AppState.admits, hclock, ok_bind, hverify, ok_bind]
    decide
  refine ⟨[.admitted 0, .claimed 0, .turnedAway 1], _,
    .cons ⟨.admitted rfl hadmitted, trivial⟩ (.cons ⟨.claimed rfl, trivial⟩
      (.single ⟨.turnedAway rfl hrefused, trivial⟩)), rfl, rfl, ⟨rfl, rfl⟩, ?_, rfl⟩
  decide

end Sample

end Tasks

end ZolanaTvc.Gateway
