import ZolanaTvc.Gateway.Resend

/-!
# Orphaned claims

A claim that nobody holds any more still refuses the request to whoever sends it again. A handler that is
dropped before its request is sent leaves such a claim, and so does a release that fails. A request for
which no connection could be made is recorded as the enclave's failure.
-/

namespace ZolanaTvc.Gateway

open Protocol Except

namespace ReplayLedger

/-- The key's request is running, as far as the ledger knows. -/
def Running (key : Key) : ReplayLedger → Prop
  | .local ledger => ledger.state.get key = some .running
  | .shared ledger => ∃ held, ledger.get key = some held ∧ held.text = RUNNING

/-- Nothing was claimed yet. -/
def IsEmpty : ReplayLedger → Prop
  | .local ledger => ledger.state.maps = fun _ => ∅
  | .shared ledger => ledger.store = ∅

/-- The generations of the process have no key in common. -/
def Apart : ReplayLedger → Prop
  | .local ledger => ledger.state.Apart
  | .shared _ => True

variable {http : Http} {key key' : Key} {now : ℕ} {ledger : ReplayLedger} {outcome : Outcome}

theorem IsEmpty.apart (h : ledger.IsEmpty) : ledger.Apart := by
  cases ledger with
  | «local» ledger =>
    intro i key hi
    rw [show ledger.state.maps = fun _ => ∅ from h] at hi
    exact absurd hi (AList.notMem_empty key)
  | shared => trivial

theorem IsEmpty.not_running (h : ledger.IsEmpty) : ¬ledger.Running key := by
  cases ledger with
  | «local» ledger =>
    have hnone : ledger.state.get key = none := by
      rw [Generations.get_eq_none, show ledger.state.maps = fun _ => ∅ from h]
      exact fun _ => AList.notMem_empty key
    simp [Running, hnone]
  | shared ledger =>
    rintro ⟨held, hget, -⟩
    rw [SharedLedger.get, show ledger.store = ∅ from h] at hget
    cases hget

/-- A key that runs after a claim was claimed just now or ran before. -/
theorem running_claim (apart : ledger.Apart) (h : (ledger.claim http key now).2.Running key') :
    ledger.Running key' ∨ key' = key ∧ (ledger.claim http key now).1 = .ok (.new key) := by
  cases ledger with
  | «local» ledger =>
    -- A rotation forgets entries and makes none.
    have hrotated : (ledger.rotated now).get key' = some .running → ledger.state.get key' = some .running := by
      rw [LocalLedger.get_rotated apart]
      split_ifs
      · exact fun h => by cases h
      · exact id
    have h : (ledger.claim key now).2.state.get key' = some .running := h
    -- A new claim makes its own key run, and leaves the others alone.
    cases hget : (ledger.rotated now).get key with
    | none =>
      have hclaim : ((ReplayLedger.local ledger).claim http key now).1 = .ok (.new key) := by
        show (ledger.claim key now).1 = _
        rw [LocalLedger.claim_new hget]
      rw [LocalLedger.claim_new hget] at h
      have h : ((ledger.rotated now).insert key .running).get key' = some .running := h
      rw [Generations.get_insert hget] at h
      split_ifs at h with hkey
      · exact .inr ⟨hkey, hclaim⟩
      · exact .inl (hrotated h)
    | some entry =>
      rw [LocalLedger.claim_known hget] at h
      exact .inl (hrotated h)
  | shared ledger =>
    obtain ⟨held, h, htext⟩ := h
    have h : (ledger.setNx key now).2.get key' = some held := h
    cases hget : ledger.get key with
    | none =>
      have hset : ledger.setNx key now = (none, ledger.put key RUNNING now) := by
        rw [SharedLedger.setNx, hget]
      rw [hset, SharedLedger.get_put] at h
      split_ifs at h with hkey
      · refine .inr ⟨hkey, ?_⟩
        rw [claim, hset]
        rfl
      · exact .inl ⟨held, h, htext⟩
    | some other =>
      have hset : ledger.setNx key now = (some other.text, ledger) := by
        rw [SharedLedger.setNx, hget]
      rw [hset] at h
      exact .inl ⟨held, h, htext⟩

theorem running_release (h : (ledger.release key).Running key') : ledger.Running key' ∧ key' ≠ key := by
  cases ledger with
  | «local» ledger =>
    have h : (ledger.state.remove key).get key' = some .running := h
    rw [Generations.get_remove] at h
    split_ifs at h with hkey
    exact ⟨h, hkey⟩
  | shared ledger =>
    obtain ⟨held, h, htext⟩ := h
    have h : (ledger.del key).get key' = some held := h
    rw [SharedLedger.get_del] at h
    split_ifs at h with hkey
    exact ⟨⟨held, h, htext⟩, hkey⟩

theorem running_record (h : (ledger.record http key outcome now).Running key') : ledger.Running key' := by
  unfold record at h
  split_ifs at h with hsize
  · exact (running_release h).1
  · cases ledger with
    | «local» ledger =>
      have h : (ledger.state.set key (.answered outcome)).get key' = some .running := h
      rw [Generations.get_set] at h
      split_ifs at h with hkey
      · obtain ⟨entry, -, h⟩ := Option.map_eq_some_iff.1 h
        cases h
      · exact h
    | shared ledger =>
      cases hstored : SharedLedger.stored http outcome with
      | none =>
        rw [hstored] at h
        exact h
      | some text =>
        rw [hstored] at h
        obtain ⟨held, h, htext⟩ := h
        have h : (ledger.setXx key text now).get key' = some held := h
        rw [SharedLedger.get_setXx] at h
        split_ifs at h with hkey
        · obtain ⟨record, hnew, -⟩ := Option.bind_eq_some_iff.1 hstored
          -- The text of an outcome is not the text of a running claim.
          obtain ⟨text', hstored', -, hrunning⟩ := SharedLedger.stored_new hnew
          obtain rfl := Option.some.inj (hstored.symm.trans hstored')
          obtain ⟨_, -, rfl⟩ := Option.map_eq_some_iff.1 h
          exact absurd htext hrunning
        · exact ⟨held, h, htext⟩

/-- Only a key that runs is refused. -/
theorem running_of_inProgress (apart : ledger.Apart)
    (h : (ledger.claim http key now).1 = .error .operationInProgress) : ledger.Running key := by
  cases ledger with
  | «local» ledger =>
    have h : (ledger.claim key now).1 = .error .operationInProgress := h
    cases hget : (ledger.rotated now).get key with
    | none =>
      rw [LocalLedger.claim_new hget] at h
      cases h
    | some entry =>
      rw [LocalLedger.claim_known hget] at h
      cases entry with
      | answered outcome => cases h
      | running =>
        rw [LocalLedger.get_rotated apart] at hget
        split_ifs at hget
        exact hget
  | shared ledger =>
    have h : SharedLedger.claim http key (some (ledger.setNx key now).1) = .error .operationInProgress := h
    cases hget : ledger.get key with
    | none =>
      have hset : (ledger.setNx key now).1 = none := by rw [SharedLedger.setNx, hget]
      rw [hset] at h
      cases h
    | some held =>
      have hset : (ledger.setNx key now).1 = some held.text := by rw [SharedLedger.setNx, hget]
      rw [hset] at h
      -- A text that is not `RUNNING` is read as a record, and no way of reading it ends in
      -- `OperationInProgress`.
      refine ⟨held, hget, ?_⟩
      by_contra hrunning
      rw [SharedLedger.claim_text, refuse_eq_ok (u := ()).2 hrunning, ok_bind] at h
      cases hread : Record.fromStr held.text with
      | none =>
        rw [hread] at h
        cases h
      | some record =>
        rw [hread, ofOption_some, ok_bind] at h
        cases houtcome : record.outcome http <;>
        · rw [houtcome] at h
          cases h

theorem apart_claim (apart : ledger.Apart) : (ledger.claim http key now).2.Apart := by
  cases ledger with
  | «local» ledger =>
    cases hget : (ledger.rotated now).get key with
    | none =>
      show (ledger.claim key now).2.state.Apart
      rw [LocalLedger.claim_new hget]
      exact (LocalLedger.apart_rotated apart).insert hget
    | some entry =>
      show (ledger.claim key now).2.state.Apart
      rw [LocalLedger.claim_known hget]
      exact LocalLedger.apart_rotated apart
  | shared => trivial

theorem apart_release (apart : ledger.Apart) : (ledger.release key).Apart := by
  cases ledger with
  | «local» => exact Generations.Apart.remove apart
  | shared => trivial

theorem apart_record (apart : ledger.Apart) : (ledger.record http key outcome now).Apart := by
  unfold record
  split_ifs
  · exact apart_release apart
  · cases ledger with
    | «local» => exact Generations.Apart.set apart
    | shared ledger => cases SharedLedger.stored http outcome <;> trivial

end ReplayLedger

namespace Tasks

variable {g : Tasks} {s s' : State} {e : Event} {i j : ℕ} {phase phase' : Phase}

/-- The handler has a claim that it neither recorded nor released. -/
def Phase.HasClaim (phase : Phase) : Prop := ∃ since, phase.Holds since

/-- No claim is given up without a word, and the enclave can be reached. -/
def Careful (s : State) : Event → Prop
  | .dropped i | .unheard i => (s.phase i).HasClaim → s.past.reached i = true
  | .received i => s.past.reached i = true
  | .unreleased _ => False
  | _ => True

def StepCarefully (g : Tasks) (s : State) (e : Event) (s' : State) : Prop := g.Step s e s' ∧ Careful s e

/-- Once no handler of a key is live, the key runs only for a request that was sent, and unless one was
sent, the next claim is not refused as running. What is recorded is the outcome of a request that was
sent. -/
structure NoOrphan (g : Tasks) (s : State) : Prop where
  vacant : ∀ key, (∀ i, g.key i = key → ¬(s.phase i).Live) → s.ledger.Running key →
    ∃ i, g.key i = key ∧ s.past.holder key = some i ∧ s.past.reached i = true
  resent : ∀ j, s.phase j = .claiming → (∀ i, i ≠ j → g.key i = g.key j → ¬(s.phase i).Live) →
    (∀ i, s.past.holder (g.key j) = some i → s.past.reached i = false) →
    (s.ledger.claim g.http (g.key j) s.now).1 ≠ .error .operationInProgress
  sent : ∀ i since outcome, s.phase i = .recording since outcome → s.past.reached i = true

theorem Phase.HasClaim.live (h : phase.HasClaim) : phase.Live := by
  obtain ⟨since, h⟩ := h
  cases phase <;> trivial

/-- What holds of every state of a careful run. -/
structure Owned (g : Tasks) (s : State) : Prop where
  apart : s.ledger.Apart
  holder : ∀ key, s.ledger.Running key → ∃ i, g.key i = key ∧ s.past.holder key = some i ∧
    ((s.phase i).HasClaim ∨ s.past.reached i = true)
  sent : ∀ i since, s.phase i = .forwarding since true → s.past.reached i = true
  recording : ∀ i since outcome, s.phase i = .recording since outcome → s.past.reached i = true

theorem set_phase (h : j ≠ i) : (s.set i phase).phase j = s.phase j := Function.update_of_ne h ..

/-- What the execution of a claim leaves. -/
theorem claim_fields : (s.claim g i).ledger = (s.ledger.claim g.http (g.key i) s.now).2 ∧
    (s.claim g i).past.reached = s.past.reached ∧
    (s.claim g i).phase = Function.update s.phase i
      (.claimed s.now (s.ledger.claim g.http (g.key i) s.now).1) := by
  simp only [State.claim]
  rcases h : (s.ledger.claim g.http (g.key i) s.now).1 with e | ⟨key⟩ | ⟨outcome⟩ <;> exact ⟨rfl, rfl, rfl⟩

/-- Only a new claim has another holder. -/
theorem claim_holder :
    (∀ key, (s.ledger.claim g.http (g.key i) s.now).1 ≠ .ok (.new key)) ∧
      (s.claim g i).past.holder = s.past.holder ∨
    (∃ key, (s.ledger.claim g.http (g.key i) s.now).1 = .ok (.new key)) ∧
      (s.claim g i).past.holder = Function.update s.past.holder (g.key i) (some i) := by
  simp only [State.claim]
  rcases h : (s.ledger.claim g.http (g.key i) s.now).1 with e | ⟨key⟩ | ⟨outcome⟩
  · exact .inl ⟨by simp, rfl⟩
  · exact .inr ⟨⟨key, rfl⟩, rfl⟩
  · exact .inl ⟨by simp, rfl⟩

theorem Owned.noOrphan (h : Owned g s) : NoOrphan g s := by
  refine ⟨fun key hidle hrunning => ?_, fun j hclaiming hidle hunsent hrefused => ?_, h.recording⟩
  · obtain ⟨i, hkey, hholder, hclaim | hreached⟩ := h.holder key hrunning
    · exact absurd hclaim.live (hidle i hkey)
    · exact ⟨i, hkey, hholder, hreached⟩
  · have hrunning := ReplayLedger.running_of_inProgress h.apart hrefused
    obtain ⟨i, hkey, hholder, hclaim | hreached⟩ := h.holder _ hrunning
    · -- The handler that claims holds nothing yet.
      have hij : i ≠ j := by
        rintro rfl
        rw [hclaiming] at hclaim
        exact hclaim.elim fun _ h => h
      exact hidle i hij hkey hclaim.live
    · rw [hunsent i hholder] at hreached
      cases hreached

namespace Owned

/-- A handler moves, and fewer keys run. -/
theorem write (h : Owned g s) {ledger : ReplayLedger} (apart : ledger.Apart)
    (running : ∀ key, ledger.Running key → s.ledger.Running key)
    (claim : (s.phase i).HasClaim → ledger.Running (g.key i) →
      phase.HasClaim ∨ s.past.reached i = true)
    (sent : ∀ since, phase = .forwarding since true → s.past.reached i = true)
    (recording : ∀ since outcome, phase = .recording since outcome → s.past.reached i = true) :
    Owned g ({ s with ledger }.set i phase) := by
  have hphase : ∀ j, (s.set i phase).phase j = if j = i then phase else s.phase j := fun j => by
    by_cases hj : j = i <;> simp [State.set, hj]
  refine ⟨apart, fun key hrunning => ?_, fun j since hj => ?_, fun j since outcome hj => ?_⟩
  · obtain ⟨j, hkey, hholder, hclaim⟩ := h.holder key (running key hrunning)
    refine ⟨j, hkey, hholder, ?_⟩
    show ((s.set i phase).phase j).HasClaim ∨ _
    rw [hphase]
    split_ifs with hj
    · subst hj
      exact hclaim.elim (fun hclaim => claim hclaim (hkey.symm ▸ hrunning)) .inr
    · exact hclaim
  · replace hj := (hphase j).symm.trans hj
    split_ifs at hj with hi
    · exact hi ▸ sent since hj
    · exact h.sent j since hj
  · replace hj := (hphase j).symm.trans hj
    split_ifs at hj with hi
    · exact hi ▸ recording since outcome hj
    · exact h.recording j since outcome hj

/-- A handler moves, and the ledger does not. -/
theorem set (h : Owned g s) (claim : (s.phase i).HasClaim → phase.HasClaim ∨ s.past.reached i = true)
    (sent : ∀ since, phase = .forwarding since true → s.past.reached i = true)
    (recording : ∀ since outcome, phase = .recording since outcome → s.past.reached i = true) :
    Owned g (s.set i phase) :=
  h.write h.apart (fun _ h => h) (fun hclaim _ => claim hclaim) sent recording

theorem reach (h : Owned g s) {since : ℕ} : Owned g (s.reach i since) := by
  have hreached : ∀ j, s.past.reached j = true → (s.reach i since).past.reached j = true := by
    intro j hj
    show Function.update s.past.reached i true j = true
    by_cases hij : j = i
    · rw [hij, Function.update_self]
    · rwa [Function.update_of_ne hij]
  have hself : (s.reach i since).past.reached i = true := Function.update_self ..
  have hphase : ∀ j, j ≠ i → (s.reach i since).phase j = s.phase j := fun j hj =>
    Function.update_of_ne hj ..
  refine ⟨h.apart, fun key hrunning => ?_, fun j since' hj => ?_, fun j since' outcome hj => ?_⟩
  · obtain ⟨j, hkey, hholder, hclaim⟩ := h.holder key hrunning
    refine ⟨j, hkey, hholder, ?_⟩
    by_cases hij : j = i
    · exact .inr (hij ▸ hself)
    · exact hclaim.imp (fun hclaim => (hphase j hij).symm ▸ hclaim) (hreached j)
  · by_cases hij : j = i
    · exact hij ▸ hself
    · exact hreached j (h.sent j since' ((hphase j hij).symm.trans hj))
  · by_cases hij : j = i
    · exact hij ▸ hself
    · exact hreached j (h.recording j since' outcome ((hphase j hij).symm.trans hj))

theorem claim (h : Owned g s) (phase : s.phase i = .claiming) : Owned g (s.claim g i) := by
  obtain ⟨hledger, hreached, hphases⟩ := claim_fields (g := g) (s := s) (i := i)
  have hphase : ∀ j, j ≠ i → (s.claim g i).phase j = s.phase j := fun j hj => by
    rw [hphases, Function.update_of_ne hj]
  have hself : (s.claim g i).phase i = .claimed s.now (s.ledger.claim g.http (g.key i) s.now).1 := by
    rw [hphases, Function.update_self]
  have hnew : ∀ key, (s.ledger.claim g.http (g.key i) s.now).1 = .ok (.new key) →
      ((s.claim g i).phase i).HasClaim := fun key hnew => by
    rw [hself, hnew]
    exact ⟨s.now, rfl⟩
  -- Whoever held a key before holds it still, since the handler that claims held none.
  have hkept : ∀ j, (s.phase j).HasClaim ∨ s.past.reached j = true →
      ((s.claim g i).phase j).HasClaim ∨ (s.claim g i).past.reached j = true := by
    intro j hclaim
    rw [hreached]
    by_cases hij : j = i
    · refine hclaim.elim (fun hclaim => ?_) .inr
      rw [hij, phase] at hclaim
      exact hclaim.elim fun _ h => h.elim
    · rwa [hphase j hij]
  refine ⟨hledger ▸ ReplayLedger.apart_claim h.apart, fun key hrunning => ?_, fun j since hj => ?_,
    fun j since outcome hj => ?_⟩
  -- A key that runs after the claim ran before, and has its old holder, or is the claim's own.
  · rw [hledger] at hrunning
    have hbefore := ReplayLedger.running_claim h.apart hrunning
    obtain ⟨hold, hholder⟩ | ⟨⟨key', hclaim⟩, hholder⟩ := claim_holder (g := g) (s := s) (i := i)
    · rw [hholder]
      obtain ⟨j, hkey, hheld, hclaim⟩ := h.holder key (hbefore.resolve_right fun hown => hold _ hown.2)
      exact ⟨j, hkey, hheld, hkept j hclaim⟩
    · rw [hholder]
      by_cases hkey : key = g.key i
      · exact ⟨i, hkey.symm, hkey ▸ Function.update_self .., .inl (hnew key' hclaim)⟩
      · obtain ⟨j, hj, hheld, hclaim⟩ := h.holder key (hbefore.resolve_right fun hown => hkey hown.1)
        exact ⟨j, hj, (Function.update_of_ne hkey ..).trans hheld, hkept j hclaim⟩
  · by_cases hij : j = i
    · rw [hij, hself] at hj
      cases hj
    · rw [hreached]
      exact h.sent j since ((hphase j hij).symm.trans hj)
  · by_cases hij : j = i
    · rw [hij, hself] at hj
      cases hj
    · rw [hreached]
      exact h.recording j since outcome ((hphase j hij).symm.trans hj)

theorem release (h : Owned g s) {error : ApiError} : Owned g (s.release g i error) := by
  have hset : Owned g ({ s with ledger := s.ledger.release (g.key i) }.set i (.done (.problem error))) :=
    h.write (ReplayLedger.apart_release h.apart) (fun key hrunning => (ReplayLedger.running_release hrunning).1)
      (fun _ hrunning => absurd rfl (ReplayLedger.running_release hrunning).2)
      (fun _ hphase => by cases hphase) (fun _ _ hphase => by cases hphase)
  exact ⟨hset.apart, hset.holder, hset.sent, hset.recording⟩

/-- What is recorded was sent. -/
theorem record (h : Owned g s) {since : ℕ} {outcome : Outcome} (phase : s.phase i = .recording since outcome) :
    Owned g (s.record g i outcome) := by
  have hset : Owned g ({ s with ledger := s.ledger.record g.http (g.key i) outcome s.now }.set i
      (.answering outcome false)) :=
    h.write (ReplayLedger.apart_record h.apart) (fun key hrunning => ReplayLedger.running_record hrunning)
      (fun _ _ => .inr (h.recording i since outcome phase)) (fun _ hphase => by cases hphase)
      (fun _ _ hphase => by cases hphase)
  rw [State.record]
  split_ifs
  · exact ⟨hset.apart, hset.holder, hset.sent, hset.recording⟩
  · exact hset

theorem forward (h : Owned g s) {since : ℕ} : Owned g (s.forward i since) := by
  have hset : Owned g (s.set i (.forwarding since false)) :=
    h.set (fun _ => .inl ⟨since, rfl⟩) (fun _ hphase => by cases hphase) (fun _ _ hphase => by cases hphase)
  exact ⟨hset.apart, hset.holder, hset.sent, hset.recording⟩

theorem step (h : Owned g s) (hstep : StepCarefully g s e s') : Owned g s' := by
  obtain ⟨hstep, careful⟩ := hstep
  -- Most steps keep a claim with its handler, or end a handler without one.
  have keep : ∀ {i phase}, ((s.phase i).HasClaim → phase.HasClaim ∨ s.past.reached i = true) →
      (∀ since, phase ≠ .forwarding since true) → (∀ since outcome, phase ≠ .recording since outcome) →
      Owned g (s.set i phase) := fun claim sent recording =>
    h.set claim (fun since hphase => absurd hphase (sent since))
      (fun since outcome hphase => absurd hphase (recording since outcome))
  cases hstep with
  | passed => exact ⟨h.apart, h.holder, h.sent, h.recording⟩
  -- An entry less: fewer keys run.
  | @expired key ledger held store entry past =>
    refine ⟨trivial, fun key' hrunning => h.holder key' ?_, h.sent, h.recording⟩
    rw [store]
    have hdel : ((ReplayLedger.shared ledger).release key).Running key' := hrunning
    exact (ReplayLedger.running_release hdel).1
  | turnedAway phase => exact keep (by simp [phase, Phase.HasClaim, Phase.Holds]) (by simp) (by simp)
  | admitted phase => exact keep (by simp [phase, Phase.HasClaim, Phase.Holds]) (by simp) (by simp)
  | claimed phase => exact h.claim phase
  | @heard i since answer phase =>
    rcases answer with e | ⟨key⟩ | ⟨outcome⟩
    · exact keep (by simp [phase, Phase.HasClaim, Phase.Holds]) (by simp [Phase.afterClaim])
        (by simp [Phase.afterClaim])
    · exact keep (fun _ => .inl ⟨since, rfl⟩) (by simp [Phase.afterClaim]) (by simp [Phase.afterClaim])
    · exact keep (by simp [phase, Phase.HasClaim, Phase.Holds]) (by simp [Phase.afterClaim])
        (by simp [Phase.afterClaim])
  -- To be careful is not to lose a claim here unless the request has reached the enclave.
  | unheard _ phase => exact keep (fun hclaim => .inr (careful hclaim)) (by simp) (by simp)
  | granted => exact keep (fun _ => .inl ⟨_, rfl⟩) (by simp) (by simp)
  | ungranted => exact keep (fun _ => .inl ⟨_, rfl⟩) (by simp) (by simp)
  | forwarded => exact h.forward
  | reached => exact h.reach
  | received => exact h.set (fun _ => .inr careful) (fun _ _ => careful) (fun _ _ _ => careful)
  | recorded phase => exact h.record phase
  | unrecorded _ phase => exact keep (fun _ => .inr (h.recording _ _ _ phase)) (by simp) (by simp)
  | released => exact h.release
  | unreleased => exact careful.elim
  | answered phase => exact keep (by simp [phase, Phase.HasClaim, Phase.Holds]) (by simp) (by simp)
  | dropped => exact keep (fun hclaim => .inr (careful hclaim)) (by simp) (by simp)

theorem run {es : List Event} (run : Run (StepCarefully g) s es s') (h : Owned g s) : Owned g s' := by
  induction run with
  | nil => exact h
  | cons hstep _ ih => exact ih (h.step hstep)

protected theorem start {ledger : ReplayLedger} (empty : ledger.IsEmpty) (now : ℕ) :
    Owned g (start now ledger) where
  apart := empty.apart
  holder _ hrunning := absurd hrunning empty.not_running
  sent _ _ hphase := by cases hphase
  recording _ _ _ hphase := by cases hphase

end Owned

section Sample

theorem admitted_sample : sampleTasks.admitted 0 = .ok () := admits_sample

/-- A request that the enclave cannot be asked for want of a connection. -/
def unconnectedTasks : Tasks :=
  { sampleTasks with
    call := fun i => { sampleTasks.call i with
      readings := { sampleReadings i with grantClock := some 0 }
      valid := fun _ h => by cases h } }

end Sample

end Tasks

end ZolanaTvc.Gateway
