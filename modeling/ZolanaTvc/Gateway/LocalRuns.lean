import ZolanaTvc.Gateway.Orphans

/-!
# How long a claim is remembered

The ledger of one process remembers a claim until its second rotation after it, which comes a window after
the claim at the earliest as long as no generation fills up. The entry of the shared ledger expires a
window after the claim, or after its outcome was recorded.

## Main results

* `Tasks.forgets_after`: what was claimed and not released is remembered for a window.
-/

namespace ZolanaTvc.Gateway

namespace LocalLedger

variable {ledger : LocalLedger} {key key' : Key} {now t : ℕ} {entry : Entry}

/-- A claim made at `t` is kept in the current generation, or in the one before it since a rotation that
came after the claim. -/
def Young (ledger : LocalLedger) (key : Key) (t : ℕ) : Prop :=
  ledger.state.age key = some 0 ∨ ledger.state.age key = some 1 ∧ t ≤ ledger.state.rotatedAt

theorem Young.get (young : ledger.Young key t) : ledger.state.get key ≠ none := by
  rw [ne_eq, Generations.get_eq_none_iff_age]
  obtain h | ⟨h, -⟩ := young <;> simp [h]

theorem Young.rotated (young : ledger.Young key t) (later : t ≤ now) (intime : now < t + ledger.window)
    (room : (ledger.state.maps ledger.state.current).size < ledger.maxEntries) :
    Young { ledger with state := ledger.rotated now } key t := by
  show (ledger.rotated now).age key = _ ∨ (ledger.rotated now).age key = _ ∧ t ≤ (ledger.rotated now).rotatedAt
  by_cases hrotates : ledger.rotates now
  · obtain hage | ⟨-, hat⟩ := young
    · refine .inr ⟨by rw [age_rotated, if_pos hrotates, if_pos hage], ?_⟩
      rwa [LocalLedger.rotated, if_pos hrotates]
    · -- The generation after the claim's is neither a window old nor full.
      obtain hold | hfull := hrotates
      · omega
      · omega
  · have hstate : ledger.rotated now = ledger.state := if_neg hrotates
    rwa [hstate]

theorem Young.insert (young : ledger.Young key t) :
    Young { ledger with state := ledger.state.insert key' entry } key t := by
  show (ledger.state.insert key' entry).age key = _ ∨ (ledger.state.insert key' entry).age key = _ ∧ _
  rw [Generations.age_insert]
  split_ifs
  · exact .inl rfl
  · exact young

theorem young_insert (ledger : LocalLedger) (state : Generations) :
    Young { ledger with state := state.insert key entry } key t := by
  left
  show (state.insert key entry).age key = _
  rw [Generations.age_insert, if_pos rfl]

end LocalLedger

namespace ReplayLedger

/-- A claim of the key would be new. -/
def Forgets (key : Key) (now : ℕ) : ReplayLedger → Prop
  | .local ledger => (ledger.rotated now).get key = none
  | .shared ledger => ledger.get key = none

variable {http : Http} {ledger : ReplayLedger} {key : Key} {now : ℕ}

theorem claim_new_iff : (∃ key', (ledger.claim http key now).1 = .ok (.new key')) ↔
    ledger.Forgets key now := by
  cases ledger with
  | «local» ledger =>
    show (∃ key', (ledger.claim key now).1 = .ok (.new key')) ↔ (ledger.rotated now).get key = none
    simp [LocalLedger.claim_eq_new]
  | shared ledger =>
    show (∃ key', SharedLedger.claim http key (some (ledger.setNx key now).1) = .ok (.new key')) ↔
      ledger.get key = none
    cases hget : ledger.get key with
    | none =>
      have hset : (ledger.setNx key now).1 = none := by rw [SharedLedger.setNx, hget]
      rw [hset]
      exact ⟨fun _ => rfl, fun _ => ⟨key, rfl⟩⟩
    | some held =>
      have hset : (ledger.setNx key now).1 = some held.text := by rw [SharedLedger.setNx, hget]
      rw [hset]
      constructor
      · rintro ⟨key', hnew⟩
        cases SharedLedger.claim_eq_new hnew
      · intro h
        cases h

end ReplayLedger

namespace Tasks

variable {g : Tasks} {s s' : State} {e : Event} {i j : ℕ} {phase : Phase}

/-- The ledger of one process does not fill up. -/
def Roomy (s : State) : Event → Prop
  | .claimed _ => ∀ ledger, s.ledger = .local ledger →
    (ledger.state.maps ledger.state.current).size < ledger.maxEntries
  | _ => True

/-- The handlers write the ledger in time, and it has room. -/
def StepKept (g : Tasks) (s : State) (e : Event) (s' : State) : Prop := StepInTime g s e s' ∧ Roomy s e

/-- The entries of the ledger of one process, and whose they are. -/
structure LocalTenancy (g : Tasks) (ledger : LocalLedger) (s : State) : Prop where
  entries : s.ledger = .local ledger
  facts : ∀ i, Facts g s.past i (s.phase i)
  put_le : ∀ i t, s.past.put i = some t → t ≤ s.now
  tenant : ∀ i t, s.past.put i = some t → s.past.gave i = false → s.now < t + ledger.window →
    s.past.holder (g.key i) = some i ∧ ledger.Young (g.key i) t

namespace LocalTenancy

variable {ledger : LocalLedger}

theorem window_eq (h : LocalTenancy g ledger s) : window s = ledger.window := by
  rw [window, h.entries]

/-- A step of a handler alone. -/
theorem set (h : LocalTenancy g ledger s) (facts : Facts g s.past i phase) :
    LocalTenancy g ledger (s.set i phase) :=
  ⟨h.entries, Tenancy.facts_set h.facts facts, h.put_le, h.tenant⟩

theorem tenant_unique (h : LocalTenancy g ledger s) {t : ℕ} (put : s.past.put i = some t)
    (kept : s.past.gave i = false) (intime : s.now < t + ledger.window)
    {t' : ℕ} (put' : s.past.put j = some t') (kept' : s.past.gave j = false)
    (intime' : s.now < t' + ledger.window) (key : g.key j = g.key i) : j = i := by
  have hi := (h.tenant i t put kept intime).1
  have hj := (h.tenant j t' put' kept' intime').1
  rw [key, hi] at hj
  exact (Option.some.inj hj).symm

/-- A handler releases its own claim. -/
theorem remove (h : LocalTenancy g ledger s) {since : ℕ} (put : s.past.put i = some since)
    (kept : s.past.gave i = false) (intime : s.now < since + ledger.window)
    (facts : ∀ past, Facts g past i phase) : LocalTenancy g (ledger.release (g.key i))
      (({ s with ledger := .local (ledger.release (g.key i)) }.set i phase).give i) := by
  refine ⟨rfl, Tenancy.facts_update h.facts (facts _) fun j hj => ⟨rfl, Tenancy.give_gave hj, rfl⟩, h.put_le,
    fun j t hput hkept hin => ?_⟩
  have hj : j ≠ i := by
    rintro rfl
    simp [State.give] at hkept
  rw [Tenancy.give_gave hj] at hkept
  obtain ⟨hholder, hyoung⟩ := h.tenant j t hput hkept hin
  have hkey : g.key j ≠ g.key i := fun hkey => hj (h.tenant_unique put kept intime hput hkept hin hkey)
  have hage : (ledger.state.remove (g.key i)).age (g.key j) = ledger.state.age (g.key j) := by
    rw [Generations.age_remove, if_neg hkey]
  refine ⟨hholder, ?_⟩
  show (ledger.state.remove (g.key i)).age (g.key j) = _ ∨ (ledger.state.remove (g.key i)).age (g.key j) = _ ∧ _
  rw [hage]
  exact hyoung

/-- An outcome is recorded where an entry is found. -/
theorem record (h : LocalTenancy g ledger s) {outcome : Outcome} (facts : Facts g s.past i phase) :
    LocalTenancy g (ledger.record (g.key i) outcome)
      ({ s with ledger := .local (ledger.record (g.key i) outcome) }.set i phase) := by
  refine ⟨rfl, Tenancy.facts_set h.facts facts, h.put_le, fun j t hput hkept hin => ?_⟩
  obtain ⟨hholder, hyoung⟩ := h.tenant j t hput hkept hin
  refine ⟨hholder, ?_⟩
  show (ledger.state.set (g.key i) _).age (g.key j) = _ ∨ (ledger.state.set (g.key i) _).age (g.key j) = _ ∧
    t ≤ (ledger.state.set (g.key i) _).rotatedAt
  rw [Generations.age_set, Generations.set_rotatedAt]
  exact hyoung

/-- A claim looks at the generations that are left, and puts an entry where it finds none. -/
theorem claim (h : LocalTenancy g ledger s) (phase : s.phase i = .claiming)
    (room : (ledger.state.maps ledger.state.current).size < ledger.maxEntries) :
    LocalTenancy g (ledger.claim (g.key i) s.now).2 (s.claim g i) := by
  have hfacts : s.past.put i = none ∧ s.past.gave i = false ∧ s.past.forwarded i = false := by
    have hfacts := h.facts i
    rwa [phase] at hfacts
  -- An entry within its window is young enough to outlive the rotation that the claim may begin
  -- with.
  have hrotated : ∀ j t, s.past.put j = some t → s.past.gave j = false → s.now < t + ledger.window →
      LocalLedger.Young { ledger with state := ledger.rotated s.now } (g.key j) t :=
    fun j t hput hkept hin => (h.tenant j t hput hkept hin).2.rotated (h.put_le j t hput) hin room
  cases hget : (ledger.rotated s.now).get (g.key i) with
  -- A key with no entry has no claim within its window, so that the new entry replaces nobody's.
  | none =>
    have hclaim : s.claim g i =
        { now := s.now
          ledger := .local (ledger.claim (g.key i) s.now).2
          phase := Function.update s.phase i (.claimed s.now (.ok (.new (g.key i))))
          past := { s.past with
            put := Function.update s.past.put i (some s.now)
            holder := Function.update s.past.holder (g.key i) (some i) } } := by
      simp only [State.claim, ReplayLedger.claim, h.entries, LocalLedger.claim_new hget]
      rfl
    have hothers : ∀ j, j ≠ i → Function.update s.past.put i (some s.now) j = s.past.put j :=
      fun j hj => Function.update_of_ne hj ..
    rw [hclaim, LocalLedger.claim_new hget]
    refine ⟨rfl, Tenancy.facts_update h.facts ⟨Function.update_self .., hfacts.2.1⟩
      fun j hj => ⟨hothers j hj, rfl, rfl⟩, fun j t hj => ?_, fun j t hj hkept hin => ?_⟩
    · by_cases hne : j = i
      · subst hne
        simp only [Function.update_self, Option.some.injEq] at hj
        exact hj.symm.le
      · exact h.put_le j t ((hothers j hne).symm.trans hj)
    · by_cases hne : j = i
      · subst hne
        exact ⟨Function.update_self .., LocalLedger.young_insert ledger _⟩
      · replace hj := (hothers j hne).symm.trans hj
        have hyoung := hrotated j t hj hkept hin
        have hkey : g.key j ≠ g.key i := fun hkey => hyoung.get (hkey ▸ hget)
        exact ⟨(Function.update_of_ne hkey ..).trans (h.tenant j t hj hkept hin).1, hyoung.insert⟩
  -- Otherwise the claim only reads.
  | some entry =>
    have hclaim : s.claim g i = { s with ledger := .local (ledger.claim (g.key i) s.now).2 }.set i
        (.claimed s.now (ledger.claim (g.key i) s.now).1) := by
      simp only [State.claim, ReplayLedger.claim, h.entries, LocalLedger.claim_known hget]
      cases entry <;> rfl
    have hknown : Facts g s.past i (.claimed s.now (ledger.claim (g.key i) s.now).1) := by
      rw [LocalLedger.claim_known hget]
      cases entry <;> trivial
    rw [hclaim]
    refine ⟨rfl, Tenancy.facts_set h.facts hknown, h.put_le, fun j t hj hkept hin => ?_⟩
    rw [LocalLedger.claim_known hget] at hin ⊢
    exact ⟨(h.tenant j t hj hkept hin).1, hrotated j t hj hkept hin⟩

theorem forward (h : LocalTenancy g ledger s) {since : ℕ} (phase : s.phase i = .granted since) :
    LocalTenancy g ledger (s.forward i since) := by
  obtain ⟨hput, hkept⟩ : s.past.put i = some since ∧ s.past.gave i = false := by
    have hfacts := h.facts i
    rwa [phase] at hfacts
  exact ⟨h.entries, Tenancy.facts_update h.facts ⟨hput, hkept, Function.update_self ..⟩
    fun j hj => ⟨rfl, rfl, Function.update_of_ne hj ..⟩, h.put_le, h.tenant⟩

theorem reach (h : LocalTenancy g ledger s) {since : ℕ} (phase : s.phase i = .forwarding since false) :
    LocalTenancy g ledger (s.reach i since) := by
  have hfacts : Facts g s.past i (.forwarding since true) := by
    have hfacts := h.facts i
    rwa [phase] at hfacts
  exact ⟨h.entries, Tenancy.facts_update h.facts hfacts fun _ _ => ⟨rfl, rfl, rfl⟩, h.put_le, h.tenant⟩

theorem step (h : LocalTenancy g ledger s) (hstep : StepKept g s e s') :
    ∃ ledger', LocalTenancy g ledger' s' ∧ ledger'.window = ledger.window := by
  obtain ⟨⟨hstep, intime⟩, roomy⟩ := hstep
  have facts : ∀ {i phase}, s.phase i = phase → Facts g s.past i phase := fun hphase => hphase ▸ h.facts _
  -- The steps of the store do not happen to a ledger of one process.
  have noStore : ∀ {p : Prop} {shared}, s.ledger = .shared shared → p := fun hstore => by
    cases h.entries.symm.trans hstore
  cases hstep with
  | passed later =>
    exact ⟨ledger, ⟨h.entries, h.facts, fun j t hput => (h.put_le j t hput).trans later,
      fun j t hput hkept hin => h.tenant j t hput hkept (Nat.lt_of_le_of_lt later hin)⟩, rfl⟩
  | expired store => exact noStore store
  | unheard store => exact noStore store
  | unrecorded store => exact noStore store
  | unreleased store => exact noStore store
  | turnedAway => exact ⟨ledger, h.set trivial, rfl⟩
  | admitted phase =>
    have hfacts := facts phase
    exact ⟨ledger, h.set hfacts, rfl⟩
  | @claimed i phase =>
    refine ⟨_, h.claim phase (roomy ledger h.entries), ?_⟩
    cases hget : (ledger.rotated s.now).get (g.key i) with
    | none => rw [LocalLedger.claim_new hget]
    | some entry => rw [LocalLedger.claim_known hget]
  | @heard i since answer phase =>
    refine ⟨ledger, h.set ?_, rfl⟩
    rcases answer with e | ⟨key⟩ | ⟨outcome⟩
    · trivial
    · have hfacts := facts phase
      exact hfacts
    · trivial
  | granted phase =>
    have hfacts := facts phase
    exact ⟨ledger, h.set hfacts, rfl⟩
  | ungranted phase =>
    have hfacts := facts phase
    exact ⟨ledger, h.set hfacts, rfl⟩
  | forwarded phase => exact ⟨ledger, h.forward phase, rfl⟩
  | reached phase => exact ⟨ledger, h.reach phase, rfl⟩
  | received phase =>
    obtain ⟨hput, hkept, hforwarded⟩ := facts phase
    exact ⟨ledger, h.set ⟨hput, hkept, hforwarded, rfl⟩, rfl⟩
  -- Its own claim still stands, as the handler is in time; too large an outcome releases it.
  | @recorded i since outcome phase =>
    obtain ⟨hput, hkept, -⟩ := facts phase
    have hin : s.now < since + ledger.window := h.window_eq ▸ intime since _ phase
    have hanswering : ∀ past, Facts g past i (.answering outcome false) := fun _ => trivial
    simp only [State.record, ReplayLedger.record, h.entries]
    split_ifs
    · exact ⟨_, h.remove hput hkept hin hanswering, rfl⟩
    · exact ⟨_, h.record (hanswering _), rfl⟩
  | @released i since e phase =>
    obtain ⟨hput, hkept⟩ := facts phase
    have hin : s.now < since + ledger.window := h.window_eq ▸ intime since e phase
    have hdone : ∀ past, Facts g past i (.done (.problem e)) := fun _ => trivial
    have hremove := h.remove hput hkept hin hdone
    refine ⟨ledger.release (g.key i), ?_, rfl⟩
    rw [State.release, h.entries]
    exact hremove
  | answered => exact ⟨ledger, h.set trivial, rfl⟩
  | dropped => exact ⟨ledger, h.set trivial, rfl⟩

protected theorem start (now : ℕ) : LocalTenancy g ledger (start now (.local ledger)) where
  entries := rfl
  facts _ := ⟨rfl, rfl, rfl⟩
  put_le _ _ hput := by cases hput
  tenant _ _ hput := by cases hput

theorem run {es : List Event} (h : LocalTenancy g ledger s) (run : Run (StepKept g) s es s') :
    ∃ ledger', LocalTenancy g ledger' s' ∧ ledger'.window = ledger.window := by
  induction run generalizing ledger with
  | nil => exact ⟨ledger, h, rfl⟩
  | cons hstep _ ih =>
    obtain ⟨ledger', h', hwindow⟩ := h.step hstep
    obtain ⟨ledger'', h'', hwindow'⟩ := ih h'
    exact ⟨ledger'', h'', hwindow'.trans hwindow⟩

end LocalTenancy

/-- What was claimed and not released is forgotten a window later at the earliest. -/
theorem forgets_after {ledger : ReplayLedger} (empty : ledger.IsEmpty) {now : ℕ} {es : List Event}
    (run : Run (StepKept g) (start now ledger) es s) {t : ℕ} (put : s.past.put i = some t)
    (kept : s.past.gave i = false) (forgets : s.ledger.Forgets (g.key i) s.now)
    (room : ∀ ledger, s.ledger = .local ledger →
      (ledger.state.maps ledger.state.current).size < ledger.maxEntries) :
    t + window (start now ledger) ≤ s.now := by
  by_contra hcon
  replace hcon := Nat.not_le.1 hcon
  cases ledger with
  | «local» ledger =>
    obtain ⟨ledger', h, hwindow⟩ := (LocalTenancy.start now).run run
    have hin : s.now < t + ledger'.window := by
      rw [hwindow]
      exact hcon
    have hyoung := (h.tenant i t put kept hin).2.rotated (h.put_le i t put) hin (room ledger' h.entries)
    rw [h.entries] at forgets
    exact hyoung.get forgets
  | shared ledger =>
    have hrun := run.mono fun _ _ _ hstep => hstep.1
    obtain ⟨ledger', h, hwindow⟩ := (Tenancy.start now empty).run hrun
    have hin : s.now < t + ledger'.window := by
      rw [hwindow]
      exact hcon
    obtain ⟨-, held, hget, -⟩ := h.tenant i t put kept hin
    rw [h.shared] at forgets
    cases hget.symm.trans forgets

end Tasks

end ZolanaTvc.Gateway
