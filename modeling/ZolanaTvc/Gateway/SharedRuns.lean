import ZolanaTvc.Gateway.OperationRuns

/-!
# Entries of the shared ledger

The entry that a claim puts is its own until its window ends: it is there unless the handler deleted it,
and its text is the marker or the outcome of that request. This rests on the handlers to write the ledger
within the windows of their claims.
-/

namespace ZolanaTvc.Gateway

open Protocol Except

namespace Tasks

variable {g : Tasks} {s s' : State} {e : Event} {i j k : ℕ}

/-- The window of the ledger. -/
def window (s : State) : ℕ :=
  match s.ledger with
  | .local ledger => ledger.window
  | .shared ledger => ledger.window

/-- A handler writes the ledger within the window of its claim. -/
def InTime (s : State) : Event → Prop
  | .recorded i => ∀ since outcome, s.phase i = .recording since outcome → s.now < since + window s
  | .released i => ∀ since e, s.phase i = .refused since e → s.now < since + window s
  | _ => True

def StepInTime (g : Tasks) (s : State) (e : Event) (s' : State) : Prop := g.Step s e s' ∧ InTime s e

/-- What a text of the claim's entry is. -/
def Keeps (g : Tasks) (past : Past) (i : ℕ) (text : String) : Prop :=
  text = RUNNING ∨ past.forwarded i = true ∧ SharedLedger.stored g.http (g.outcome i) = some text

/-- What the phase of a handler says of its past. -/
def Facts (g : Tasks) (past : Past) (i : ℕ) : Phase → Prop
  | .arrived | .claiming => past.put i = none ∧ past.gave i = false ∧ past.forwarded i = false
  | .claimed since (.ok (.new _)) | .holding since | .refused since _ | .granted since =>
    past.put i = some since ∧ past.gave i = false
  | .forwarding since _ =>
    past.put i = some since ∧ past.gave i = false ∧ past.forwarded i = true
  | .recording since outcome =>
    past.put i = some since ∧ past.gave i = false ∧ past.forwarded i = true ∧ outcome = g.outcome i
  | _ => True

/-- The entries of the store, and whose they are. -/
structure Tenancy (g : Tasks) (ledger : SharedLedger) (s : State) : Prop where
  shared : s.ledger = .shared ledger
  facts : ∀ i, Facts g s.past i (s.phase i)
  put_le : ∀ i t, s.past.put i = some t → t ≤ s.now
  entry : ∀ key held, ledger.get key = some held → ∃ i, s.past.holder key = some i ∧ g.key i = key ∧
    (s.past.put i).isSome ∧ Keeps g s.past i held.text
  tenant : ∀ i t, s.past.put i = some t → s.past.gave i = false → s.now < t + ledger.window →
    s.past.holder (g.key i) = some i ∧
      ∃ held, ledger.get (g.key i) = some held ∧ t + ledger.window ≤ held.expires

section Commands

variable {ledger : SharedLedger}

theorem claim_new (shared : s.ledger = .shared ledger) (vacant : ledger.get (g.key i) = none) :
    s.claim g i =
      { now := s.now
        ledger := .shared (ledger.put (g.key i) RUNNING s.now)
        phase := Function.update s.phase i (.claimed s.now (.ok (.new (g.key i))))
        past := { s.past with
          put := Function.update s.past.put i (some s.now)
          holder := Function.update s.past.holder (g.key i) (some i) } } := by
  have hset : ledger.setNx (g.key i) s.now = (none, ledger.put (g.key i) RUNNING s.now) := by
    rw [SharedLedger.setNx, vacant]
  simp only [State.claim, ReplayLedger.claim, shared, hset]
  rfl

theorem claim_known {held : Held} (shared : s.ledger = .shared ledger)
    (taken : ledger.get (g.key i) = some held) : s.claim g i =
      s.set i (.claimed s.now (SharedLedger.claim g.http (g.key i) (some (some held.text)))) := by
  have hset : ledger.setNx (g.key i) s.now = (some held.text, ledger) := by
    rw [SharedLedger.setNx, taken]
  simp only [State.claim, ReplayLedger.claim, shared, hset]
  have hledger : ({ s with ledger := .shared ledger } : State) = s := by rw [← shared]
  rw [hledger]
  split
  · next key hnew => exact absurd (SharedLedger.claim_eq_new hnew) (by simp)
  · rfl

/-- A handler deletes its entry, replaces it, or leaves it as it is. -/
theorem record_cases (m : Outcome) (shared : s.ledger = .shared ledger) :
    s.record g i m =
        ({ s with ledger := .shared (ledger.del (g.key i)) }.set i (.answering m false)).give i ∨
      (∃ text, SharedLedger.stored g.http m = some text ∧ s.record g i m =
        { s with ledger := .shared (ledger.setXx (g.key i) text s.now) }.set i (.answering m false)) ∨
      s.record g i m = s.set i (.answering m false) := by
  by_cases hsize : ReplayLedger.Oversize m
  · left
    simp only [State.record, ReplayLedger.record, if_pos hsize, shared, ReplayLedger.release]
  · right
    simp only [State.record, ReplayLedger.record, if_neg hsize, shared]
    cases hstored : SharedLedger.stored g.http m with
    | some text => exact .inl ⟨text, rfl, rfl⟩
    | none =>
      right
      have hledger : ({ s with ledger := .shared ledger } : State) = s := by rw [← shared]
      exact congrArg (fun s => State.set s i (.answering m false)) hledger

end Commands

namespace Tenancy

variable {ledger : SharedLedger} {phase : Phase} {past : Past}

/-- What a phase says is about this request. -/
theorem facts_congr (put : past.put i = s.past.put i) (gave : past.gave i = s.past.gave i)
    (forwarded : past.forwarded i = s.past.forwarded i) :
    Facts g past i phase ↔ Facts g s.past i phase := by
  unfold Facts
  rw [put, gave, forwarded]

theorem facts_update (facts : ∀ i, Facts g s.past i (s.phase i)) (own : Facts g past i phase)
    (others : ∀ j, j ≠ i → past.put j = s.past.put j ∧ past.gave j = s.past.gave j ∧
      past.forwarded j = s.past.forwarded j) (j : ℕ) :
    Facts g past j (Function.update s.phase i phase j) := by
  by_cases hj : j = i
  · subst hj
    rwa [Function.update_self]
  · obtain ⟨hput, hgave, hforwarded⟩ := others j hj
    rw [Function.update_of_ne hj, facts_congr hput hgave hforwarded]
    exact facts j

theorem facts_set (facts : ∀ i, Facts g s.past i (s.phase i)) (own : Facts g s.past i phase) (j : ℕ) :
    Facts g s.past j ((s.set i phase).phase j) :=
  facts_update facts own (fun _ _ => ⟨rfl, rfl, rfl⟩) j

/-- A step of a handler alone. -/
theorem set (h : Tenancy g ledger s) (facts : Facts g s.past i phase) :
    Tenancy g ledger (s.set i phase) :=
  ⟨h.shared, facts_set h.facts facts, h.put_le, h.entry, h.tenant⟩

theorem give_gave (hj : j ≠ i) : (s.give i).past.gave j = s.past.gave j := Function.update_of_ne hj ..

theorem tenant_unique (h : Tenancy g ledger s) {t : ℕ} (put : s.past.put i = some t)
    (kept : s.past.gave i = false) (intime : s.now < t + ledger.window)
    {t' : ℕ} (put' : s.past.put j = some t') (kept' : s.past.gave j = false)
    (intime' : s.now < t' + ledger.window) (key : g.key j = g.key i) : j = i := by
  have hi := (h.tenant i t put kept intime).1
  have hj := (h.tenant j t' put' kept' intime').1
  rw [key, hi] at hj
  exact (Option.some.inj hj).symm

/-- A handler deletes its own entry. -/
theorem del (h : Tenancy g ledger s) {since : ℕ} (put : s.past.put i = some since)
    (kept : s.past.gave i = false) (intime : s.now < since + ledger.window)
    (facts : ∀ past, Facts g past i phase) : Tenancy g (ledger.del (g.key i))
      (({ s with ledger := .shared (ledger.del (g.key i)) }.set i phase).give i) := by
  refine ⟨rfl, facts_update h.facts (facts _) fun j hj => ⟨rfl, give_gave hj, rfl⟩, h.put_le,
    fun key held hget => ?_, fun j t hput hkept hin => ?_⟩
  · rw [SharedLedger.get_del] at hget
    split_ifs at hget
    exact h.entry key held hget
  · have hj : j ≠ i := by
      rintro rfl
      simp [State.give] at hkept
    rw [give_gave hj] at hkept
    obtain ⟨hholder, held, hget, hexpires⟩ := h.tenant j t hput hkept hin
    have hkey : g.key j ≠ g.key i := fun hkey =>
      hj (h.tenant_unique put kept intime hput hkept hin hkey)
    exact ⟨hholder, held, by rw [SharedLedger.get_del, if_neg hkey, hget], hexpires⟩

/-- A handler replaces its own entry. -/
theorem setXx (h : Tenancy g ledger s) {since : ℕ} {text : String} (put : s.past.put i = some since)
    (kept : s.past.gave i = false) (intime : s.now < since + ledger.window)
    (keeps : Keeps g s.past i text) (facts : Facts g s.past i phase) :
    Tenancy g (ledger.setXx (g.key i) text s.now)
      ({ s with ledger := .shared (ledger.setXx (g.key i) text s.now) }.set i phase) := by
  refine ⟨rfl, facts_set h.facts facts, h.put_le, fun key held hget => ?_, fun j t hput hkept hin => ?_⟩
  · rw [SharedLedger.get_setXx] at hget
    split_ifs at hget with hkey
    · obtain ⟨_, -, rfl⟩ := Option.map_eq_some_iff.1 hget
      exact ⟨i, hkey ▸ (h.tenant i since put kept intime).1, hkey.symm, by simp [State.set, put], keeps⟩
    · exact h.entry key held hget
  · rw [SharedLedger.window_setXx] at hin ⊢
    obtain ⟨hholder, held, hget, hexpires⟩ := h.tenant j t hput hkept hin
    refine ⟨hholder, ?_⟩
    rw [SharedLedger.get_setXx]
    by_cases hkey : g.key j = g.key i
    · refine ⟨_, by rw [if_pos hkey, ← hkey, hget]; rfl, ?_⟩
      exact Nat.add_le_add_right (h.put_le j t hput) _
    · exact ⟨held, by rw [if_neg hkey, hget], hexpires⟩

/-- A claim of a key that has no entry puts one. -/
theorem claim (h : Tenancy g ledger s) (phase : s.phase i = .claiming)
    (vacant : ledger.get (g.key i) = none) :
    Tenancy g (ledger.put (g.key i) RUNNING s.now) (s.claim g i) := by
  have hkept : s.past.gave i = false := by
    have hfacts := h.facts i
    rw [phase] at hfacts
    exact hfacts.2.1
  rw [claim_new h.shared vacant]
  have hothers : ∀ j, j ≠ i → Function.update s.past.put i (some s.now) j = s.past.put j :=
    fun j hj => Function.update_of_ne hj ..
  have hown : Function.update s.past.put i (some s.now) i = some s.now := Function.update_self ..
  refine ⟨rfl, facts_update h.facts ⟨hown, hkept⟩ fun j hj => ⟨hothers j hj, rfl, rfl⟩,
    fun j t hj => ?_, fun key held hget => ?_, fun j t hj hkept hin => ?_⟩
  · by_cases hne : j = i
    · subst hne
      simp only [Function.update_self, Option.some.injEq] at hj
      exact hj.symm.le
    · exact h.put_le j t ((hothers j hne).symm.trans hj)
  -- The one new entry is this claim's, and it runs.
  · rw [SharedLedger.get_put] at hget
    split_ifs at hget with hkey
    · obtain rfl := Option.some.inj hget
      exact ⟨i, hkey ▸ Function.update_self .., hkey.symm, Option.isSome_iff_exists.2 ⟨_, hown⟩, .inl rfl⟩
    · obtain ⟨j, hholder, hj, hsome, hkeeps⟩ := h.entry key held hget
      refine ⟨j, (Function.update_of_ne hkey ..).trans hholder, hj, ?_, hkeeps⟩
      by_cases hne : j = i
      · subst hne
        exact Option.isSome_iff_exists.2 ⟨_, hown⟩
      · exact (congrArg Option.isSome (hothers j hne)).trans hsome
  -- Any other claim within its window has an entry, and so another key.
  · rw [SharedLedger.window_put] at hin ⊢
    by_cases hne : j = i
    · subst hne
      simp only [Function.update_self, Option.some.injEq] at hj
      subst hj
      exact ⟨Function.update_self .., _, by rw [SharedLedger.get_put, if_pos rfl], le_refl _⟩
    · replace hj := (hothers j hne).symm.trans hj
      obtain ⟨hholder, held, hget, hexpires⟩ := h.tenant j t hj hkept hin
      have hkey : g.key j ≠ g.key i := by
        intro hkey
        rw [hkey, vacant] at hget
        cases hget
      exact ⟨(Function.update_of_ne hkey ..).trans hholder, held,
        by rw [SharedLedger.get_put, if_neg hkey, hget], hexpires⟩

theorem forward (h : Tenancy g ledger s) {since : ℕ} (phase : s.phase i = .granted since) :
    Tenancy g ledger (s.forward i since) := by
  obtain ⟨hput, hkept⟩ : s.past.put i = some since ∧ s.past.gave i = false := by
    have hfacts := h.facts i
    rwa [phase] at hfacts
  have hmono : ∀ j, s.past.forwarded j = true → (s.forward i since).past.forwarded j = true := by
    intro j hj
    show Function.update s.past.forwarded i true j = true
    by_cases hne : j = i
    · rw [hne, Function.update_self]
    · rwa [Function.update_of_ne hne]
  refine ⟨h.shared, facts_update h.facts ⟨hput, hkept, Function.update_self ..⟩
    fun j hj => ⟨rfl, rfl, Function.update_of_ne hj ..⟩, h.put_le, fun key held hget => ?_, h.tenant⟩
  obtain ⟨j, hholder, hj, hsome, hkeeps⟩ := h.entry key held hget
  exact ⟨j, hholder, hj, hsome, hkeeps.imp_right (And.imp_left (hmono j))⟩

theorem reach (h : Tenancy g ledger s) {since : ℕ} (phase : s.phase i = .forwarding since false) :
    Tenancy g ledger (s.reach i since) := by
  have hfacts : Facts g s.past i (.forwarding since true) := by
    have hfacts := h.facts i
    rwa [phase] at hfacts
  exact ⟨h.shared, facts_update h.facts hfacts fun _ _ => ⟨rfl, rfl, rfl⟩, h.put_le, h.entry, h.tenant⟩

/-- The store drops an entry whose window has ended. -/
theorem expire (h : Tenancy g ledger s) {key : Key} {held : Held} (entry : ledger.get key = some held)
    (past : held.expires ≤ s.now) :
    Tenancy g (ledger.del key) { s with ledger := .shared (ledger.del key) } := by
  refine ⟨rfl, h.facts, h.put_le, fun key' held' hget => ?_, fun j t hput hkept hin => ?_⟩
  · rw [SharedLedger.get_del] at hget
    split_ifs at hget
    exact h.entry key' held' hget
  · obtain ⟨hholder, held', hget, hexpires⟩ := h.tenant j t hput hkept hin
    have hkey : g.key j ≠ key := by
      rintro rfl
      rw [entry] at hget
      obtain rfl := Option.some.inj hget
      have hin : s.now < t + ledger.window := hin
      omega
    exact ⟨hholder, held', by rw [SharedLedger.get_del, if_neg hkey, hget], hexpires⟩

theorem pass (h : Tenancy g ledger s) {t : ℕ} (later : s.now ≤ t) :
    Tenancy g ledger { s with now := t } :=
  ⟨h.shared, h.facts, fun j t' hput => (h.put_le j t' hput).trans later, h.entry,
    fun j t' hput hkept hin => h.tenant j t' hput hkept (Nat.lt_of_le_of_lt later hin)⟩

theorem window_eq (h : Tenancy g ledger s) : window s = ledger.window := by
  rw [window, h.shared]

theorem step (h : Tenancy g ledger s) (hstep : StepInTime g s e s') :
    ∃ ledger', Tenancy g ledger' s' ∧ ledger'.window = ledger.window := by
  obtain ⟨hstep, intime⟩ := hstep
  have facts : ∀ {i phase}, s.phase i = phase → Facts g s.past i phase := fun hphase => hphase ▸ h.facts _
  cases hstep with
  | passed later => exact ⟨ledger, h.pass later, rfl⟩
  | expired store entry past =>
    obtain rfl := ReplayLedger.shared.inj (h.shared.symm.trans store)
    exact ⟨_, h.expire entry past, rfl⟩
  | turnedAway => exact ⟨ledger, h.set trivial, rfl⟩
  | admitted phase =>
    have hfacts := facts phase
    exact ⟨ledger, h.set hfacts, rfl⟩
  | @claimed i phase =>
    cases hget : ledger.get (g.key i) with
    | none => exact ⟨_, h.claim phase hget, rfl⟩
    -- `SET NX` found an entry and changed nothing.
    | some held =>
      refine ⟨ledger, ?_, rfl⟩
      rw [claim_known h.shared hget]
      cases hanswer : SharedLedger.claim g.http (g.key i) (some (some held.text)) with
      | error e => exact h.set (by trivial)
      | ok claim =>
        cases claim with
        | new key => exact absurd (SharedLedger.claim_eq_new hanswer) (by simp)
        | answered outcome => exact h.set (by trivial)
  | @heard i since answer phase =>
    refine ⟨ledger, h.set ?_, rfl⟩
    rcases answer with e | ⟨key⟩ | ⟨outcome⟩
    · trivial
    · have hfacts := facts phase
      exact hfacts
    · trivial
  | unheard => exact ⟨ledger, h.set trivial, rfl⟩
  | granted phase =>
    have hfacts := facts phase
    exact ⟨ledger, h.set hfacts, rfl⟩
  | ungranted phase =>
    have hfacts := facts phase
    exact ⟨ledger, h.set hfacts, rfl⟩
  | forwarded phase => exact ⟨ledger, h.forward phase, rfl⟩
  | reached phase => exact ⟨ledger, h.reach phase, rfl⟩
  | received phase =>
    obtain ⟨hput, hkept, hforwarded⟩ := facts phase
    exact ⟨ledger, h.set ⟨hput, hkept, hforwarded, rfl⟩, rfl⟩
  -- The handler is in time, so the entry of its claim is still the one that it overwrites or
  -- deletes.
  | @recorded i since outcome phase =>
    obtain ⟨hput, hkept, hforwarded, rfl⟩ := facts phase
    have hin : s.now < since + ledger.window := h.window_eq ▸ intime since _ phase
    have hanswering : ∀ past, Facts g past i (.answering (g.outcome i) false) := fun _ => trivial
    obtain heq | ⟨text, hstored, heq⟩ | heq := record_cases (g.outcome i) h.shared
    · exact ⟨ledger.del (g.key i), heq ▸ h.del hput hkept hin hanswering, rfl⟩
    · exact ⟨_, heq ▸ h.setXx hput hkept hin (.inr ⟨hforwarded, hstored⟩) (hanswering _),
        SharedLedger.window_setXx⟩
    · exact ⟨ledger, heq ▸ h.set (hanswering _), rfl⟩
  | unrecorded => exact ⟨ledger, h.set trivial, rfl⟩
  | @released i since e phase =>
    obtain ⟨hput, hkept⟩ := facts phase
    have hin : s.now < since + ledger.window := h.window_eq ▸ intime since e phase
    have hdone : ∀ past, Facts g past i (.done (.problem e)) := fun _ => trivial
    have hdel := h.del hput hkept hin hdone
    refine ⟨ledger.del (g.key i), ?_, rfl⟩
    rw [State.release, h.shared]
    exact hdel
  | unreleased => exact ⟨ledger, h.set trivial, rfl⟩
  | answered => exact ⟨ledger, h.set trivial, rfl⟩
  | dropped => exact ⟨ledger, h.set trivial, rfl⟩

theorem start (now : ℕ) (h : ledger.store = ∅) : Tenancy g ledger (start now (.shared ledger)) := by
  have hnone : ∀ key, ledger.get key = none := fun key => by
    rw [SharedLedger.get, h]
    rfl
  refine ⟨rfl, fun i => ⟨rfl, rfl, rfl⟩, fun i t hput => ?_, fun key held hget => ?_, fun i t hput => ?_⟩
  · cases hput
  · rw [hnone] at hget
    cases hget
  · cases hput

theorem run {es : List Event} (h : Tenancy g ledger s) (run : Run (StepInTime g) s es s') :
    ∃ ledger', Tenancy g ledger' s' ∧ ledger'.window = ledger.window := by
  induction run generalizing ledger with
  | nil => exact ⟨ledger, h, rfl⟩
  | cons hstep _ ih =>
    obtain ⟨ledger', h', hwindow⟩ := h.step hstep
    obtain ⟨ledger'', h'', hwindow'⟩ := ih h'
    exact ⟨ledger'', h'', hwindow'.trans hwindow⟩

end Tenancy

end Tasks

end ZolanaTvc.Gateway
