import Mathlib.Data.List.Basic
import Mathlib.Logic.Function.Basic
import ZolanaTvc.Control.Run

/-!
# Shared flights

Callers share one asynchronous task. The first makes a flight and puts it into the slot, those that
find it there wait for it, and the last that leaves takes it out and aborts it, unless it is kept. The
flight leaves the slot when it settles, which is a step after it has landed with its result.

## Main results

* `Flights.Tied.step`: the waiters of a flight are the calls that wait for it, and every flight that is
  not aborted and has not settled is the one in the slot.
* `Flights.Past.run`: what nobody can wait for any more stays so.
-/

namespace Flights

inductive Stage (ρ : Type) where
  | running
  | landed (result : ρ)
  | settled (result : ρ)

end Flights

/-- Flights are numbered as they are made, and so are calls. -/
structure Flights (ρ : Type) where
  slot : Option ℕ
  made : ℕ
  stage : ℕ → Flights.Stage ρ
  waiters : ℕ → ℕ
  aborted : ℕ → Bool
  /-- The flight runs on when nobody waits for it. -/
  kept : ℕ → Bool
  /-- The calls that wait, each for its flight. -/
  waiting : List (ℕ × ℕ)
  calls : ℕ

namespace Flights

variable {ρ : Type}

inductive Event (ρ : Type) where
  /-- A call that does not wait. -/
  | passed (call : ℕ)
  | started (call flight : ℕ)
  | joined (call flight : ℕ)
  | landed (flight : ℕ) (result : ρ)
  | settled (flight : ℕ)
  | left (call flight : ℕ)
  | kept (flight : ℕ)

def new : Flights ρ where
  slot := none
  made := 0
  stage _ := .running
  waiters _ := 0
  aborted _ := false
  kept _ := false
  waiting := []
  calls := 0

def pass (s : Flights ρ) : Flights ρ := { s with calls := s.calls + 1 }

def start (s : Flights ρ) : Flights ρ := { s with slot := some s.made, made := s.made + 1 }

def wait (s : Flights ρ) (flight : ℕ) : Flights ρ :=
  { s with
    waiters := Function.update s.waiters flight (s.waiters flight + 1)
    waiting := (s.calls, flight) :: s.waiting
    calls := s.calls + 1 }

def setStage (s : Flights ρ) (flight : ℕ) (stage : Stage ρ) : Flights ρ :=
  { s with stage := Function.update s.stage flight stage }

/-- The flight has its result for its callers. -/
def settle (s : Flights ρ) (flight : ℕ) (result : ρ) : Flights ρ :=
  { s.setStage flight (.settled result) with
    slot := if s.slot = some flight then none else s.slot }

/-- Nobody waits any more for the flight in the slot, and it is not kept. -/
def Abandons (s : Flights ρ) (flight : ℕ) : Prop :=
  s.waiters flight - 1 = 0 ∧ s.slot = some flight ∧ s.kept flight = false

instance decidableAbandons (s : Flights ρ) (flight : ℕ) : Decidable (s.Abandons flight) :=
  inferInstanceAs (Decidable (_ ∧ _))

def leave (s : Flights ρ) (call flight : ℕ) : Flights ρ :=
  { s with
    slot := if s.Abandons flight then none else s.slot
    waiters := Function.update s.waiters flight (s.waiters flight - 1)
    aborted := if s.Abandons flight then Function.update s.aborted flight true else s.aborted
    waiting := s.waiting.erase (call, flight) }

def keep (s : Flights ρ) (flight : ℕ) : Flights ρ :=
  { s with kept := Function.update s.kept flight true }

inductive Step (s : Flights ρ) : Event ρ → Flights ρ → Prop where
  | passed : Step s (.passed s.calls) s.pass
  | started (empty : s.slot = none) : Step s (.started s.calls s.made) (s.start.wait s.made)
  | joined {d : ℕ} (slot : s.slot = some d) : Step s (.joined s.calls d) (s.wait d)
  | landed {d : ℕ} {r : ρ} (made : d < s.made) (stage : s.stage d = .running) :
    Step s (.landed d r) (s.setStage d (.landed r))
  | settled {d : ℕ} {r : ρ} (stage : s.stage d = .landed r) : Step s (.settled d) (s.settle d r)
  | left {k d : ℕ} (waits : (k, d) ∈ s.waiting) : Step s (.left k d) (s.leave k d)
  | kept {d : ℕ} (made : d < s.made) : Step s (.kept d) (s.keep d)

/-- The flight has not settled, and was not aborted. -/
structure Open (s : Flights ρ) (d : ℕ) : Prop where
  made : d < s.made
  live : s.aborted d = false
  unsettled : ∀ r, s.stage d ≠ .settled r

/-- What ties the flights to the calls that wait for them. -/
structure Tied (s : Flights ρ) : Prop where
  waiters : ∀ d, s.waiters d = s.waiting.countP fun call => call.2 = d
  waiting : ∀ k d, (k, d) ∈ s.waiting → d < s.made
  /-- The flight in the slot is the one that is open. -/
  slot : ∀ d, s.slot = some d ↔ s.Open d
  held : ∀ d, s.slot = some d → 0 < s.waiters d ∨ s.kept d = true
  aborted : ∀ d, s.aborted d = true → s.waiters d = 0
  unmade : ∀ d, s.made ≤ d → s.stage d = .running ∧ s.aborted d = false ∧ s.kept d = false

variable {s s' s'' : Flights ρ} {e : Event ρ} {es : List (Event ρ)} {d d' k : ℕ}

theorem Tied.new : (Flights.new : Flights ρ).Tied where
  waiters _ := rfl
  waiting _ _ h := absurd h List.not_mem_nil
  slot d := ⟨fun h => (nomatch h), fun h => absurd h.made (Nat.not_lt_zero d)⟩
  held _ h := nomatch h
  aborted _ h := nomatch h
  unmade _ _ := ⟨rfl, rfl, rfl⟩

theorem Tied.waits (tied : s.Tied) (h : (k, d) ∈ s.waiting) : 0 < s.waiters d := by
  rw [tied.waiters d]
  exact List.countP_pos_iff.2 ⟨(k, d), h, by simp⟩

theorem Tied.exists_waiting (tied : s.Tied) (h : 0 < s.waiters d) : ∃ k, (k, d) ∈ s.waiting := by
  rw [tied.waiters d, List.countP_pos_iff] at h
  obtain ⟨⟨k, d'⟩, hmem, hd⟩ := h
  obtain rfl : d' = d := by simpa using hd
  exact ⟨k, hmem⟩

/-- A flight that a call waits for was not aborted. -/
theorem Tied.live (tied : s.Tied) (h : (k, d) ∈ s.waiting) : s.aborted d = false := by
  rw [← Bool.not_eq_true]
  intro haborted
  have hzero := tied.aborted d haborted
  have hpos := tied.waits h
  omega

theorem open_congr (s s' : Flights ρ) (made : s'.made = s.made) (aborted : s'.aborted = s.aborted)
    (stage : s'.stage = s.stage) : s.Open d ↔ s'.Open d :=
  ⟨fun h => ⟨made ▸ h.made, aborted ▸ h.live, stage ▸ h.unsettled⟩,
    fun h => ⟨made ▸ h.made, aborted ▸ h.live, stage ▸ h.unsettled⟩⟩

/-- Two open flights are one. -/
theorem Tied.single (tied : s.Tied) (h : s.Open d) (h' : s.Open d') : d = d' :=
  Option.some.inj (((tied.slot d).2 h).symm.trans ((tied.slot d').2 h'))

section Wait

theorem wait_waiters : (s.wait d).waiters d' = s.waiters d' + if d' = d then 1 else 0 := by
  by_cases h : d' = d
  · subst h
    simp [wait]
  · simp [wait, h]

/-- One more call waits for the open flight. -/
theorem Tied.wait (tied : s.Tied) (h : s.slot = some d) : (s.wait d).Tied where
  waiters d' := by
    show _ = ((s.calls, d) :: s.waiting).countP _
    rw [List.countP_cons, wait_waiters, tied.waiters d']
    simp only [eq_comm (a := d'), decide_eq_true_eq]
  waiting k d' hwaits := by
    obtain hnew | hold := List.mem_cons.1 hwaits
    · cases hnew
      exact ((tied.slot d).1 h).made
    · exact tied.waiting k d' hold
  slot d' := (tied.slot d').trans (open_congr s (s.wait d) rfl rfl rfl)
  held d' h' := by
    rw [wait_waiters]
    exact (tied.held d' h').imp_left fun hpos => Nat.lt_of_lt_of_le hpos (Nat.le_add_right _ _)
  aborted d' h' := by
    have hne : d' ≠ d := by
      rintro rfl
      have hlive := ((tied.slot d').1 h).live
      have haborted : s.aborted d' = true := h'
      rw [hlive] at haborted
      cases haborted
    rw [wait_waiters, if_neg hne]
    exact tied.aborted d' h'
  unmade d' h' := tied.unmade d' h'

/-- A call makes a flight, which the empty slot takes. -/
theorem Tied.started (tied : s.Tied) (empty : s.slot = none) : (s.start.wait s.made).Tied := by
  obtain ⟨hstage, hlive, hkept⟩ := tied.unmade s.made (Nat.le_refl _)
  -- The slot is empty, so no older flight is open: the new one alone is what the slot may hold.
  have hnone : ∀ d, ¬s.Open d := fun d h => by
    rw [← tied.slot d, empty] at h
    cases h
  refine ⟨fun d => ?_, fun k d hwaits => ?_, fun d => ?_, fun d hd => ?_, fun d hd => ?_, fun d hd => ?_⟩
  · show (s.start.wait s.made).waiters d = ((s.calls, s.made) :: s.waiting).countP _
    rw [List.countP_cons, wait_waiters]
    show s.waiters d + _ = _
    rw [tied.waiters d]
    simp only [eq_comm (a := d), decide_eq_true_eq]
  · obtain hnew | hold := List.mem_cons.1 hwaits
    · cases hnew
      exact Nat.lt_succ_self _
    · exact Nat.lt_succ_of_lt (tied.waiting k d hold)
  · show some s.made = some d ↔ _
    rw [Option.some.injEq]
    constructor
    · rintro rfl
      refine ⟨Nat.lt_succ_self _, hlive, fun r h => ?_⟩
      rw [show s.stage s.made = _ from h] at hstage
      cases hstage
    · rintro ⟨hmade, hopen⟩
      by_contra hne
      have hlt : d < s.made := Nat.lt_of_le_of_ne (Nat.le_of_lt_succ hmade) (Ne.symm hne)
      exact hnone d ⟨hlt, hopen, ‹_›⟩
  -- The flight in the slot has the call that made it waiting.
  · obtain rfl : s.made = d := Option.some.inj hd
    rw [wait_waiters, if_pos rfl]
    exact .inl (Nat.succ_pos _)
  · have hne : d ≠ s.made := by
      rintro rfl
      rw [show s.aborted s.made = true from hd] at hlive
      cases hlive
    rw [wait_waiters, if_neg hne]
    exact tied.aborted d hd
  · exact tied.unmade d (Nat.le_of_succ_le hd)

end Wait

section Stages

variable {stage : Stage ρ} {r : ρ}

theorem setStage_stage : (s.setStage d stage).stage d' = if d' = d then stage else s.stage d' := by
  by_cases h : d' = d
  · subst h
    simp [setStage]
  · simp [setStage, h]

theorem Tied.lt_made (tied : s.Tied) (h : s.stage d ≠ .running) : d < s.made := by
  by_contra hge
  exact h (tied.unmade d (Nat.not_lt.1 hge)).1

theorem Tied.landed (tied : s.Tied) (made : d < s.made) (running : s.stage d = .running) :
    (s.setStage d (.landed r)).Tied := by
  refine ⟨tied.waiters, tied.waiting, fun d' => (tied.slot d').trans ?_, tied.held, tied.aborted,
    fun d' hd' => ?_⟩
  · constructor
    · intro h
      refine ⟨h.made, h.live, fun r' => ?_⟩
      rw [setStage_stage]
      split_ifs
      · exact fun h => nomatch h
      · exact h.unsettled r'
    · intro h
      refine ⟨h.made, h.live, fun r' hsettled => ?_⟩
      have hne : d' ≠ d := by
        rintro rfl
        rw [running] at hsettled
        cases hsettled
      have hopen := h.unsettled r'
      rw [setStage_stage, if_neg hne] at hopen
      exact hopen hsettled
  · have hne : d' ≠ d := Nat.ne_of_gt (Nat.lt_of_lt_of_le made hd')
    rw [setStage_stage, if_neg hne]
    exact tied.unmade d' hd'

theorem settle_slot : (s.settle d r).slot = some d' ↔ s.slot = some d' ∧ d' ≠ d := by
  show (if s.slot = some d then none else s.slot) = some d' ↔ _
  split_ifs with h
  · simp only [h, Option.some.injEq, false_iff, not_and, not_not]
    exact Eq.symm
  · refine ⟨fun h' => ⟨h', ?_⟩, And.left⟩
    rintro rfl
    exact h h'

theorem Tied.settled (tied : s.Tied) (landed : s.stage d = .landed r) : (s.settle d r).Tied := by
  have made := tied.lt_made (d := d) (by rw [landed]; exact fun h => nomatch h)
  refine ⟨tied.waiters, tied.waiting, fun d' => ?_, fun d' hd' => tied.held d' (settle_slot.1 hd').1,
    tied.aborted, fun d' hd' => ?_⟩
  -- The slot gives up the settled flight, and no other has changed its stage.
  · rw [settle_slot, tied.slot]
    constructor
    · rintro ⟨h, hne⟩
      refine ⟨h.made, h.live, fun r' => ?_⟩
      show (s.setStage d (.settled r)).stage d' ≠ _
      rw [setStage_stage, if_neg hne]
      exact h.unsettled r'
    · intro h
      have hne : d' ≠ d := by
        rintro rfl
        refine h.unsettled r ?_
        show (s.setStage d' (.settled r)).stage d' = _
        rw [setStage_stage, if_pos rfl]
      refine ⟨⟨h.made, h.live, fun r' hsettled => h.unsettled r' ?_⟩, hne⟩
      show (s.setStage d (.settled r)).stage d' = _
      rw [setStage_stage, if_neg hne, hsettled]
  · have hne : d' ≠ d := Nat.ne_of_gt (Nat.lt_of_lt_of_le made hd')
    show (s.setStage d (.settled r)).stage d' = _ ∧ _
    rw [setStage_stage, if_neg hne]
    exact tied.unmade d' hd'

end Stages

section Leave

theorem leave_waiters : (s.leave k d).waiters d' = s.waiters d' - if d' = d then 1 else 0 := by
  by_cases h : d' = d
  · subst h
    simp [leave]
  · simp [leave, h]

theorem leave_slot : (s.leave k d).slot = some d' ↔ s.slot = some d' ∧ ¬(d' = d ∧ s.Abandons d) := by
  show (if s.Abandons d then none else s.slot) = some d' ↔ _
  split_ifs with h
  · simp only [h, h.2.1, Option.some.injEq, and_true, false_iff, not_and, not_not]
    exact Eq.symm
  · simp only [h, and_false, not_false_eq_true, and_true]

theorem leave_aborted : (s.leave k d).aborted d' = true ↔
    s.aborted d' = true ∨ d' = d ∧ s.Abandons d := by
  show (if s.Abandons d then Function.update s.aborted d true else s.aborted) d' = true ↔ _
  split_ifs with h
  · by_cases hd : d' = d
    · subst hd
      simp [h]
    · simp [hd]
  · simp [h]

theorem Tied.leave (tied : s.Tied) (waits : (k, d) ∈ s.waiting) : (s.leave k d).Tied := by
  -- The call that leaves is counted once, with its own flight.
  have hcount := fun d' => (List.perm_cons_erase waits).countP_eq fun call => decide (call.2 = d')
  refine ⟨fun d' => ?_, fun k' d' hwaits => tied.waiting k' d' (List.mem_of_mem_erase hwaits), fun d' => ?_,
    fun d' hd' => ?_, fun d' hd' => ?_, fun d' hd' => ?_⟩
  · have hd' := hcount d'
    rw [List.countP_cons] at hd'
    rw [leave_waiters, tied.waiters d', hd']
    show _ = (s.waiting.erase (k, d)).countP _
    by_cases h : d' = d
    · simp [h]
    · simp [h, Ne.symm h]
  -- The slot is emptied exactly where the flight is aborted.
  · rw [leave_slot, tied.slot]
    constructor
    · rintro ⟨h, hleft⟩
      refine ⟨h.made, ?_, h.unsettled⟩
      rw [← Bool.not_eq_true, leave_aborted, h.live]
      rintro (habsurd | hleft')
      · cases habsurd
      · exact hleft hleft'
    · intro h
      have hlive := h.live
      rw [← Bool.not_eq_true, leave_aborted, not_or, Bool.not_eq_true] at hlive
      exact ⟨⟨h.made, hlive.1, h.unsettled⟩, hlive.2⟩
  -- A flight that stays in the slot without being kept still has a caller: else the last one to
  -- leave would have aborted it.
  · obtain ⟨hslot, hleft⟩ := leave_slot.1 hd'
    by_cases hkept : s.kept d' = true
    · exact .inr hkept
    · have hpos := (tied.held d' hslot).resolve_right hkept
      rw [leave_waiters]
      split_ifs with h
      · subst h
        have hne : ¬(s.waiters d' - 1 = 0) := fun hzero =>
          hleft ⟨rfl, hzero, hslot, Bool.not_eq_true _ ▸ hkept⟩
        exact .inl (by omega)
      · exact .inl hpos
  · rw [leave_waiters]
    obtain h | ⟨rfl, hleft⟩ := leave_aborted.1 hd'
    · rw [tied.aborted d' h, Nat.zero_sub]
    · rw [if_pos rfl]
      exact hleft.1
  · obtain ⟨hstage, hlive, hkept⟩ := tied.unmade d' hd'
    refine ⟨hstage, ?_, hkept⟩
    rw [← Bool.not_eq_true, leave_aborted, hlive]
    rintro (habsurd | ⟨rfl, hleft⟩)
    · cases habsurd
    · exact absurd ((tied.slot d').1 hleft.2.1).made (Nat.not_lt.2 hd')

end Leave

theorem Tied.keep (tied : s.Tied) (made : d < s.made) : (s.keep d).Tied := by
  refine ⟨tied.waiters, tied.waiting,
    fun d' => (tied.slot d').trans (open_congr s (s.keep d) rfl rfl rfl), fun d' hd' => ?_,
    tied.aborted, fun d' hd' => ?_⟩
  · refine (tied.held d' hd').imp_right fun hkept => ?_
    by_cases h : d' = d
    · subst h
      simp [Flights.keep]
    · simpa [Flights.keep, h] using hkept
  · have hne : d' ≠ d := Nat.ne_of_gt (Nat.lt_of_lt_of_le made hd')
    obtain ⟨hstage, hlive, hkept⟩ := tied.unmade d' hd'
    exact ⟨hstage, hlive, by simpa [Flights.keep, hne] using hkept⟩

theorem Tied.step (tied : s.Tied) (h : s.Step e s') : s'.Tied := by
  cases h with
  | passed =>
    exact ⟨tied.waiters, tied.waiting, fun d => (tied.slot d).trans (open_congr s s.pass rfl rfl rfl),
      tied.held, tied.aborted, tied.unmade⟩
  | started empty => exact tied.started empty
  | joined slot => exact tied.wait slot
  | landed made stage => exact tied.landed made stage
  | settled stage => exact tied.settled stage
  | left waits => exact tied.leave waits
  | kept made => exact tied.keep made

section Steps

theorem made_step (h : s.Step e s') : s.made ≤ s'.made := by
  cases h with
  | started => exact Nat.le_succ _
  | _ => exact Nat.le_refl _

theorem aborted_step (h : s.Step e s') (haborted : s.aborted d = true) : s'.aborted d = true := by
  cases h with
  | left waits => exact leave_aborted.2 (.inl haborted)
  | _ => exact haborted

/-- The slot takes new flights only. -/
theorem slot_cases (h : s.Step e s') (hd : s'.slot = some d) : s.slot = some d ∨ s.made ≤ d := by
  cases h with
  | started empty => exact .inr (Nat.le_of_eq (Option.some.inj hd))
  | settled stage => exact .inl (settle_slot.1 hd).1
  | left waits => exact .inl (leave_slot.1 hd).1
  | _ => exact .inl hd

/-- How a flight comes to its result. -/
theorem stage_cases (h : s.Step e s') (d : ℕ) : s'.stage d = s.stage d ∨
    (∃ r, e = .landed d r ∧ s.stage d = .running ∧ s'.stage d = .landed r) ∨
    ∃ r, e = .settled d ∧ s.stage d = .landed r ∧ s'.stage d = .settled r := by
  cases h with
  | @landed d' r made stage =>
    by_cases hd : d = d'
    · subst hd
      exact .inr (.inl ⟨r, rfl, stage, by rw [setStage_stage, if_pos rfl]⟩)
    · exact .inl (by rw [setStage_stage, if_neg hd])
  | @settled d' r stage =>
    have hset : (s.settle d' r).stage d = if d = d' then .settled r else s.stage d := setStage_stage
    by_cases hd : d = d'
    · subst hd
      exact .inr (.inr ⟨r, rfl, stage, by rw [hset, if_pos rfl]⟩)
    · exact .inl (by rw [hset, if_neg hd])
  | _ => exact .inl rfl

/-- Who aborts a flight is the last to wait for it, and it is not kept. -/
theorem aborted_cases (tied : s.Tied) (h : s.Step e s') (haborted : s'.aborted d = true) :
    s.aborted d = true ∨
      (∃ k, e = .left k d) ∧ s.kept d = false ∧ ∀ k, (k, d) ∉ s'.waiting := by
  cases h with
  | @left k d' waits =>
    obtain hold | ⟨rfl, hleft⟩ := leave_aborted.1 haborted
    · exact .inl hold
    · refine .inr ⟨⟨k, rfl⟩, hleft.2.2, fun k' hwaits => ?_⟩
      have hzero : (s.leave k d).waiters d = 0 := by
        rw [leave_waiters, if_pos rfl]
        exact hleft.1
      have hpos := (tied.leave waits).waits hwaits
      omega
  | _ => exact .inl haborted

end Steps

section Past

/-- The flight cannot be had any more. -/
structure Past (s : Flights ρ) (d : ℕ) : Prop where
  tied : s.Tied
  made : d < s.made
  slot : s.slot ≠ some d

/-- A running flight that nobody waits for, and that is not kept, was aborted. -/
theorem Tied.past_of_left (tied : s.Tied) (made : d < s.made) (kept : s.kept d = false)
    (none : ∀ k, (k, d) ∉ s.waiting) : s.Past d := by
  refine ⟨tied, made, fun hslot => ?_⟩
  obtain hpos | hkept := tied.held d hslot
  · obtain ⟨k, hk⟩ := tied.exists_waiting hpos
    exact none k hk
  · rw [kept] at hkept
    cases hkept

theorem Past.aborted (past : s.Past d) (running : ∀ r, s.stage d ≠ .settled r) :
    s.aborted d = true := by
  by_contra hlive
  exact past.slot ((past.tied.slot d).2 ⟨past.made, Bool.not_eq_true _ ▸ hlive, running⟩)

end Past

section Since

variable {m : ℕ}

/-- The flights before the `m`th are past. -/
structure Since (s : Flights ρ) (m : ℕ) : Prop where
  tied : s.Tied
  made : m ≤ s.made
  slot : ∀ d, s.slot = some d → m ≤ d

theorem Since.step (since : s.Since m) (h : s.Step e s') : s'.Since m where
  tied := since.tied.step h
  made := Nat.le_trans since.made (made_step h)
  slot d hslot := by
    obtain hold | hnew := slot_cases h hslot
    · exact since.slot d hold
    · exact Nat.le_trans since.made hnew

/-- An earlier flight that is not aborted has settled. -/
theorem Since.settled (since : s.Since m) (hd : d < m) (live : s.aborted d = false) :
    ∃ r, s.stage d = .settled r := by
  by_contra hopen
  have hslot := (since.tied.slot d).2 ⟨Nat.lt_of_lt_of_le hd since.made, live, not_exists.1 hopen⟩
  exact absurd hd (Nat.not_lt.2 (since.slot d hslot))

theorem Tied.since (tied : s.Tied) (empty : s.slot = none) : s.Since s.made :=
  ⟨tied, Nat.le_refl _, fun d h => by rw [empty] at h; cases h⟩

end Since

end Flights
