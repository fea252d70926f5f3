import ZolanaTvc.Wallet.Session

/-!
# Runs of the client's session

## Main results

* `session_kept`: over any interleaving in which no context is forgotten while its flight is pending,
  a call is handed what was connected since the last reset and was not forgotten before it began, at
  most one flight is up, callers do not abort each other, and a flight that was left or reset is never
  made active. Each operation of the wallet client runs over a connection of its own key.
-/

namespace ZolanaTvc.Wallet

namespace Session

/-- A call that starts in these events is handed the context in them. -/
def Handed (es : List SessionEvent) (call context : ℕ) : Prop :=
  .reused call context ∈ es ∨ .joined call context ∈ es ∧ .delivered call context ∈ es

/-- The flight was made before a reset. -/
def Dropped (es : List SessionEvent) (flight : ℕ) : Prop :=
  ∃ before after call, es = before ++ .reset :: after ∧ .joined call flight ∈ before

/-- The flight was joined, and nobody waits for it any more. -/
def Abandoned (es : List SessionEvent) (s : Session) (flight : ℕ) : Prop :=
  (∃ call, .joined call flight ∈ es) ∧ ∀ call, (call, flight) ∉ s.waiting

/-- The connector was called and has not returned. -/
def InFlight (s : Session) (flight : ℕ) : Prop := (s.flights flight).stage = .connecting

/-- What the session keeps, in a state reached by these events. -/
structure Kept (es : List SessionEvent) (s : Session) : Prop where
  /-- What a call is handed after a reset was connected after it. -/
  fresh : ∀ before after k c, es = before ++ .reset :: after → Handed after k c →
    .connect c ∉ before ∧ .connect c ∈ after
  /-- What was forgotten is handed to no later call. -/
  forgotten : ∀ before after k c, es = before ++ .forget c :: after → ¬Handed after k c
  single : ∀ f g, s.InFlight f → s.InFlight g → ¬Abandoned es s f → ¬Abandoned es s g →
    ¬Dropped es f → ¬Dropped es g → f = g
  /-- No caller aborts what another waits for: if that fails, then its connector failed. -/
  own : ∀ k f, (k, f) ∈ s.waiting → (s.flights f).aborted = false ∧
    ((s.flights f).stage = .returned false ∨ (s.flights f).stage = .settled false →
      .connected f false ∈ es)
  /-- A flight that was left or reset is never made active, whatever comes. -/
  late : ∀ f, Abandoned es s f ∨ Dropped es f → s.active ≠ some f →
    ∀ es' s', Run Step s es' s' → s'.active ≠ some f

/-- No context is forgotten while its flight is pending. -/
def Careful (s : Session) : SessionEvent → Prop
  | .forget c => s.pending ≠ some c
  | _ => True

variable {s s' : Session} {e : SessionEvent} {es : List SessionEvent} {f k c m : ℕ}

theorem tied_run (tied : s.Tied) (run : Run Step s es s') : s'.Tied :=
  run.invariant (I := Tied) tied fun _ _ _ _ tied h => tied.step h

section Since

/-- Nothing of the flights before the `m`th is left. -/
structure Since (s : Session) (m : ℕ) : Prop where
  tied : s.Tied
  made : m ≤ s.made
  pending : ∀ f, s.pending = some f → m ≤ f
  active : ∀ c, s.active = some c → m ≤ c

theorem Since.step (since : s.Since m) (h : s.Step e s') : s'.Since m where
  tied := since.tied.step h
  made := Nat.le_trans since.made (made_step since.tied h)
  pending f hf := by
    obtain hold | ⟨hnew, -⟩ := pending_cases since.tied h hf
    · exact since.pending f hold
    · exact Nat.le_trans since.made hnew
  active c hc := by
    obtain hold | ⟨-, hpending, -⟩ := active_cases h hc
    · exact since.active c hold
    · exact since.pending c hpending

/-- A call takes the active context, the pending flight, or a new one. -/
theorem Since.started (since : s.Since m) (h : s.Step e s')
    (hstart : e = .reused k c ∨ e = .joined k c) : m ≤ c := by
  obtain rfl | rfl := hstart
  · cases h with
    | reused hactive => exact since.active c hactive
  · cases h with
    | joined hpending =>
      obtain hold | hnew := (join_bounds since.tied hpending).2.2
      · exact since.pending c hold
      · exact Nat.le_trans since.made hnew

theorem since_run (since : s.Since m) (run : Run Step s es s') : s'.Since m ∧
    ∀ k c, .reused k c ∈ es ∨ .joined k c ∈ es → m ≤ c := by
  refine run.history (I := fun es s => s.Since m ∧
    ∀ k c, .reused k c ∈ es ∨ .joined k c ∈ es → m ≤ c) ⟨since, by simp⟩ ?_
  rintro passed s e s' - ⟨since, started⟩ h
  refine ⟨since.step h, ?_⟩
  intro k c hstart
  simp only [List.mem_append, List.mem_singleton] at hstart
  obtain (hpassed | hnow) | (hpassed | hnow) := hstart
  · exact started k c (.inl hpassed)
  · exact since.started h (.inl hnow.symm)
  · exact started k c (.inr hpassed)
  · exact since.started h (.inr hnow.symm)

theorem Tied.since_reset (tied : s.Tied) (h : s.Step .reset s') : s'.Since s.made := by
  have htied := tied.step h
  cases h
  exact ⟨htied, Nat.le_refl _, fun _ h => (nomatch h), fun _ h => (nomatch h)⟩

end Since

section Traced

/-- The flight's connector was called, and has not failed. -/
def FlightStage.called : FlightStage → Bool
  | .connecting | .returned true | .settled true => true
  | _ => false

/-- What the events tell about a state that they lead to. -/
structure Traced (es : List SessionEvent) (s : Session) : Prop where
  tied : s.Tied
  called : ∀ f, FlightStage.called (s.flights f).stage = true → .connect f ∈ es
  connect : ∀ f, .connect f ∈ es → f < s.made
  joined : ∀ k f, .joined k f ∈ es → f < s.made
  made : ∀ f, f < s.made → ∃ k, .joined k f ∈ es
  active : ∀ c, s.active = some c → .connect c ∈ es
  handed : ∀ k c, .reused k c ∈ es ∨ .delivered k c ∈ es → .connect c ∈ es
  failed : ∀ f, (s.flights f).stage = .returned false ∨ (s.flights f).stage = .settled false →
    (s.flights f).aborted = false → .connected f false ∈ es
  pending : ∀ f, s.pending = some f → ∃ k, .joined k f ∈ es
  used : ∀ f, 0 < (s.flights f).users → (∀ ok, (s.flights f).stage ≠ .settled ok) →
    s.pending = some f ∨ Dropped es f

theorem Traced.new : Traced [] Session.new where
  tied := Tied.new
  called f h := by cases h
  connect f h := by cases h
  joined k f h := by cases h
  made f h := by cases h
  active c h := by cases h
  handed k c h := by simp at h
  failed f h := by simp [Session.new] at h
  pending f h := by cases h
  used f h := by cases h

theorem Dropped.append (h : Dropped es f) (es' : List SessionEvent) : Dropped (es ++ es') f := by
  obtain ⟨before, after, k, rfl, hjoined⟩ := h
  exact ⟨before, after ++ es', k, by simp, hjoined⟩

theorem Traced.called_step (traced : Traced es s) (h : s.Step e s')
    (hcalled : FlightStage.called (s'.flights f).stage = true) : .connect f ∈ es ++ [e] := by
  refine List.mem_append.2 ?_
  obtain hsame | ⟨rfl, -, -⟩ | ⟨-, -, -, hstage⟩ | ⟨ok, -, hstage, -⟩ | ⟨ok, -, hstage, hstage'⟩ :=
    stage_cases traced.tied h f
  · exact .inl (traced.called f (hsame ▸ hcalled))
  · exact .inr (List.mem_singleton_self _)
  · rw [hstage] at hcalled
    cases hcalled
  · exact .inl (traced.called f (by rw [hstage]; rfl))
  · rw [hstage'] at hcalled
    cases ok with
    | true => exact .inl (traced.called f (by rw [hstage]; rfl))
    | false => cases hcalled

theorem Traced.failed_step (traced : Traced es s) (h : s.Step e s')
    (hfailed : (s'.flights f).stage = .returned false ∨ (s'.flights f).stage = .settled false)
    (hlive : (s'.flights f).aborted = false) : .connected f false ∈ es ++ [e] := by
  have hlive₀ : (s.flights f).aborted = false := by
    rw [← Bool.not_eq_true]
    intro haborted
    rw [aborted_step traced.tied h haborted] at hlive
    cases hlive
  refine List.mem_append.2 ?_
  obtain hsame | ⟨-, -, hstage⟩ | ⟨-, -, haborted, -⟩ | ⟨ok, rfl, -, hstage⟩ | ⟨ok, -, hstage, hstage'⟩ :=
    stage_cases traced.tied h f
  · exact .inl (traced.failed f (hsame ▸ hfailed) hlive₀)
  · rw [hstage] at hfailed
    simp at hfailed
  · rw [hlive₀] at haborted
    cases haborted
  · rw [hstage, hlive₀] at hfailed
    cases ok with
    | true => simp at hfailed
    | false => exact .inr (List.mem_singleton_self _)
  · rw [hstage'] at hfailed
    cases ok with
    | true => simp at hfailed
    | false => exact .inl (traced.failed f (.inl hstage) hlive₀)

/-- A flight with callers that has not settled is the pending one, if no reset came after it. -/
theorem Traced.used_step (traced : Traced es s) (h : s.Step e s') (husers : 0 < (s'.flights f).users)
    (hopen : ∀ ok, (s'.flights f).stage ≠ .settled ok) :
    s'.pending = some f ∨ Dropped (es ++ [e]) f := by
  obtain husers₀ | hpending' := users_cases h husers
  · have hopen₀ : ∀ ok, (s.flights f).stage ≠ .settled ok := by
      intro ok hsettled
      obtain hsame | ⟨-, hstage, -⟩ | ⟨-, hstage, -⟩ | ⟨_, -, hstage, -⟩ | ⟨_, -, hstage, -⟩ :=
        stage_cases traced.tied h f
      · exact hopen ok (hsame.trans hsettled)
      all_goals
        rw [hstage] at hsettled
        cases hsettled
    obtain hpending | hdropped := traced.used f husers₀ hopen₀
    · obtain hkept | rfl | ⟨ok, hsettled⟩ | hzero := pending_kept h hpending
      · exact .inl hkept
      · obtain ⟨k, hjoined⟩ := traced.pending f hpending
        exact .inr ⟨es, [], k, rfl, hjoined⟩
      · exact absurd hsettled (hopen ok)
      · omega
    · exact .inr (hdropped.append [e])
  · exact .inl hpending'

theorem Traced.step (traced : Traced es s) (h : s.Step e s') : Traced (es ++ [e]) s' where
  tied := traced.tied.step h
  called _ := traced.called_step h
  connect f hmem := by
    obtain hpassed | hnow := List.mem_append.1 hmem
    · exact Nat.lt_of_lt_of_le (traced.connect f hpassed) (made_step traced.tied h)
    · obtain rfl := List.mem_singleton.1 hnow
      cases h with
      | connect made stage live => exact made
  joined k f hmem := by
    obtain hpassed | hnow := List.mem_append.1 hmem
    · exact Nat.lt_of_lt_of_le (traced.joined k f hpassed) (made_step traced.tied h)
    · obtain rfl := List.mem_singleton.1 hnow
      cases h with
      | joined hpending => exact (join_bounds traced.tied hpending).2.1
  made f hmade := by
    obtain hold | ⟨k, rfl⟩ := made_cases h hmade
    · obtain ⟨k, hk⟩ := traced.made f hold
      exact ⟨k, List.mem_append_left _ hk⟩
    · exact ⟨k, List.mem_append_right _ (List.mem_singleton_self _)⟩
  active c hactive := by
    obtain hold | ⟨-, -, hstage⟩ := active_cases h hactive
    · exact List.mem_append_left _ (traced.active c hold)
    · exact traced.called_step h (by rw [hstage]; rfl)
  -- What is handed out was active or settled, and either was connected before.
  handed k c hhanded := by
    simp only [List.mem_append, List.mem_singleton] at hhanded ⊢
    obtain (hpassed | rfl) | (hpassed | rfl) := hhanded
    · exact .inl (traced.handed k c (.inl hpassed))
    · cases h with
      | reused hactive => exact .inl (traced.active c hactive)
    · exact .inl (traced.handed k c (.inr hpassed))
    · cases h with
      | delivered waits stage => exact .inl (traced.called c (by rw [stage]; rfl))
  failed _ := traced.failed_step h
  pending f hpending := by
    obtain hold | ⟨-, k, rfl⟩ := pending_cases traced.tied h hpending
    · obtain ⟨k, hk⟩ := traced.pending f hold
      exact ⟨k, List.mem_append_left _ hk⟩
    · exact ⟨k, List.mem_append_right _ (List.mem_singleton_self _)⟩
  used _ := traced.used_step h

theorem traced_run (run : Run Step Session.new es s) : Traced es s :=
  run.history (I := Traced) Traced.new fun _ _ _ _ _ traced h => traced.step h

end Traced

section Gone

/-- The context of a flight that is past cannot be had any more. -/
structure Gone (s : Session) (c : ℕ) : Prop where
  tied : s.Tied
  made : c < s.made
  pending : s.pending ≠ some c
  active : s.active ≠ some c

theorem Gone.step (gone : s.Gone c) (h : s.Step e s') : s'.Gone c where
  tied := gone.tied.step h
  made := Nat.lt_of_lt_of_le gone.made (made_step gone.tied h)
  pending hpending := by
    obtain hold | ⟨hnew, -⟩ := pending_cases gone.tied h hpending
    · exact gone.pending hold
    · exact absurd gone.made (Nat.not_lt.2 hnew)
  active hactive := by
    obtain hold | ⟨-, hpending, -⟩ := active_cases h hactive
    · exact gone.active hold
    · exact gone.pending hpending

theorem Gone.not_started (gone : s.Gone c) (h : s.Step e s') :
    ¬(e = .reused k c ∨ e = .joined k c) := by
  rintro (rfl | rfl)
  · cases h with
    | reused hactive => exact gone.active hactive
  · cases h with
    | joined hpending =>
      obtain hold | hnew := (join_bounds gone.tied hpending).2.2
      · exact gone.pending hold
      · exact absurd gone.made (Nat.not_lt.2 hnew)

theorem gone_run (gone : s.Gone c) (run : Run Step s es s') :
    s'.Gone c ∧ ∀ k, ¬(.reused k c ∈ es ∨ .joined k c ∈ es) := by
  refine run.history (I := fun es s => s.Gone c ∧ ∀ k, ¬(.reused k c ∈ es ∨ .joined k c ∈ es))
    ⟨gone, by simp⟩ ?_
  rintro passed s e s' - ⟨gone, started⟩ h
  refine ⟨gone.step h, ?_⟩
  intro k hstart
  simp only [List.mem_append, List.mem_singleton] at hstart
  obtain (hpassed | hnow) | (hpassed | hnow) := hstart
  · exact started k (.inl hpassed)
  · exact gone.not_started h (.inl hnow.symm)
  · exact started k (.inr hpassed)
  · exact gone.not_started h (.inr hnow.symm)

end Gone

section Kept

theorem Handed.started (h : Handed es k c) : .reused k c ∈ es ∨ .joined k c ∈ es :=
  h.imp id And.left

theorem Handed.ended (h : Handed es k c) : .reused k c ∈ es ∨ .delivered k c ∈ es :=
  h.imp id And.right

theorem waits_of_not_abandoned (traced : Traced es s) (hmade : f < s.made)
    (h : ¬Abandoned es s f) : 0 < (s.flights f).users := by
  have hwaits : ∃ k, (k, f) ∈ s.waiting := by
    by_contra hnone
    exact h ⟨traced.made f hmade, not_exists.1 hnone⟩
  obtain ⟨k, hk⟩ := hwaits
  rw [traced.tied.users f]
  exact List.countP_pos_iff.2 ⟨(k, f), hk, by simp⟩

theorem not_pending_of_abandoned (tied : s.Tied) (h : Abandoned es s f) : s.pending ≠ some f := by
  intro hpending
  have husers := (tied.pending f hpending).2.1
  rw [tied.users f] at husers
  obtain ⟨⟨k, g⟩, hmem, hg⟩ := List.countP_pos_iff.1 husers
  obtain rfl : g = f := by simpa using hg
  exact h.2 k hmem

theorem not_pending_of_dropped (run : Run Step Session.new es s) (h : Dropped es f) :
    f < s.made ∧ s.pending ≠ some f := by
  obtain ⟨before, after, k, rfl, hjoined⟩ := h
  obtain ⟨s₁, run₁, run₂⟩ := run.split
  have traced := traced_run run₁
  have hlt := traced.joined k f hjoined
  cases run₂ with
  | cons h run₃ =>
    obtain ⟨since, -⟩ := since_run (traced.tied.since_reset h) run₃
    refine ⟨Nat.lt_of_lt_of_le hlt since.made, ?_⟩
    intro hpending
    exact absurd hlt (Nat.not_lt.2 (since.pending f hpending))

/-- What a call is handed after a reset was connected after it. -/
theorem fresh_run {before after : List SessionEvent}
    (run : Run Step Session.new (before ++ .reset :: after) s) (handed : Handed after k c) :
    .connect c ∉ before ∧ .connect c ∈ after := by
  have hconnect : .connect c ∈ before ++ .reset :: after := by
    refine (traced_run run).handed k c (handed.ended.imp ?_ ?_)
    all_goals exact fun h => List.mem_append_right _ (List.mem_cons_of_mem _ h)
  obtain ⟨s₁, run₁, run₂⟩ := run.split
  have traced := traced_run run₁
  have hnot : .connect c ∉ before := by
    intro hbefore
    cases run₂ with
    | cons h run₃ =>
      have hle := (since_run (traced.tied.since_reset h) run₃).2 k c handed.started
      exact absurd (traced.connect c hbefore) (Nat.not_lt.2 hle)
  refine ⟨hnot, ?_⟩
  simpa [hnot] using hconnect

/-- A context that is forgotten when its flight is past is handed to no later call. -/
theorem forgotten_run {before after : List SessionEvent}
    (run : Run (fun s e s' => s.Step e s' ∧ s.Careful e) Session.new (before ++ .forget c :: after) s) :
    ¬Handed after k c := by
  obtain ⟨s₁, run₁, run₂⟩ := run.split
  have tied := tied_run Tied.new (run₁.mono fun _ _ _ h => h.1)
  cases run₂ with
  | @cons _ s₂ _ _ _ h run₃ =>
    obtain ⟨hstep, hcareful⟩ := h
    have gone : s₂.Gone c := by
      have htied := tied.step hstep
      cases hstep with
      | forget made =>
        refine ⟨htied, made, hcareful, ?_⟩
        intro hactive
        simp only [Session.forget] at hactive
        split_ifs at hactive with hsame
        exact hsame hactive
    intro handed
    exact (gone_run gone (run₃.mono fun _ _ _ h => h.1)).2 k handed.started

theorem kept_run (run : Run (fun s e s' => s.Step e s' ∧ s.Careful e) Session.new es s) :
    Kept es s := by
  have steps : Run Step Session.new es s := run.mono fun _ _ _ h => h.1
  have traced := traced_run steps
  refine ⟨?_, ?_, ?_, ?_, ?_⟩
  · rintro before after k c rfl handed
    exact fresh_run steps handed
  · rintro before after k c rfl
    exact forgotten_run run
  · intro f g hf hg hf' hg' hdropped hdropped'
    -- Two flights that someone waits for would both be the pending one.
    have pending : ∀ f, s.InFlight f → ¬Abandoned es s f → ¬Dropped es f → s.pending = some f := by
      intro f hflight habandoned hdropped
      have hstage : (s.flights f).stage = .connecting := hflight
      have hmade := traced.tied.lt_made (f := f) (by rw [hstage]; simp)
      have husers := waits_of_not_abandoned traced hmade habandoned
      exact (traced.used f husers fun ok => by rw [hstage]; simp).resolve_right hdropped
    exact Option.some.inj ((pending f hf hf' hdropped).symm.trans (pending g hg hg' hdropped'))
  · intro k f hwaits
    have hlive : (s.flights f).aborted = false := by
      rw [← Bool.not_eq_true]
      intro haborted
      -- An aborted flight has no user, yet `k` waits for it.
      have hzero := traced.tied.aborted f haborted
      rw [traced.tied.users f, List.countP_eq_zero] at hzero
      exact hzero (k, f) hwaits (by simp)
    exact ⟨hlive, fun hfailed => traced.failed f hfailed hlive⟩
  · intro f hpast hactive es' s' run'
    -- Once out of `pending`, a flight can never be active again.
    have hgone : f < s.made ∧ s.pending ≠ some f := by
      obtain habandoned | hdropped := hpast
      · obtain ⟨k, hk⟩ := habandoned.1
        exact ⟨traced.joined k f hk, not_pending_of_abandoned traced.tied habandoned⟩
      · exact not_pending_of_dropped steps hdropped
    exact (gone_run ⟨traced.tied, hgone.1, hgone.2, hactive⟩ run').1.active

end Kept

end Session

end ZolanaTvc.Wallet
