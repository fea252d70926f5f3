import ZolanaTvc.Wallet.SessionRuns

/-!
# The wallet client over its session

Every operation of the wallet client begins with `prepare`, which compares the current request key with
the last one's, resets the session if it is another, and asks for a context in the same turn.

## Main results

* `client_session_kept`: over any interleaving in which no context is forgotten while its flight is
  pending, the session keeps what it promises, and every operation of the wallet client runs over a
  connection that started no earlier than the last switch to the operation's key.
-/

namespace ZolanaTvc.Wallet

open Session

/-- The variables of `clientFromSession`. -/
structure Client where
  /-- The key the current verification was made for. -/
  verifiedFor : Option String
  session : Session

inductive ClientEvent where
  /-- The key check of an operation, with the key of the check before it, and the call of `context`
  that follows at once. -/
  | prepare (key : String) (last : Option String) (call : SessionEvent)
  | session (e : SessionEvent)

/-- The events that a call of `context` begins with. -/
def SessionEvent.begins : SessionEvent → Bool
  | .refused _ | .reused .. | .joined .. => true
  | _ => false

namespace Client

def new : Client := ⟨none, Session.new⟩

/-- The session after the key check. -/
def checked (s : Client) (key : String) : Session :=
  if s.verifiedFor = some key ∨ s.verifiedFor = none then s.session
  else s.session.reset

inductive Step (s : Client) : ClientEvent → Client → Prop where
  | prepare {key : String} {call : SessionEvent} {session : Session} (begins : call.begins = true)
    (h : (s.checked key).Step call session) :
    Step s (.prepare key s.verifiedFor call) ⟨some key, session⟩
  /-- All but `prepare` neither asks the session for a context nor resets it. -/
  | session {e : SessionEvent} {session : Session} (later : e.begins = false) (kept : e ≠ .reset)
    (h : s.session.Step e session) : Step s (.session e) ⟨s.verifiedFor, session⟩

/-- What the session sees. -/
def sessionEvents : ClientEvent → List SessionEvent
  | .prepare key last call => if last = some key ∨ last = none then [call] else [.reset, call]
  | .session e => [e]

/-- Each operation runs over a context whose connection started no earlier than any switch to the
operation's key, up to the operation's own key check. -/
def OverOwnKey (es : List ClientEvent) : Prop :=
  ∀ before after key last call k c, es = before ++ .prepare key last call :: after →
    call = .reused k c ∨ call = .joined k c ∧ .session (.delivered k c) ∈ after →
    ∀ earlier later last' call',
      before ++ [.prepare key last call] = earlier ++ .prepare key last' call' :: later →
      last' ≠ some key →
      .connect c ∉ earlier.flatMap sessionEvents ∧ .connect c ∈ es.flatMap sessionEvents

variable {s s' : Client} {e : ClientEvent} {es : List ClientEvent}

theorem sessionEvents_step (h : s.Step e s') :
    Run Session.Step s.session (sessionEvents e) s'.session := by
  cases h with
  | @prepare key call session begins h =>
    simp only [sessionEvents, checked] at h ⊢
    split_ifs at h ⊢
    · exact .single h
    · exact .cons .reset (.single h)
  | session later kept h => exact .single h

theorem sessionEvents_run (run : Run Step s es s') :
    Run Session.Step s.session (es.flatMap sessionEvents) s'.session := by
  induction run with
  | nil s => exact .nil s.session
  | cons h _ ih => exact (sessionEvents_step h).append ih

/-- Before the first key check nothing happens. -/
theorem nil_of_unverified (run : Run Step new es s) (h : s.verifiedFor = none) : es = [] := by
  have both : s.verifiedFor = none → es = [] ∧ s.session = Session.new := by
    refine run.history (I := fun es s => s.verifiedFor = none → es = [] ∧ s.session = Session.new)
      (fun _ => ⟨rfl, rfl⟩) ?_
    rintro passed s e s' - idle h hnone
    cases h with
    | prepare begins h => cases hnone
    | session later kept h =>
      obtain ⟨-, hsession⟩ := idle hnone
      rw [hsession] at h
      -- A new session has no flight, no caller and no context.
      cases h with
      | refused | reused | joined => cases later
      | connect made | skipped made | forget made => exact absurd made (Nat.not_lt_zero _)
      | connected stage | settled stage => cases stage
      | delivered waits | failed waits | cancelled waits => cases waits
      | reset => exact absurd rfl kept
  exact (both h).1

theorem last_mem {p q : ClientEvent} {before earlier later : List ClientEvent}
    (h : before ++ [p] = earlier ++ q :: later) : p ∈ q :: later := by
  have hlast := congrArg List.getLast? h
  rw [List.getLast?_concat, List.getLast?_append_cons] at hlast
  exact List.mem_of_getLast? hlast.symm

theorem over_own_key (run : Run Step new es s) : OverOwnKey es := by
  rintro before after key last call k c rfl hcall earlier later last' call' hsplit hswitch
  -- Cut the run at the last switch to the key that the call is made over.
  let tail := ClientEvent.prepare key last' call' :: (later ++ after)
  have hes : before ++ ClientEvent.prepare key last call :: after = earlier ++ tail := by
    have happend := congrArg (fun l => l ++ after) hsplit
    simpa [tail] using happend
  -- The call got its context after that switch, at once or through a flight.
  have handed : Handed (tail.flatMap sessionEvents) k c := by
    have hown : ClientEvent.prepare key last call ∈ tail := by
      have hmem := last_mem hsplit
      simp only [tail, List.mem_cons, List.mem_append] at hmem ⊢
      exact hmem.imp id .inl
    have hevents : call ∈ tail.flatMap sessionEvents := by
      refine List.mem_flatMap.2 ⟨_, hown, ?_⟩
      simp only [sessionEvents]
      split_ifs <;> simp
    obtain rfl | ⟨rfl, hdelivered⟩ := hcall
    · exact .inl hevents
    · have hlater : ClientEvent.session (.delivered k c) ∈ tail :=
        List.mem_cons_of_mem _ (List.mem_append_right _ hdelivered)
      exact .inr ⟨hevents, List.mem_flatMap.2 ⟨_, hlater, List.mem_singleton_self _⟩⟩
  -- Seen from the session, the events of the client are a run of its own.
  rw [hes] at run ⊢
  have steps := sessionEvents_run run
  rw [List.flatMap_append] at steps ⊢
  have hconnect : .connect c ∈ earlier.flatMap sessionEvents ++ tail.flatMap sessionEvents := by
    refine (traced_run steps).handed k c (handed.ended.imp ?_ ?_)
    all_goals exact List.mem_append_right _
  refine ⟨?_, hconnect⟩
  by_cases hfirst : last' = none
  · -- The first key is no switch that resets, but nothing was connected before.
    obtain ⟨s₁, run₁, run₂⟩ := run.split
    have hunverified : s₁.verifiedFor = none := by
      have run₃ : Run Step s₁ (.prepare key last' call' :: (later ++ after)) s := run₂
      cases run₃ with
      | cons h _ =>
        cases h
        exact hfirst
    rw [nil_of_unverified run₁ hunverified]
    simp
  -- Any later switch begins with a reset, and after a reset only fresh connections are handed out.
  · have htail : tail.flatMap sessionEvents =
        .reset :: call' :: (later ++ after).flatMap sessionEvents := by
      have hresets : ¬(last' = some key ∨ last' = none) := not_or.2 ⟨hswitch, hfirst⟩
      simp only [tail, List.flatMap_cons, sessionEvents, if_neg hresets]
      rfl
    have handed' : Handed (call' :: (later ++ after).flatMap sessionEvents) k c := by
      rw [htail] at handed
      simpa [Handed] using handed
    rw [htail] at steps
    exact (fresh_run steps handed').1

end Client

/-- The session over any interleaving without a careless `forget`, and the wallet client over any. -/
theorem client_session_kept {es : List SessionEvent} {s : Session}
    (run : Run (fun s e s' => s.Step e s' ∧ s.Careful e) Session.new es s) :
    Kept es s ∧ ∀ client clientEvents, Run Client.Step Client.new clientEvents client →
      Client.OverOwnKey clientEvents :=
  ⟨kept_run run, fun _ _ run' => Client.over_own_key run'⟩

section Turn

/-- A call makes a flight, waits for its context, and forgets it. The next call makes a flight of its
own, which a reset leaves behind; the two calls after it share a third one. -/
def patient : List SessionEvent :=
  [.joined 0 0, .connect 0, .connected 0 true, .settled 0, .delivered 0 0, .forget 0] ++
    [.joined 1 1, .connect 1, .reset, .joined 2 2, .connected 1 true, .settled 1, .delivered 1 1] ++
    [.connect 2, .joined 3 2, .connected 2 true, .settled 2, .delivered 2 2, .delivered 3 2, .reused 4 2]

theorem patient_run :
    ∃ s, Run (fun s e s' => s.Step e s' ∧ s.Careful e) Session.new patient s ∧ s.active = some 2 := by
  -- A first context is handed out and then forgotten.
  let s₁ := Session.new.join 0
  let s₂ := (s₁.setStage 0 .connecting).connectReturned 0 true
  let s₃ := ((s₂.settle 0 true).leave 0 0).forget 0
  have forgotten : Run (fun s e s' => s.Step e s' ∧ s.Careful e) Session.new
      [.joined 0 0, .connect 0, .connected 0 true, .settled 0, .delivered 0 0, .forget 0] s₃ :=
    .cons ⟨.joined rfl, trivial⟩ <| .cons ⟨.connect (by decide) rfl rfl, trivial⟩ <|
      .cons ⟨.connected rfl, trivial⟩ <| .cons ⟨.settled rfl, trivial⟩ <|
      .cons ⟨.delivered (by decide) rfl, trivial⟩ <| .single ⟨.forget (by decide), nofun⟩
  -- The second flight is still connecting when the session is reset.
  let s₄ := (((s₃.join 1).setStage 1 .connecting).reset).join 2
  let s₅ := ((s₄.connectReturned 1 true).settle 1 true).leave 1 1
  have reset : Run (fun s e s' => s.Step e s' ∧ s.Careful e) s₃ [.joined 1 1, .connect 1, .reset,
      .joined 2 2, .connected 1 true, .settled 1, .delivered 1 1] s₅ :=
    .cons ⟨.joined rfl, trivial⟩ <| .cons ⟨.connect (by decide) rfl rfl, trivial⟩ <|
      .cons ⟨.reset, trivial⟩ <| .cons ⟨.joined rfl, trivial⟩ <| .cons ⟨.connected rfl, trivial⟩ <|
      .cons ⟨.settled rfl, trivial⟩ <| .single ⟨.delivered (by decide) rfl, trivial⟩
  -- The flight after the reset is shared by two callers, and a later one reuses it.
  let s₆ := ((s₅.setStage 2 .connecting).join 2).connectReturned 2 true
  let s₇ := ((s₆.settle 2 true).leave 2 2).leave 3 2
  have shared : Run (fun s e s' => s.Step e s' ∧ s.Careful e) s₅ [.connect 2, .joined 3 2,
      .connected 2 true, .settled 2, .delivered 2 2, .delivered 3 2, .reused 4 2]
      { s₇ with calls := s₇.calls + 1 } :=
    .cons ⟨.connect (by decide) rfl rfl, trivial⟩ <| .cons ⟨.joined rfl, trivial⟩ <|
      .cons ⟨.connected rfl, trivial⟩ <| .cons ⟨.settled rfl, trivial⟩ <|
      .cons ⟨.delivered (by decide) rfl, trivial⟩ <| .cons ⟨.delivered (by decide) rfl, trivial⟩ <|
      .single ⟨.reused rfl, trivial⟩
  exact ⟨_, (forgotten.append reset).append shared, rfl⟩

/-- Two operations of one key, and one of another key. -/
def switching : List ClientEvent :=
  [.prepare "a" none (.joined 0 0), .session (.connect 0), .session (.connected 0 true),
    .session (.settled 0), .session (.delivered 0 0), .prepare "a" (some "a") (.reused 1 0),
    .prepare "b" (some "a") (.joined 2 1)]

theorem switching_run : ∃ client, Run Client.Step Client.new switching client := by
  let s₁ := Session.new.join 0
  let s₂ := (((s₁.setStage 0 .connecting).connectReturned 0 true).settle 0 true).leave 0 0
  let s₃ : Session := { s₂ with calls := s₂.calls + 1 }
  have first : Client.new.Step (.prepare "a" none (.joined 0 0)) ⟨some "a", s₁⟩ := by
    refine .prepare rfl ?_
    rw [Client.checked, if_pos (.inr rfl)]
    exact .joined rfl
  have connected : Run Client.Step ⟨some "a", s₁⟩ [.session (.connect 0), .session (.connected 0 true),
      .session (.settled 0), .session (.delivered 0 0)] ⟨some "a", s₂⟩ :=
    .cons (.session rfl nofun (.connect (by decide) rfl rfl)) <|
      .cons (.session rfl nofun (.connected rfl)) <| .cons (.session rfl nofun (.settled rfl)) <|
      .single (.session rfl nofun (.delivered (by decide) rfl))
  have again : Client.Step ⟨some "a", s₂⟩ (.prepare "a" (some "a") (.reused 1 0)) ⟨some "a", s₃⟩ := by
    refine .prepare rfl ?_
    rw [Client.checked, if_pos (.inl rfl)]
    exact .reused rfl
  -- Another key: the connection of the first one is left behind.
  have other : Client.Step ⟨some "a", s₃⟩ (.prepare "b" (some "a") (.joined 2 1))
      ⟨some "b", s₃.reset.join 1⟩ := by
    refine .prepare rfl ?_
    rw [Client.checked, if_neg (by simp)]
    exact .joined rfl
  exact ⟨_, .cons first (connected.append (.cons again (.single other)))⟩

/-- The careful run, and operations that switch their key. -/
theorem client_session_kept_patient : ∃ s client,
    Run (fun s e s' => s.Step e s' ∧ s.Careful e) Session.new patient s ∧ s.active = some 2 ∧
      Kept patient s ∧ Run Client.Step Client.new switching client ∧ Client.OverOwnKey switching := by
  obtain ⟨s, run, hactive⟩ := patient_run
  obtain ⟨client, run'⟩ := switching_run
  obtain ⟨hkept, hover⟩ := client_session_kept run
  exact ⟨s, client, run, hactive, hkept, run', hover client switching run'⟩

/-- A call makes a flight, and another takes its context and forgets it before the flight settles. -/
def turn : List SessionEvent :=
  [.joined 0 0, .connect 0, .connected 0 true, .reused 1 0, .forget 0, .joined 2 0, .settled 0,
    .delivered 2 0]

theorem turn_run : ∃ s, Run Session.Step Session.new turn s := by
  let s₁ := Session.new.join 0
  let s₂ := (s₁.setStage 0 .connecting).connectReturned 0 true
  let s₃ := ({ s₂ with calls := s₂.calls + 1 }.forget 0).join 0
  let s₄ := (s₃.settle 0 true).leave 2 0
  have h₁ : Run Session.Step Session.new [.joined 0 0] s₁ := .single (.joined rfl)
  have h₂ : Run Session.Step s₁ [.connect 0, .connected 0 true] s₂ :=
    .cons (.connect (by decide) rfl rfl) (.single (.connected rfl))
  have h₃ : Run Session.Step s₂ [.reused 1 0, .forget 0, .joined 2 0] s₃ :=
    .cons (.reused rfl) (.cons (.forget (by decide)) (.single (.joined rfl)))
  have h₄ : Run Session.Step s₃ [.settled 0, .delivered 2 0] s₄ :=
    .cons (.settled rfl) (.single (.delivered (by decide) rfl))
  exact ⟨s₄, h₁.append (h₂.append (h₃.append h₄))⟩

/-- The call that begins after the context was forgotten is handed that context. -/
theorem forgotten_handed_again : ¬∀ es s, Run Session.Step Session.new es s → Kept es s := by
  intro h
  obtain ⟨s, run⟩ := turn_run
  have handed : Handed [.joined 2 0, .settled 0, .delivered 2 0] 2 0 := .inr (by decide)
  exact (h turn s run).forgotten [.joined 0 0, .connect 0, .connected 0 true, .reused 1 0] _ 2 0 rfl
    handed

end Turn

end ZolanaTvc.Wallet
