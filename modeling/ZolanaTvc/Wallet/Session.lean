import Mathlib.Data.List.Basic
import Mathlib.Logic.Function.Basic
import ZolanaTvc.Control.Run

/-!
# The client's session

The client shares one verified connection among its callers. The first call makes a flight, which
connects in microtasks of its own; the calls that find it pending wait for it. The step between the
return of the connector and the `finally` of the flight is one of its own, and other calls run there.
-/

namespace ZolanaTvc.Wallet

/-- How far a flight has come. -/
inductive FlightStage where
  /-- The connector is not called yet. -/
  | queued
  | connecting
  /-- The promise of the connection has its result, and `finally` has not run. -/
  | returned (ok : Bool)
  | settled (ok : Bool)
deriving DecidableEq

structure Flight where
  stage : FlightStage
  users : ℕ
  /-- The signal of the flight's `AbortController`. -/
  aborted : Bool
deriving DecidableEq

/-- The variables of `sessionFromConnector`. Flights are numbered, and a context goes by the number of
the flight that connected it. -/
structure Session where
  active : Option ℕ
  pending : Option ℕ
  flights : ℕ → Flight
  /-- How many flights were made. -/
  made : ℕ
  /-- The calls that wait, each for its flight. -/
  waiting : List (ℕ × ℕ)
  /-- How many calls were made. -/
  calls : ℕ

inductive SessionEvent where
  /-- A call whose signal is aborted already, or whose timeout is none. -/
  | refused (call : ℕ)
  /-- A call that finds the active context to hold. -/
  | reused (call context : ℕ)
  | joined (call flight : ℕ)
  | connect (flight : ℕ)
  /-- A flight that was aborted before it called the connector. -/
  | skipped (flight : ℕ)
  | connected (flight : ℕ) (ok : Bool)
  | settled (flight : ℕ)
  /-- A call ends with its flight's context. -/
  | delivered (call flight : ℕ)
  /-- A call ends with its flight's error. -/
  | failed (call flight : ℕ)
  /-- A call ends because its own signal aborted or its own time is over. -/
  | cancelled (call flight : ℕ)
  | forget (context : ℕ)
  | reset
deriving DecidableEq

namespace Session

def new : Session where
  active := none
  pending := none
  flights _ := ⟨.queued, 0, false⟩
  made := 0
  waiting := []
  calls := 0

/-- A flight is pending: the one there is, or a new one. -/
def withFlight (s : Session) : Session :=
  match s.pending with
  | some _ => s
  | none =>
    { s with
      pending := some s.made
      flights := Function.update s.flights s.made ⟨.queued, 0, false⟩
      made := s.made + 1 }

/-- What a call of `context` does before it waits. -/
def join (s : Session) (flight : ℕ) : Session :=
  { s.withFlight with
    active := none
    flights := Function.update s.withFlight.flights flight
      { s.withFlight.flights flight with users := (s.withFlight.flights flight).users + 1 }
    waiting := (s.calls, flight) :: s.waiting
    calls := s.calls + 1 }

/-- The `finally` of a call that waited. The last caller of the pending flight abandons it. -/
def leave (s : Session) (call flight : ℕ) : Session :=
  let users := (s.flights flight).users - 1
  let abandoned := users = 0 ∧ s.pending = some flight
  { s with
    pending := if abandoned then none else s.pending
    flights := Function.update s.flights flight
      { s.flights flight with
        users := users
        aborted := (s.flights flight).aborted || decide abandoned }
    waiting := s.waiting.erase (call, flight) }

def setStage (s : Session) (flight : ℕ) (stage : FlightStage) : Session :=
  { s with flights := Function.update s.flights flight { s.flights flight with stage := stage } }

/-- The rest of the flight after its connector returned. A connection that comes after the abort is
refused, and one that comes after the reset is not made active. -/
def connectReturned (s : Session) (flight : ℕ) (ok : Bool) : Session :=
  let aborted := (s.flights flight).aborted
  { s.setStage flight (.returned (ok && !aborted)) with
    active := if ok = true ∧ aborted = false ∧ s.pending = some flight then some flight
      else s.active }

/-- The `finally` of a flight. -/
def settle (s : Session) (flight : ℕ) (ok : Bool) : Session :=
  { s.setStage flight (.settled ok) with
    pending := if s.pending = some flight then none else s.pending }

def forget (s : Session) (context : ℕ) : Session :=
  -- A flight that is pending goes on, and the next call joins it.
  { s with active := if s.active = some context then none else s.active }

def reset (s : Session) : Session := { s with active := none, pending := none }

/-- What one microtask or one call does. A connector may return at any time, whatever its signal says,
and the clock decides whether the active context holds. -/
inductive Step (s : Session) : SessionEvent → Session → Prop where
  | refused : Step s (.refused s.calls) { s with calls := s.calls + 1 }
  | reused {c : ℕ} (h : s.active = some c) :
    Step s (.reused s.calls c) { s with calls := s.calls + 1 }
  | joined {f : ℕ} (h : s.withFlight.pending = some f) : Step s (.joined s.calls f) (s.join f)
  | connect {f : ℕ} (made : f < s.made) (stage : (s.flights f).stage = .queued)
    (live : (s.flights f).aborted = false) : Step s (.connect f) (s.setStage f .connecting)
  | skipped {f : ℕ} (made : f < s.made) (stage : (s.flights f).stage = .queued)
    (aborted : (s.flights f).aborted = true) : Step s (.skipped f) (s.setStage f (.returned false))
  | connected {f : ℕ} {ok : Bool} (stage : (s.flights f).stage = .connecting) :
    Step s (.connected f ok) (s.connectReturned f ok)
  | settled {f : ℕ} {ok : Bool} (stage : (s.flights f).stage = .returned ok) :
    Step s (.settled f) (s.settle f ok)
  | delivered {k f : ℕ} (waits : (k, f) ∈ s.waiting) (stage : (s.flights f).stage = .settled true) :
    Step s (.delivered k f) (s.leave k f)
  | failed {k f : ℕ} (waits : (k, f) ∈ s.waiting) (stage : (s.flights f).stage = .settled false) :
    Step s (.failed k f) (s.leave k f)
  | cancelled {k f : ℕ} (waits : (k, f) ∈ s.waiting) : Step s (.cancelled k f) (s.leave k f)
  | forget {c : ℕ} (made : c < s.made) : Step s (.forget c) (s.forget c)
  | reset : Step s .reset s.reset

/-- What ties the flights to the calls that wait for them. -/
structure Tied (s : Session) : Prop where
  users : ∀ f, (s.flights f).users = s.waiting.countP fun call => call.2 = f
  pending : ∀ f, s.pending = some f → f < s.made ∧ 0 < (s.flights f).users ∧
    (s.flights f).aborted = false ∧ ∀ ok, (s.flights f).stage ≠ .settled ok
  /-- The last caller is gone when a flight is aborted, and none comes after. -/
  aborted : ∀ f, (s.flights f).aborted = true → (s.flights f).users = 0
  made : ∀ f, s.made ≤ f → s.flights f = ⟨.queued, 0, false⟩
  active : ∀ c, s.active = some c → c < s.made

variable {s s' : Session} {e : SessionEvent}

theorem Tied.new : Session.new.Tied where
  users _ := rfl
  pending _ h := by cases h
  aborted _ h := by cases h
  made _ _ := rfl
  active _ h := by cases h

section Fields

variable {f g k : ℕ} {stage : FlightStage}

@[simp] theorem setStage_users : ((s.setStage f stage).flights g).users = (s.flights g).users := by
  by_cases h : g = f
  · subst h
    simp [setStage]
  · simp [setStage, h]

@[simp] theorem setStage_aborted :
    ((s.setStage f stage).flights g).aborted = (s.flights g).aborted := by
  by_cases h : g = f
  · subst h
    simp [setStage]
  · simp [setStage, h]

theorem setStage_stage :
    ((s.setStage f stage).flights g).stage = if g = f then stage else (s.flights g).stage := by
  by_cases h : g = f
  · subst h
    simp [setStage]
  · simp [setStage, h]

theorem leave_users : ((s.leave k f).flights g).users =
    (s.flights g).users - if g = f then 1 else 0 := by
  by_cases h : g = f
  · subst h
    simp [leave]
  · simp [leave, h]

@[simp] theorem leave_stage : ((s.leave k f).flights g).stage = (s.flights g).stage := by
  by_cases h : g = f
  · subst h
    simp [leave]
  · simp [leave, h]

theorem leave_aborted : ((s.leave k f).flights g).aborted = true ↔
    (s.flights g).aborted = true ∨ g = f ∧ (s.flights f).users - 1 = 0 ∧ s.pending = some f := by
  by_cases h : g = f
  · subst h
    simp [leave]
  · simp [leave, h]

theorem leave_pending : (s.leave k f).pending = some g ↔
    s.pending = some g ∧ ¬(g = f ∧ (s.flights f).users - 1 = 0) := by
  simp only [leave]
  split_ifs with h
  · obtain ⟨husers, hpending⟩ := h
    simp only [hpending, Option.some.injEq, false_iff]
    rintro ⟨rfl, hne⟩
    exact hne ⟨rfl, husers⟩
  · constructor
    · intro hpending
      refine ⟨hpending, ?_⟩
      rintro ⟨rfl, husers⟩
      exact h ⟨husers, hpending⟩
    · exact And.left

/-- A call joins the pending flight, or makes one. -/
theorem withFlight_cases (h : s.withFlight.pending = some f) :
    s.pending = some f ∧ s.withFlight = s ∨ s.pending = none ∧ f = s.made ∧ s.withFlight =
      { s with
        pending := some s.made
        flights := Function.update s.flights s.made ⟨.queued, 0, false⟩
        made := s.made + 1 } := by
  cases hpending : s.pending with
  | some g =>
    have hsame : s.withFlight = s := by simp only [withFlight, hpending]
    rw [hsame, hpending] at h
    exact .inl ⟨h, hsame⟩
  | none =>
    have hnew : s.withFlight =
        { s with
          pending := some s.made
          flights := Function.update s.flights s.made ⟨.queued, 0, false⟩
          made := s.made + 1 } := by simp only [withFlight, hpending]
    rw [hnew] at h
    exact .inr ⟨rfl, (Option.some.inj h).symm, hnew⟩

theorem join_of_ne (h : s.withFlight.pending = some f) (hne : g ≠ f) :
    (s.join f).flights g = s.flights g := by
  show Function.update s.withFlight.flights f _ g = _
  rw [Function.update_of_ne hne]
  obtain ⟨-, hsame⟩ | ⟨-, rfl, hnew⟩ := withFlight_cases h
  · rw [hsame]
  · rw [hnew]
    exact Function.update_of_ne hne _ _

theorem join_self (tied : s.Tied) (h : s.withFlight.pending = some f) :
    ((s.join f).flights f).users = (s.flights f).users + 1 ∧
      ((s.join f).flights f).aborted = false ∧
      (((s.join f).flights f).stage = (s.flights f).stage ∧ s.pending = some f ∨
        ((s.join f).flights f).stage = .queued ∧ f = s.made) := by
  have hself : (s.join f).flights f =
      { s.withFlight.flights f with users := (s.withFlight.flights f).users + 1 } :=
    Function.update_self ..
  rw [hself]
  obtain ⟨hpending, hsame⟩ | ⟨-, rfl, hnew⟩ := withFlight_cases h
  · rw [hsame]
    exact ⟨rfl, (tied.pending f hpending).2.2.1, .inl ⟨rfl, hpending⟩⟩
  · have hfresh : s.withFlight.flights s.made = ⟨.queued, 0, false⟩ := by
      rw [hnew]
      exact Function.update_self ..
    rw [hfresh, tied.made s.made (Nat.le_refl _)]
    exact ⟨rfl, rfl, .inr ⟨rfl, rfl⟩⟩

theorem join_bounds (tied : s.Tied) (h : s.withFlight.pending = some f) :
    s.made ≤ (s.join f).made ∧ f < (s.join f).made ∧ (s.pending = some f ∨ s.made ≤ f) := by
  show s.made ≤ s.withFlight.made ∧ f < s.withFlight.made ∧ _
  obtain ⟨hpending, hsame⟩ | ⟨-, rfl, hnew⟩ := withFlight_cases h
  · rw [hsame]
    exact ⟨Nat.le_refl _, (tied.pending f hpending).1, .inl hpending⟩
  · rw [hnew]
    exact ⟨Nat.le_succ _, Nat.lt_succ_self _, .inr (Nat.le_refl _)⟩

end Fields

theorem Tied.join {f : ℕ} (tied : s.Tied) (h : s.withFlight.pending = some f) : (s.join f).Tied := by
  obtain ⟨husers, haborted, hstage⟩ := join_self tied h
  obtain ⟨hmade, hlt, -⟩ := join_bounds tied h
  refine ⟨?_, ?_, ?_, ?_, fun c hc => nomatch hc⟩
  · intro g
    show _ = ((s.calls, f) :: s.waiting).countP _
    rw [List.countP_cons]
    -- Only the flight joined gets one more user, and one more caller waits for it.
    by_cases hg : g = f
    · rw [hg, husers, tied.users f]
      simp
    · rw [join_of_ne h hg, tied.users g]
      simp [Ne.symm hg]
  · intro g hg
    obtain rfl : f = g := Option.some.inj (h.symm.trans hg)
    refine ⟨hlt, by omega, haborted, ?_⟩
    intro ok hsettled
    obtain ⟨hsame, hpending⟩ | ⟨hqueued, -⟩ := hstage
    · exact (tied.pending f hpending).2.2.2 ok (hsame ▸ hsettled)
    · rw [hqueued] at hsettled
      cases hsettled
  · intro g hg
    by_cases hgf : g = f
    · rw [hgf, haborted] at hg
      cases hg
    · rw [join_of_ne h hgf] at hg ⊢
      exact tied.aborted g hg
  · intro g hg
    rw [join_of_ne h (by omega)]
    exact tied.made g (by omega)

theorem Tied.leave {k f : ℕ} (tied : s.Tied) (waits : (k, f) ∈ s.waiting) : (s.leave k f).Tied := by
  -- One caller less waits for `f`, so its users go down by one.
  have hcount := fun g => (List.perm_cons_erase waits).countP_eq fun call => decide (call.2 = g)
  refine ⟨?_, ?_, ?_, ?_, tied.active⟩
  · intro g
    have hg := hcount g
    rw [List.countP_cons] at hg
    rw [leave_users, tied.users g, hg]
    show _ = (s.waiting.erase (k, f)).countP _
    by_cases hgf : g = f
    · simp [hgf]
    · simp [hgf, Ne.symm hgf]
  · intro g hg
    -- A flight that stays pending keeps a user: the last one to leave takes it out.
    obtain ⟨hpending, hleft⟩ := leave_pending.1 hg
    obtain ⟨hmade, husers, haborted, hsettled⟩ := tied.pending g hpending
    refine ⟨hmade, ?_, ?_, fun ok => by rw [leave_stage]; exact hsettled ok⟩
    · rw [leave_users]
      split_ifs with hgf
      · subst hgf
        have : (s.flights g).users - 1 ≠ 0 := fun h => hleft ⟨rfl, h⟩
        omega
      · omega
    · rw [← Bool.not_eq_true, leave_aborted, haborted]
      rintro (h | ⟨rfl, hzero, -⟩)
      · cases h
      · exact hleft ⟨rfl, hzero⟩
  · intro g hg
    rw [leave_users]
    obtain h | ⟨rfl, hzero, -⟩ := leave_aborted.1 hg
    · rw [tied.aborted g h, Nat.zero_sub]
    · rwa [if_pos rfl]
  · intro g hg
    have hgf : g ≠ f := by
      rintro rfl
      have hpos : 0 < s.waiting.countP fun call => call.2 = g :=
        List.countP_pos_iff.2 ⟨(k, g), waits, by simp⟩
      rw [← tied.users g, tied.made g hg] at hpos
      cases hpos
    exact (Function.update_of_ne hgf _ _).trans (tied.made g hg)

theorem Tied.lt_made {f : ℕ} (tied : s.Tied) (h : (s.flights f).stage ≠ .queued) : f < s.made := by
  by_contra hge
  exact h (by rw [tied.made f (Nat.not_lt.1 hge)])

theorem Tied.setStage {f : ℕ} {stage : FlightStage} (tied : s.Tied) (made : f < s.made)
    (live : s.pending = some f → ∀ ok, stage ≠ .settled ok) : (s.setStage f stage).Tied := by
  refine ⟨fun g => ?_, fun g hg => ?_, fun g hg => ?_, fun g hg => ?_, tied.active⟩
  · rw [setStage_users]
    exact tied.users g
  · obtain ⟨hmade, husers, haborted, hsettled⟩ := tied.pending g hg
    refine ⟨hmade, by rwa [setStage_users], by rwa [setStage_aborted], ?_⟩
    intro ok
    rw [setStage_stage]
    split_ifs with hgf
    · exact live (hgf ▸ hg) ok
    · exact hsettled ok
  · rw [setStage_aborted] at hg
    rw [setStage_users]
    exact tied.aborted g hg
  · have hgf : g ≠ f := Nat.ne_of_gt (Nat.lt_of_lt_of_le made hg)
    exact (Function.update_of_ne hgf _ _).trans (tied.made g hg)

theorem Tied.step (tied : s.Tied) (h : s.Step e s') : s'.Tied := by
  cases h with
  | refused => exact ⟨tied.users, tied.pending, tied.aborted, tied.made, tied.active⟩
  | reused hactive => exact ⟨tied.users, tied.pending, tied.aborted, tied.made, tied.active⟩
  | joined hpending => exact tied.join hpending
  | connect made stage live => exact tied.setStage made fun _ _ h => nomatch h
  | skipped made stage aborted => exact tied.setStage made fun _ _ h => nomatch h
  | @connected f ok stage =>
    have set : (s.setStage f (.returned (ok && !(s.flights f).aborted))).Tied :=
      tied.setStage (tied.lt_made (by rw [stage]; simp)) fun _ _ h => nomatch h
    refine ⟨set.users, set.pending, set.aborted, set.made, ?_⟩
    intro c hc
    simp only [connectReturned] at hc
    split_ifs at hc with hbecomes
    · obtain rfl := Option.some.inj hc
      exact (tied.pending f hbecomes.2.2).1
    · exact tied.active c hc
  | @settled f ok stage =>
    -- The flight that settles is not pending any more, whatever was before.
    have cleared : { s with pending := if s.pending = some f then none else s.pending }.Tied := by
      refine ⟨tied.users, fun g hg => ?_, tied.aborted, tied.made, tied.active⟩
      simp only at hg
      split_ifs at hg
      exact tied.pending g hg
    refine cleared.setStage (tied.lt_made (by rw [stage]; simp)) fun hf => ?_
    simp only at hf
    split_ifs at hf with hpending
    exact absurd hf hpending
  | delivered waits stage => exact tied.leave waits
  | failed waits stage => exact tied.leave waits
  | cancelled waits => exact tied.leave waits
  | forget made =>
    refine ⟨tied.users, tied.pending, tied.aborted, tied.made, ?_⟩
    intro c hc
    simp only [Session.forget] at hc
    split_ifs at hc
    exact tied.active c hc
  | reset =>
    exact ⟨tied.users, fun f h => (nomatch h), tied.aborted, tied.made, fun c h => (nomatch h)⟩

section Steps

variable {f k c : ℕ}

/-- What a step does to a flight. -/
theorem stage_cases (tied : s.Tied) (h : s.Step e s') (f : ℕ) :
    (s'.flights f).stage = (s.flights f).stage ∨
      e = .connect f ∧ (s.flights f).stage = .queued ∧ (s'.flights f).stage = .connecting ∨
      (e = .skipped f ∧ (s.flights f).stage = .queued ∧ (s.flights f).aborted = true ∧
        (s'.flights f).stage = .returned false) ∨
      (∃ ok, e = .connected f ok ∧ (s.flights f).stage = .connecting ∧
        (s'.flights f).stage = .returned (ok && !(s.flights f).aborted)) ∨
      ∃ ok, e = .settled f ∧ (s.flights f).stage = .returned ok ∧
        (s'.flights f).stage = .settled ok := by
  -- Only five events move a flight, and each moves the flight it names.
  cases h with
  | refused | reused hactive | forget made | reset => exact .inl rfl
  | @joined g hpending =>
    by_cases hf : f = g
    · subst hf
      obtain ⟨hsame, -⟩ | ⟨hqueued, rfl⟩ := (join_self tied hpending).2.2
      · exact .inl hsame
      · exact .inl (hqueued.trans (by rw [tied.made s.made (Nat.le_refl _)]))
    · exact .inl (by rw [join_of_ne hpending hf])
  | @connect g made stage live =>
    by_cases hf : f = g
    · subst hf
      exact .inr (.inl ⟨rfl, stage, by simp [setStage_stage]⟩)
    · exact .inl (by simp [setStage_stage, hf])
  | @skipped g made stage aborted =>
    by_cases hf : f = g
    · subst hf
      exact .inr (.inr (.inl ⟨rfl, stage, aborted, by simp [setStage_stage]⟩))
    · exact .inl (by simp [setStage_stage, hf])
  | @connected g ok stage =>
    by_cases hf : f = g
    · subst hf
      have hset : ((s.setStage f (.returned (ok && !(s.flights f).aborted))).flights f).stage = _ :=
        setStage_stage
      rw [if_pos rfl] at hset
      exact .inr (.inr (.inr (.inl ⟨ok, rfl, stage, hset⟩)))
    · have hset : ((s.setStage g (.returned (ok && !(s.flights g).aborted))).flights f).stage = _ :=
        setStage_stage
      rw [if_neg hf] at hset
      exact .inl hset
  | @settled g ok stage =>
    by_cases hf : f = g
    · subst hf
      have hset : ((s.setStage f (.settled ok)).flights f).stage = _ := setStage_stage
      rw [if_pos rfl] at hset
      exact .inr (.inr (.inr (.inr ⟨ok, rfl, stage, hset⟩)))
    · have hset : ((s.setStage g (.settled ok)).flights f).stage = _ := setStage_stage
      rw [if_neg hf] at hset
      exact .inl hset
  | delivered waits stage | failed waits stage | cancelled waits => exact .inl leave_stage

theorem made_step (tied : s.Tied) (h : s.Step e s') : s.made ≤ s'.made := by
  cases h with
  | joined hpending => exact (join_bounds tied hpending).1
  | _ => exact Nat.le_refl _

/-- A call makes each flight. -/
theorem made_cases (h : s.Step e s') (hmade : f < s'.made) : f < s.made ∨ ∃ k, e = .joined k f := by
  cases h with
  | @joined g hpending =>
    have hjoin : (s.join g).made = s.withFlight.made := rfl
    rw [hjoin] at hmade
    obtain ⟨-, hsame⟩ | ⟨-, rfl, hnew⟩ := withFlight_cases hpending
    · exact .inl (hsame ▸ hmade)
    · rw [hnew] at hmade
      obtain hlt | rfl := Nat.lt_or_eq_of_le (Nat.le_of_lt_succ hmade)
      · exact .inl hlt
      · exact .inr ⟨s.calls, rfl⟩
  | _ => exact .inl hmade

/-- Only a flight that is pending when its connector returns becomes the active context. -/
theorem active_cases (h : s.Step e s') (hactive : s'.active = some c) : s.active = some c ∨
    e = .connected c true ∧ s.pending = some c ∧ (s'.flights c).stage = .returned true := by
  cases h with
  | @connected f ok stage =>
    simp only [connectReturned] at hactive
    split_ifs at hactive with hbecomes
    · obtain rfl := Option.some.inj hactive
      obtain ⟨rfl, hlive, hpending⟩ := hbecomes
      refine .inr ⟨rfl, hpending, ?_⟩
      show ((s.setStage f _).flights f).stage = _
      rw [setStage_stage, if_pos rfl, hlive]
      rfl
    · exact .inl hactive
  | forget made =>
    simp only [forget] at hactive
    split_ifs at hactive
    exact .inl hactive
  | joined hpending => cases hactive
  | reset => cases hactive
  | _ => exact .inl hactive

/-- A flight is pending from the call that makes it. -/
theorem pending_cases (tied : s.Tied) (h : s.Step e s') (hpending : s'.pending = some f) :
    s.pending = some f ∨ s.made ≤ f ∧ ∃ k, e = .joined k f := by
  cases h with
  | @joined g hjoined =>
    obtain rfl : g = f := Option.some.inj (hjoined.symm.trans hpending)
    obtain hold | hnew := (join_bounds tied hjoined).2.2
    · exact .inl hold
    · exact .inr ⟨hnew, s.calls, rfl⟩
  | settled stage =>
    simp only [settle] at hpending
    split_ifs at hpending
    exact .inl hpending
  | delivered waits stage | failed waits stage | cancelled waits =>
    exact .inl (leave_pending.1 hpending).1
  | reset => cases hpending
  | _ => exact .inl hpending

/-- A flight is pending until it settles, is reset, or its last caller leaves. -/
theorem pending_kept (h : s.Step e s') (hpending : s.pending = some f) : s'.pending = some f ∨
    e = .reset ∨ (∃ ok, (s'.flights f).stage = .settled ok) ∨ (s'.flights f).users = 0 := by
  -- Three events are a caller that leaves.
  have leave : ∀ k g, (s.leave k g).pending = some f ∨ ((s.leave k g).flights f).users = 0 := by
    intro k g
    by_cases hlast : f = g ∧ (s.flights g).users - 1 = 0
    · obtain ⟨rfl, husers⟩ := hlast
      exact .inr (by rwa [leave_users, if_pos rfl])
    · exact .inl (leave_pending.2 ⟨hpending, hlast⟩)
  cases h with
  | @joined g hjoined =>
    have hsame : s.withFlight = s := by simp only [withFlight, hpending]
    have hjoin : (s.join g).pending = s.withFlight.pending := rfl
    exact .inl (by rw [hjoin, hsame, hpending])
  | @settled g ok stage =>
    by_cases hfg : f = g
    · subst hfg
      have hset : ((s.setStage f (.settled ok)).flights f).stage = _ := setStage_stage
      rw [if_pos rfl] at hset
      exact .inr (.inr (.inl ⟨ok, hset⟩))
    · have hne : s.pending ≠ some g := by
        rw [hpending]
        simpa using hfg
      exact .inl ((if_neg hne).trans hpending)
  | delivered waits stage | failed waits stage | cancelled waits =>
    obtain hkept | hzero := leave _ _
    · exact .inl hkept
    · exact .inr (.inr (.inr hzero))
  | reset => exact .inr (.inl rfl)
  | _ => exact .inl hpending

/-- Callers come to the pending flight only. -/
theorem users_cases (h : s.Step e s') (husers : 0 < (s'.flights f).users) :
    0 < (s.flights f).users ∨ s'.pending = some f := by
  have leave : ∀ k g, 0 < ((s.leave k g).flights f).users → 0 < (s.flights f).users := by
    intro k g hpos
    rw [leave_users] at hpos
    omega
  cases h with
  | @joined g hpending =>
    by_cases hfg : f = g
    · subst hfg
      exact .inr hpending
    · rw [join_of_ne hpending hfg] at husers
      exact .inl husers
  | connect | skipped =>
    rw [setStage_users] at husers
    exact .inl husers
  | connected => exact .inl (setStage_users ▸ husers)
  | settled => exact .inl (setStage_users ▸ husers)
  | delivered waits stage | failed waits stage | cancelled waits => exact .inl (leave _ _ husers)
  | _ => exact .inl husers

/-- A flight stays aborted. -/
theorem aborted_step (tied : s.Tied) (h : s.Step e s') (haborted : (s.flights f).aborted = true) :
    (s'.flights f).aborted = true := by
  cases h with
  | @joined g hpending =>
    have hne : f ≠ g := by
      rintro rfl
      obtain hold | hnew := (join_bounds tied hpending).2.2
      · rw [(tied.pending f hold).2.2.1] at haborted
        cases haborted
      · rw [tied.made f hnew] at haborted
        cases haborted
    rwa [join_of_ne hpending hne]
  | connect | skipped => rwa [setStage_aborted]
  | connected => exact setStage_aborted.trans haborted
  | settled => exact setStage_aborted.trans haborted
  | delivered waits stage | failed waits stage | cancelled waits =>
    exact leave_aborted.2 (.inl haborted)
  | _ => exact haborted

end Steps

end Session

end ZolanaTvc.Wallet
