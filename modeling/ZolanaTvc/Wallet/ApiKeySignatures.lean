import Mathlib.Algebra.Order.BigOperators.Group.Finset
import Mathlib.Data.Finset.Basic
import Mathlib.Data.List.Basic
import ZolanaTvc.Control.Run

/-!
# Signing with the API key

The calls of `signWithApiKey` on one Turnkey client wait for one another in a chain of promises, whose
end is kept in a map.

## Main results

* `ApiKeySignatures.serialized_of_run`: no two calls on a client run at once, they start in the order in
  which they were made, and one that fails keeps nobody from starting.
-/

namespace ZolanaTvc.Wallet

namespace ApiKeySignatures

/-- A promise of a `T`, or of a reason `E`. -/
inductive Promise (T E : Type) where
  | pending
  | fulfilled (value : T)
  | rejected (reason : E)

namespace Promise

variable {T U E : Type}

/-- The promise of what has an outcome. -/
def of : Except E T → Promise T E
  | .ok value => .fulfilled value
  | .error reason => .rejected reason

/-- `promise.then(onFulfilled, onRejected)`, when the handlers return a value. -/
def andThen (onFulfilled : T → U) (onRejected : E → U) : Promise T E → Promise U E
  | .pending => .pending
  | .fulfilled value => .fulfilled (onFulfilled value)
  | .rejected reason => .fulfilled (onRejected reason)

def isPending : Promise T E → Bool
  | .pending => true
  | _ => false

theorem isPending_eq_false {p : Promise T E} : p.isPending = false ↔ p ≠ .pending := by
  cases p <;> simp [isPending]

theorem isPending_eq_true {p : Promise T E} : p.isPending = true ↔ p = .pending := by
  cases p <;> simp [isPending]

theorem of_ne_pending (outcome : Except E T) : of outcome ≠ .pending := by
  cases outcome <;> nofun

theorem andThen_const {p : Promise T E} (h : p ≠ .pending) :
    p.andThen (fun _ => ()) (fun _ => ()) = .fulfilled () := by
  cases p with
  | pending => exact absurd rfl h
  | fulfilled | rejected => rfl

end Promise

/-- The `sign` of a call. -/
inductive Callback (T E : Type) where
  /-- It has not been called. -/
  | waiting
  /-- It has neither thrown, nor has the promise it returned settled. -/
  | running
  | ended (outcome : Except E T)

def Callback.isWaiting {T E : Type} : Callback T E → Bool
  | .waiting => true
  | _ => false

/-- The calls of `signingAlone`, numbered in their order, on the Turnkey clients `K`. -/
structure State (K T E : Type) where
  /-- The call whose tail is kept for a client. -/
  apiKeySignatures : K → Option ℕ
  calls : ℕ
  turnkey : ℕ → K
  /-- The call whose tail was kept when a call was made. -/
  earlier : ℕ → Option ℕ
  callback : ℕ → Callback T E
  turn : ℕ → Promise T E
  /-- `turn.then(() => undefined, () => undefined)` -/
  tail : ℕ → Promise Unit E

inductive Event (K T E : Type) where
  | called (turnkey : K)
  /-- `sign` is called. -/
  | started (call : ℕ)
  /-- A promise without an `onRejected` is rejected as the one before it was. -/
  | passedOn (call : ℕ)
  /-- `sign` throws, or the promise that it returned settles. -/
  | ended (call : ℕ) (outcome : Except E T)
  /-- The turn takes the outcome of `sign`. -/
  | settled (call : ℕ)
  | released (call : ℕ)

/-- The event is a reaction of a promise, which runs once the promise has settled; the others come from
the outside. -/
def Event.isReaction {K T E : Type} : Event K T E → Bool
  | .called _ | .ended _ _ => false
  | _ => true

namespace State

variable {K T E : Type}

def new (turnkey : K) : State K T E where
  apiKeySignatures _ := none
  calls := 0
  turnkey _ := turnkey
  earlier _ := none
  callback _ := .waiting
  turn _ := .pending
  tail _ := .pending

/-- `apiKeySignatures.get(turnkey) ?? Promise.resolve()`, as it was when the call was made. -/
def before (s : State K T E) (call : ℕ) : Promise Unit E :=
  match s.earlier call with
  | none => .fulfilled ()
  | some d => s.tail d

theorem before_of_some {s : State K T E} {c d : ℕ} (h : s.earlier c = some d) : s.before c = s.tail d := by
  rw [before, h]

/-- The call makes its turn and keeps its tail. -/
def signingAlone [DecidableEq K] (s : State K T E) (turnkey : K) : State K T E :=
  { s with
    apiKeySignatures := Function.update s.apiKeySignatures turnkey (some s.calls)
    calls := s.calls + 1
    turnkey := Function.update s.turnkey s.calls turnkey
    earlier := Function.update s.earlier s.calls (s.apiKeySignatures turnkey) }

def setCallback (s : State K T E) (call : ℕ) (callback : Callback T E) : State K T E :=
  { s with callback := Function.update s.callback call callback }

def setTurn (s : State K T E) (call : ℕ) (turn : Promise T E) : State K T E :=
  { s with turn := Function.update s.turn call turn }

def setTail (s : State K T E) (call : ℕ) (tail : Promise Unit E) : State K T E :=
  { s with tail := Function.update s.tail call tail }

@[simp] theorem setCallback_callback (s : State K T E) (c d : ℕ) (callback : Callback T E) :
    (s.setCallback c callback).callback d = if d = c then callback else s.callback d :=
  Function.update_apply ..

@[simp] theorem setTurn_turn (s : State K T E) (c d : ℕ) (turn : Promise T E) :
    (s.setTurn c turn).turn d = if d = c then turn else s.turn d :=
  Function.update_apply ..

@[simp] theorem setTail_tail (s : State K T E) (c d : ℕ) (tail : Promise Unit E) :
    (s.setTail c tail).tail d = if d = c then tail else s.tail d :=
  Function.update_apply ..

section SigningAlone

variable [DecidableEq K] (s : State K T E) (j k : K) (c : ℕ)

@[simp] theorem signingAlone_apiKeySignatures : (s.signingAlone k).apiKeySignatures j =
    if j = k then some s.calls else s.apiKeySignatures j :=
  Function.update_apply ..

@[simp] theorem signingAlone_turnkey :
    (s.signingAlone k).turnkey c = if c = s.calls then k else s.turnkey c :=
  Function.update_apply ..

@[simp] theorem signingAlone_earlier :
    (s.signingAlone k).earlier c = if c = s.calls then s.apiKeySignatures k else s.earlier c :=
  Function.update_apply ..

@[simp] theorem signingAlone_calls : (s.signingAlone k).calls = s.calls + 1 := rfl

end SigningAlone

end State

variable {K T E : Type}

section Steps

variable [DecidableEq K]

/-- Reactions run in whatever order. -/
inductive Step (s : State K T E) : Event K T E → State K T E → Prop where
  | called {turnkey : K} : Step s (.called turnkey) (s.signingAlone turnkey)
  | started {c : ℕ} (made : c < s.calls) (waiting : s.callback c = .waiting)
    (turn : s.turn c = .pending) (before : s.before c = .fulfilled ()) :
    Step s (.started c) (s.setCallback c .running)
  | passedOn {c : ℕ} {reason : E} (made : c < s.calls) (waiting : s.callback c = .waiting)
    (turn : s.turn c = .pending) (before : s.before c = .rejected reason) :
    Step s (.passedOn c) (s.setTurn c (.rejected reason))
  | ended {c : ℕ} {outcome : Except E T} (running : s.callback c = .running) :
    Step s (.ended c outcome) (s.setCallback c (.ended outcome))
  | settled {c : ℕ} {outcome : Except E T} (made : c < s.calls) (ended : s.callback c = .ended outcome)
    (turn : s.turn c = .pending) : Step s (.settled c) (s.setTurn c (.of outcome))
  | released {c : ℕ} (made : c < s.calls) (turn : s.turn c ≠ .pending) (tail : s.tail c = .pending) :
    Step s (.released c) (s.setTail c ((s.turn c).andThen (fun _ => ()) fun _ => ()))

/-- No promise that has settled has a reaction left. -/
def Quiet (s : State K T E) : Prop := ∀ e s', e.isReaction = true → ¬Step s e s'

/-- The calls whose `sign` was called, in this order. -/
def started (es : List (Event K T E)) : List ℕ :=
  es.filterMap fun
    | .started c => some c
    | _ => none

/-- The calls on a client, in the order in which they were made. -/
def callsOn (s : State K T E) (turnkey : K) : List ℕ :=
  (List.range s.calls).filter fun c => s.turnkey c = turnkey

def Ended (s : State K T E) (call : ℕ) : Prop := ∃ outcome, s.callback call = .ended outcome

/-- What the calls on each client are to one another. -/
structure Serialized (es : List (Event K T E)) (s : State K T E) : Prop where
  exclusive : ∀ c d, s.callback c = .running → s.callback d = .running → s.turnkey c = s.turnkey d → c = d
  order : ∀ k, ((started es).filter fun c => s.turnkey c = k) <+: callsOn s k
  outcome : ∀ c, s.turn c ≠ .pending → ∃ outcome, s.callback c = .ended outcome ∧ s.turn c = .of outcome
  /-- When the reactions have run, a call whose earlier calls have ended was not kept waiting, and one
  that has ended has given its caller its outcome. -/
  advances : Quiet s → ∀ c < s.calls,
    ((∀ d < c, s.turnkey d = s.turnkey c → Ended s d) → s.callback c ≠ .waiting) ∧
      ∀ outcome, s.callback c = .ended outcome → s.turn c = .of outcome
  /-- The reactions come to an end. -/
  drains : ∀ es' s', Run Step s es' s' → (∀ e ∈ es', e.isReaction = true) → es'.length ≤ 3 * s.calls

end Steps

section Invariant

/-- What ties each call to the one before it. -/
structure Tied (s : State K T E) : Prop where
  unmade : ∀ c, s.calls ≤ c → s.callback c = .waiting ∧ s.turn c = .pending ∧ s.tail c = .pending
  kept : ∀ k d, s.apiKeySignatures k = some d → d < s.calls ∧ s.turnkey d = k
  latest : ∀ c < s.calls, ∃ d, s.apiKeySignatures (s.turnkey c) = some d ∧ c ≤ d
  earlier : ∀ c < s.calls, ∀ d, s.earlier c = some d → d < c ∧ s.turnkey d = s.turnkey c
  previous : ∀ c < s.calls, ∀ b < c, s.turnkey b = s.turnkey c → ∃ d, s.earlier c = some d ∧ b ≤ d
  begun : ∀ c, s.callback c ≠ .waiting → s.before c = .fulfilled ()
  turn : ∀ c, s.turn c ≠ .pending → ∃ outcome, s.callback c = .ended outcome ∧ s.turn c = .of outcome
  tail : ∀ c, s.tail c ≠ .pending → s.tail c = .fulfilled () ∧ s.turn c ≠ .pending

variable {s s' : State K T E} {e : Event K T E} {es : List (Event K T E)} {c d : ℕ}

theorem Tied.new (k : K) : Tied (State.new k : State K T E) where
  unmade _ _ := ⟨rfl, rfl, rfl⟩
  kept _ _ h := nomatch h
  latest c h := absurd h (Nat.not_lt_zero c)
  earlier c h := absurd h (Nat.not_lt_zero c)
  previous c h := absurd h (Nat.not_lt_zero c)
  begun _ h := absurd rfl h
  turn _ h := absurd rfl h
  tail _ h := absurd rfl h

theorem Tied.made (tied : Tied s) (h : s.callback c ≠ .waiting) : c < s.calls := by
  by_contra hc
  exact h (tied.unmade c (Nat.le_of_not_lt hc)).1

/-- Whoever has started has seen every earlier call on its client end. -/
theorem Tied.ended (tied : Tied s) (hd : s.callback d ≠ .waiting) (hlt : c < d)
    (hclient : s.turnkey c = s.turnkey d) : Ended s c := by
  induction d using Nat.strong_induction_on with
  | _ d ih =>
    have hmade := tied.made hd
    obtain ⟨p, hp, hcp⟩ := tied.previous d hmade c hlt hclient
    obtain ⟨hpd, hpclient⟩ := tied.earlier d hmade p hp
    have htail : s.tail p = .fulfilled () := (State.before_of_some hp).symm.trans (tied.begun d hd)
    obtain ⟨-, hturn⟩ := tied.tail p (by rw [htail]; nofun)
    obtain ⟨outcome, hended, -⟩ := tied.turn p hturn
    obtain rfl | hcp := Nat.eq_or_lt_of_le hcp
    · exact ⟨outcome, hended⟩
    · exact ih p hpd (by rw [hended]; nofun) hcp (hclient.trans hpclient.symm)

theorem Tied.exclusive (tied : Tied s) (hc : s.callback c = .running) (hd : s.callback d = .running)
    (hclient : s.turnkey c = s.turnkey d) : c = d := by
  have hne : ∀ {a b : ℕ}, s.callback a = .running → s.callback b = .running →
      s.turnkey a = s.turnkey b → ¬a < b := by
    intro a b ha hb hab hlt
    obtain ⟨outcome, hended⟩ := tied.ended (by rw [hb]; nofun) hlt hab
    rw [ha] at hended
    cases hended
  have hcd := hne hc hd hclient
  have hdc := hne hd hc hclient.symm
  omega

theorem Tied.setCallback (tied : Tied s) {callback : Callback T E} (hmade : c < s.calls)
    (hbefore : s.before c = .fulfilled ()) (hturn : s.turn c = .pending) :
    Tied (s.setCallback c callback) := by
  refine { tied with unmade := fun d hd => ?_, begun := fun d hd => ?_, turn := fun d hd => ?_ }
  · have hne : d ≠ c := fun h => absurd (h ▸ hd) (Nat.not_le_of_lt hmade)
    rw [State.setCallback_callback, if_neg hne]
    exact tied.unmade d hd
  · rw [State.setCallback_callback] at hd
    by_cases h : d = c
    · exact h ▸ hbefore
    · exact tied.begun d (by rwa [if_neg h] at hd)
  · have hne : d ≠ c := fun h => hd (h ▸ hturn)
    rw [State.setCallback_callback, if_neg hne]
    exact tied.turn d hd

theorem Tied.setTurn (tied : Tied s) {outcome : Except E T} (hmade : c < s.calls)
    (hended : s.callback c = .ended outcome) : Tied (s.setTurn c (.of outcome)) := by
  refine { tied with unmade := fun d hd => ?_, turn := fun d hd => ?_, tail := fun d hd => ?_ }
  · have hne : d ≠ c := fun h => absurd (h ▸ hd) (Nat.not_le_of_lt hmade)
    rw [State.setTurn_turn, if_neg hne]
    exact tied.unmade d hd
  · rw [State.setTurn_turn] at hd ⊢
    by_cases h : d = c
    · subst h
      exact ⟨outcome, hended, if_pos rfl⟩
    · rw [if_neg h] at hd ⊢
      exact tied.turn d hd
  · refine ⟨(tied.tail d hd).1, ?_⟩
    rw [State.setTurn_turn]
    by_cases h : d = c
    · rw [if_pos h]
      exact Promise.of_ne_pending outcome
    · rw [if_neg h]
      exact (tied.tail d hd).2

theorem Tied.setTail (tied : Tied s) (hmade : c < s.calls) (hturn : s.turn c ≠ .pending)
    (htail : s.tail c = .pending) : Tied (s.setTail c (.fulfilled ())) := by
  refine { tied with unmade := fun d hd => ?_, begun := fun d hd => ?_, tail := fun d hd => ?_ }
  · have hne : d ≠ c := fun h => absurd (h ▸ hd) (Nat.not_le_of_lt hmade)
    rw [State.setTail_tail, if_neg hne]
    exact tied.unmade d hd
  · have hbefore := tied.begun d hd
    have hearlier : (s.setTail c (.fulfilled ())).earlier d = s.earlier d := rfl
    cases hp : s.earlier d with
    | none => rw [State.before, hearlier, hp]
    | some p =>
      rw [State.before_of_some hp] at hbefore
      have hne : p ≠ c := by
        rintro rfl
        rw [htail] at hbefore
        cases hbefore
      rw [State.before_of_some (hearlier.trans hp), State.setTail_tail, if_neg hne]
      exact hbefore
  · rw [State.setTail_tail] at hd ⊢
    by_cases h : d = c
    · subst h
      exact ⟨if_pos rfl, hturn⟩
    · rw [if_neg h] at hd ⊢
      exact tied.tail d hd

/-- No tail is rejected, so that no rejection is passed on. -/
theorem Tied.before_ne_rejected (tied : Tied s) {reason : E} : s.before c ≠ .rejected reason := by
  intro h
  cases hp : s.earlier c with
  | none =>
    rw [State.before, hp] at h
    cases h
  | some p =>
    rw [State.before_of_some hp] at h
    obtain ⟨htail, -⟩ := tied.tail p (by rw [h]; nofun)
    rw [htail] at h
    cases h

variable [DecidableEq K]

theorem before_signingAlone {k : K} (h : c ≠ s.calls) : (s.signingAlone k).before c = s.before c := by
  rw [State.before, State.signingAlone_earlier, if_neg h]
  rfl

/-- A call made at the end of the chain. -/
theorem Tied.signingAlone (tied : Tied s) (k : K) : Tied (s.signingAlone k) := by
  refine ⟨fun c hc => tied.unmade c (Nat.le_of_succ_le hc), ?_, ?_, ?_, ?_, ?_, tied.turn, tied.tail⟩
  · intro j d hd
    rw [State.signingAlone_apiKeySignatures] at hd
    rw [State.signingAlone_calls, State.signingAlone_turnkey]
    -- The slot of `k` now holds the call just made, the other slots what they held.
    by_cases hj : j = k
    · rw [if_pos hj] at hd
      obtain rfl := Option.some.inj hd
      exact ⟨Nat.lt_succ_self _, (if_pos rfl).trans hj.symm⟩
    · rw [if_neg hj] at hd
      obtain ⟨hlt, hclient⟩ := tied.kept j d hd
      exact ⟨Nat.lt_succ_of_lt hlt, (if_neg hlt.ne).trans hclient⟩
  · intro c hc
    rw [State.signingAlone_calls, Nat.lt_succ_iff_lt_or_eq] at hc
    rw [State.signingAlone_apiKeySignatures, State.signingAlone_turnkey]
    -- The last call over `k` is the new one.
    by_cases hk : (if c = s.calls then k else s.turnkey c) = k
    · rw [if_pos hk]
      exact ⟨s.calls, rfl, by omega⟩
    · have hlt : c < s.calls := hc.resolve_right fun h => hk (if_pos h)
      rw [if_neg hk, if_neg hlt.ne]
      exact tied.latest c hlt
  · intro c hc d hd
    rw [State.signingAlone_calls, Nat.lt_succ_iff_lt_or_eq] at hc
    rw [State.signingAlone_earlier] at hd
    rw [State.signingAlone_turnkey, State.signingAlone_turnkey]
    obtain hlt | rfl := hc
    · rw [if_neg hlt.ne] at hd
      obtain ⟨hdc, hclient⟩ := tied.earlier c hlt d hd
      exact ⟨hdc, by rw [if_neg hlt.ne, if_neg (hdc.trans hlt).ne, hclient]⟩
    · rw [if_pos rfl] at hd
      obtain ⟨hlt, hclient⟩ := tied.kept k d hd
      exact ⟨hlt, by rw [if_pos rfl, if_neg hlt.ne, hclient]⟩
  · intro c hc b hb hclient
    rw [State.signingAlone_calls, Nat.lt_succ_iff_lt_or_eq] at hc
    rw [State.signingAlone_turnkey, State.signingAlone_turnkey] at hclient
    rw [State.signingAlone_earlier]
    -- The new call waits for what its slot held before it.
    obtain hlt | rfl := hc
    · rw [if_neg hlt.ne, if_neg (hb.trans hlt).ne] at hclient
      rw [if_neg hlt.ne]
      exact tied.previous c hlt b hb hclient
    · rw [if_pos rfl, if_neg hb.ne] at hclient
      rw [if_pos rfl, ← hclient]
      exact tied.latest b hb
  · intro c hc
    rw [before_signingAlone (tied.made hc).ne]
    exact tied.begun c hc

theorem Tied.step (tied : Tied s) (h : Step s e s') : Tied s' := by
  cases h with
  | called => exact tied.signingAlone _
  | started made waiting turn before => exact tied.setCallback made before turn
  | passedOn made waiting turn before => exact absurd before tied.before_ne_rejected
  | @ended c outcome running =>
    have hbegun : s.callback c ≠ .waiting := by rw [running]; nofun
    refine tied.setCallback (tied.made hbegun) (tied.begun c hbegun) ?_
    by_contra hturn
    obtain ⟨o, hended, -⟩ := tied.turn c hturn
    rw [running] at hended
    cases hended
  | settled made ended turn => exact tied.setTurn made ended
  | released made turn tail =>
    rw [Promise.andThen_const turn]
    exact tied.setTail made turn tail

theorem tied_of_run {k : K} (run : Run Step (.new k) es s) : Tied s :=
  run.invariant (.new k) fun _ _ _ _ tied h => tied.step h

end Invariant

section Order

variable [DecidableEq K] {s s' : State K T E} {e : Event K T E} {es : List (Event K T E)} {c : ℕ}

/-- The members of a list up to where a condition ends. -/
theorem filter_prefix {α : Type} {q : α → Bool} {l : List α}
    (h : l.Pairwise fun a b => q b = true → q a = true) : l.filter q <+: l := by
  induction l with
  | nil => exact List.prefix_rfl
  | cons a l ih =>
    obtain ⟨ha, hl⟩ := List.pairwise_cons.1 h
    by_cases hq : q a = true
    · rw [List.filter_cons_of_pos hq]
      exact (List.prefix_cons_inj a).2 (ih hl)
    · have hnone : (a :: l).filter q = [] := by
        refine List.filter_eq_nil_iff.2 fun b hb hqb => hq ?_
        obtain rfl | hb := List.mem_cons.1 hb
        · exact hqb
        · exact ha b hb hqb
      rw [hnone]
      exact List.nil_prefix

/-- One more number, after all that there were. -/
theorem filter_range_insert {p q : ℕ → Bool} {n c : ℕ} (hc : c < n) (hpc : p c = true) (hqc : q c = false)
    (hafter : ∀ d, c < d → p d = false) (hbefore : ∀ d, d ≠ c → p d = q d) :
    (List.range n).filter p = (List.range n).filter q ++ [c] := by
  obtain ⟨m, rfl⟩ := Nat.exists_eq_add_of_lt hc
  have hsplit : List.range (c + m + 1) = List.range c ++ c :: (List.range m).map (c + 1 + ·) := by
    rw [show c + m + 1 = c + 1 + m by omega, List.range_add, List.range_succ, List.append_assoc]
    rfl
  have htail : ∀ r : ℕ → Bool, (∀ d, c < d → r d = false) →
      ((List.range m).map (c + 1 + ·)).filter r = [] := by
    intro r hr
    refine List.filter_eq_nil_iff.2 fun d hd => ?_
    obtain ⟨i, -, rfl⟩ := List.mem_map.1 hd
    rw [hr _ (by omega)]
    exact Bool.false_ne_true
  have hhead : (List.range c).filter p = (List.range c).filter q :=
    List.filter_congr fun d hd => hbefore d (List.mem_range.1 hd).ne
  have hafter' : ∀ d, c < d → q d = false := fun d hd => (hbefore d hd.ne').symm.trans (hafter d hd)
  rw [hsplit, List.filter_append, List.filter_append, List.filter_cons_of_pos hpc,
    List.filter_cons_of_neg (by rw [hqc]; exact Bool.false_ne_true), htail p hafter, htail q hafter', hhead,
    List.append_nil]

/-- The calls on a client whose `sign` was called, by their numbers. -/
def begunOn (s : State K T E) (k : K) : List ℕ :=
  (List.range s.calls).filter fun c => s.turnkey c = k ∧ (s.callback c).isWaiting = false

theorem isWaiting_eq_false {callback : Callback T E} : callback.isWaiting = false ↔ callback ≠ .waiting := by
  cases callback <;> simp [Callback.isWaiting]

theorem begunOn_signingAlone (tied : Tied s) (j k : K) : begunOn (s.signingAlone j) k = begunOn s k := by
  have hwaiting : (s.callback s.calls).isWaiting = true := by
    rw [(tied.unmade s.calls le_rfl).1]
    rfl
  have hlast : ([s.calls].filter fun c => ((s.signingAlone j).turnkey c = k ∧
      ((s.signingAlone j).callback c).isWaiting = false : Bool)) = [] := by
    refine List.filter_eq_nil_iff.2 fun c hc => ?_
    obtain rfl := List.mem_singleton.1 hc
    have hcallback : (s.signingAlone j).callback s.calls = s.callback s.calls := rfl
    simp [hcallback, hwaiting]
  show (List.range (s.calls + 1)).filter _ = _
  rw [List.range_succ, List.filter_append, hlast, List.append_nil]
  refine List.filter_congr fun c hc => ?_
  have hclient : (s.signingAlone j).turnkey c = s.turnkey c :=
    Function.update_of_ne (List.mem_range.1 hc).ne _ _
  rw [hclient]
  rfl

theorem turnkey_step (h : Step s e s') (hc : c < s.calls) : s'.turnkey c = s.turnkey c ∧ s.calls ≤ s'.calls := by
  cases h with
  | called => exact ⟨Function.update_of_ne hc.ne _ _, Nat.le_succ _⟩
  | _ => exact ⟨rfl, le_rfl⟩

theorem begunOn_ended {outcome : Except E T} (running : s.callback c = .running) (k : K) :
    begunOn (s.setCallback c (.ended outcome)) k = begunOn s k := by
  refine List.filter_congr fun d _ => ?_
  rw [State.setCallback_callback]
  by_cases h : d = c
  · rw [if_pos h, h, running]
    rfl
  · rw [if_neg h]
    rfl

/-- The one that starts comes after those that have started. -/
theorem begunOn_started (tied : Tied s) (made : c < s.calls) (waiting : s.callback c = .waiting) (k : K) :
    begunOn (s.setCallback c .running) k = begunOn s k ++ [c].filter fun c => s.turnkey c = k := by
  by_cases hk : s.turnkey c = k
  · rw [List.filter_cons_of_pos (by simpa using hk), List.filter_nil]
    refine filter_range_insert made ?_ ?_ ?_ ?_
    · simp [State.setCallback, hk, Callback.isWaiting]
    · simp [waiting, Callback.isWaiting]
    · -- A call after one that waits waits, too.
      intro d hd
      have hwaits : s.turnkey d = k → s.callback d = .waiting := by
        intro hclient
        by_contra hbegun
        obtain ⟨o, ho⟩ := tied.ended hbegun hd (hk.trans hclient.symm)
        rw [waiting] at ho
        cases ho
      by_cases hclient : s.turnkey d = k
      · simp [State.setCallback, Function.update_of_ne hd.ne', hwaits hclient, Callback.isWaiting]
      · simp [State.setCallback, hclient]
    · intro d hd
      simp [State.setCallback, Function.update_of_ne hd]
  · rw [List.filter_cons_of_neg (by simpa using hk), List.filter_nil, List.append_nil]
    refine List.filter_congr fun d _ => ?_
    by_cases h : d = c
    · subst h
      simp [State.setCallback, hk]
    · simp [State.setCallback, Function.update_of_ne h]

/-- What the events and the state say of who has started. -/
structure Ordered (es : List (Event K T E)) (s : State K T E) : Prop where
  made : ∀ c ∈ started es, c < s.calls
  begun : ∀ k, ((started es).filter fun c => s.turnkey c = k) = begunOn s k

theorem Ordered.step (ordered : Ordered es s) (tied : Tied s) (h : Step s e s') :
    Ordered (es ++ [e]) s' := by
  have happend : started (es ++ [e]) = started es ++ started [e] := List.filterMap_append
  have hclient : ∀ k, ((started es).filter fun c => s'.turnkey c = k) = begunOn s k := by
    intro k
    rw [← ordered.begun k]
    refine List.filter_congr fun c hc => ?_
    rw [(turnkey_step h (ordered.made c hc)).1]
  have hmade : ∀ c ∈ started es, c < s'.calls := fun c hc =>
    (ordered.made c hc).trans_le (turnkey_step h (ordered.made c hc)).2
  have hsame : started [e] = [] → (∀ k, begunOn s' k = begunOn s k) → Ordered (es ++ [e]) s' := by
    intro hnone hbegun
    rw [hnone, List.append_nil] at happend
    exact ⟨happend ▸ hmade, fun k => by rw [happend, hbegun k, hclient k]⟩
  cases h with
  | called => exact hsame rfl fun k => begunOn_signingAlone tied _ k
  | passedOn | settled | released => exact hsame rfl fun _ => rfl
  | ended running => exact hsame rfl fun k => begunOn_ended running k
  | @started c made waiting =>
    refine ⟨happend ▸ fun d hd => ?_, fun k => ?_⟩
    · obtain hd | hd := List.mem_append.1 hd
      · exact hmade d hd
      · obtain rfl := List.mem_singleton.1 hd
        exact made
    · rw [happend, List.filter_append, hclient k]
      exact (begunOn_started tied made waiting k).symm

theorem ordered_of_run {k : K} (run : Run Step (.new k) es s) : Ordered es s := by
  have hboth : Tied s ∧ Ordered es s :=
    run.history (I := fun es s => Tied s ∧ Ordered es s)
      ⟨.new k, fun c hc => absurd hc List.not_mem_nil, fun _ => rfl⟩
      fun _ _ _ _ _ h hstep => ⟨h.1.step hstep, h.2.step h.1 hstep⟩
  exact hboth.2

/-- Those that have started are the first of the calls. -/
theorem begunOn_prefix (tied : Tied s) (k : K) : begunOn s k <+: callsOn s k := by
  have hbegun : begunOn s k = (callsOn s k).filter fun c => (s.callback c).isWaiting = false := by
    rw [begunOn, callsOn, List.filter_filter]
    refine List.filter_congr fun c _ => ?_
    rw [Bool.decide_and, Bool.and_comm]
  rw [hbegun]
  apply filter_prefix
  have hrange : (callsOn s k).Pairwise (· < ·) := List.pairwise_lt_range.filter _
  refine hrange.imp_of_mem fun {c d} hc hd hlt hq => ?_
  have hclient : s.turnkey c = s.turnkey d := by
    have hck := (List.mem_filter.1 hc).2
    have hdk := (List.mem_filter.1 hd).2
    simp only [decide_eq_true_eq] at hck hdk
    rw [hck, hdk]
  obtain ⟨o, ho⟩ := tied.ended (isWaiting_eq_false.1 (of_decide_eq_true hq)) hlt hclient
  rw [ho]
  rfl

end Order

section Progress

variable {s s' : State K T E} {e : Event K T E} {es : List (Event K T E)} {c : ℕ}

/-- How many reactions a call has left, at most. -/
def State.left (s : State K T E) (c : ℕ) : ℕ :=
  (s.callback c).isWaiting.toNat + (s.turn c).isPending.toNat + (s.tail c).isPending.toNat

def State.potential (s : State K T E) : ℕ := ∑ c ∈ Finset.range s.calls, s.left c

theorem potential_le (s : State K T E) : s.potential ≤ 3 * s.calls := by
  have hleft : ∀ c ∈ Finset.range s.calls, s.left c ≤ 3 := by
    intro c _
    have hw := Bool.toNat_le (s.callback c).isWaiting
    have hp := Bool.toNat_le (s.turn c).isPending
    have ht := Bool.toNat_le (s.tail c).isPending
    unfold State.left
    omega
  have hsum := Finset.sum_le_card_nsmul _ _ 3 hleft
  rw [Finset.card_range, Nat.nsmul_eq_mul, Nat.mul_comm] at hsum
  exact hsum

/-- A step that takes from one call and leaves the others. -/
theorem potential_lt (hcalls : s'.calls = s.calls) (hc : c < s.calls) (hlt : s'.left c < s.left c)
    (hsame : ∀ d, d ≠ c → s'.left d = s.left d) : s'.potential < s.potential := by
  rw [State.potential, State.potential, hcalls]
  refine Finset.sum_lt_sum (fun d _ => ?_) ⟨c, Finset.mem_range.2 hc, hlt⟩
  by_cases h : d = c
  · exact (h ▸ hlt).le
  · exact (hsame d h).le

variable [DecidableEq K]

/-- Once its earlier calls have ended and the reactions have run, a call has started. -/
theorem Tied.started_of_quiet (tied : Tied s) (quiet : Quiet s) (hc : c < s.calls)
    (hended : ∀ d < c, s.turnkey d = s.turnkey c → Ended s d) : s.callback c ≠ .waiting := by
  intro hwaiting
  have hturn : s.turn c = .pending := by
    by_contra hturn
    obtain ⟨o, ho, -⟩ := tied.turn c hturn
    rw [hwaiting] at ho
    cases ho
  refine quiet (.started c) _ rfl (.started hc hwaiting hturn ?_)
  cases hp : s.earlier c with
  | none => rw [State.before, hp]
  | some p =>
    rw [State.before_of_some hp]
    obtain ⟨hpc, hclient⟩ := tied.earlier c hc p hp
    obtain ⟨o, ho⟩ := hended p hpc hclient
    have hpmade := hpc.trans hc
    have hpturn : s.turn p ≠ .pending := fun h => quiet (.settled p) _ rfl (.settled hpmade ho h)
    have hptail : s.tail p ≠ .pending := fun h => quiet (.released p) _ rfl (.released hpmade hpturn h)
    exact (tied.tail p hptail).1

theorem Tied.turn_of_quiet (tied : Tied s) (quiet : Quiet s) (hc : c < s.calls) {outcome : Except E T}
    (hended : s.callback c = .ended outcome) : s.turn c = .of outcome := by
  obtain ⟨o, ho, hturn⟩ := tied.turn c fun h => quiet (.settled c) _ rfl (.settled hc hended h)
  rw [hended] at ho
  obtain rfl := Callback.ended.inj ho
  exact hturn

/-- Every reaction leaves fewer. -/
theorem potential_step (h : Step s e s') (hreaction : e.isReaction = true) :
    s'.calls = s.calls ∧ s'.potential < s.potential := by
  cases h with
  | called => cases hreaction
  | ended => cases hreaction
  | @started c made waiting =>
    refine ⟨rfl, potential_lt rfl made ?_ fun d hd => ?_⟩
    · simp [State.left, State.setCallback, waiting, Callback.isWaiting]
    · simp [State.left, State.setCallback, Function.update_of_ne hd]
  | @passedOn c reason made waiting turn =>
    refine ⟨rfl, potential_lt rfl made ?_ fun d hd => ?_⟩
    · simp [State.left, State.setTurn, turn, Promise.isPending]
    · simp [State.left, State.setTurn, Function.update_of_ne hd]
  | @settled c outcome made ended turn =>
    refine ⟨rfl, potential_lt rfl made ?_ fun d hd => ?_⟩
    · have hold := Promise.isPending_eq_true.2 turn
      have hnew := Promise.isPending_eq_false.2 (Promise.of_ne_pending outcome)
      simp [State.left, State.setTurn, hold, hnew]
    · simp [State.left, State.setTurn, Function.update_of_ne hd]
  | @released c made turn tail =>
    refine ⟨rfl, potential_lt rfl made ?_ fun d hd => ?_⟩
    · simp [State.left, State.setTail, tail, Promise.andThen_const turn, Promise.isPending]
    · simp [State.left, State.setTail, Function.update_of_ne hd]

theorem length_add_potential_le (run : Run Step s es s') (h : ∀ e ∈ es, e.isReaction = true) :
    es.length + s'.potential ≤ s.potential := by
  induction run with
  | nil => exact (Nat.zero_add _).le
  | cons hstep _ ih =>
    obtain ⟨he, hes⟩ := List.forall_mem_cons.1 h
    obtain ⟨-, hlt⟩ := potential_step hstep he
    have hrest := ih hes
    rw [List.length_cons]
    omega

end Progress

/-- The calls on each Turnkey client are serialized after every run. -/
theorem serialized_of_run [DecidableEq K] {k : K} {es : List (Event K T E)} {s : State K T E}
    (run : Run Step (.new k) es s) : Serialized es s where
  exclusive _ _ hc hd hclient := (tied_of_run run).exclusive hc hd hclient
  order j := by
    rw [(ordered_of_run run).begun j]
    exact begunOn_prefix (tied_of_run run) j
  outcome := (tied_of_run run).turn
  advances quiet _ hc :=
    ⟨(tied_of_run run).started_of_quiet quiet hc, fun _ => (tied_of_run run).turn_of_quiet quiet hc⟩
  drains _ _ run' hreaction := by
    have hle := length_add_potential_le run' hreaction
    have hmax := potential_le s
    omega

/-- Two calls, the first of which fails. -/
def failing : List (Event ℕ ℕ String) :=
  [.called 0, .called 0, .started 0, .ended 0 (.error "rejected"), .settled 0, .released 0, .started 1]

/-- The second call runs after the first has failed. -/
theorem serialized_of_run_failing :
    ∃ s, Run Step (.new 0) failing s ∧ Serialized failing s ∧ s.callback 1 = .running := by
  have run : Run Step (.new 0) failing _ :=
    .cons .called <| .cons .called <| .cons (.started (by decide) rfl rfl rfl) <|
      .cons (.ended rfl) <| .cons (.settled (by decide) rfl rfl) <|
      .cons (.released (by decide) (by nofun) rfl) <| .single (.started (by decide) rfl rfl rfl)
  exact ⟨_, run, serialized_of_run run, rfl⟩

end ApiKeySignatures

end ZolanaTvc.Wallet
