import ZolanaTvc.Gateway.BootProof

/-!
# One lookup at a time

## Main results

* `BootProofs.singleFlight`: whatever the order of the callers' steps, a key is looked up by one caller
  at a time, and every caller is answered from its own key's lookups, from the cache, or by its own
  refusal.
* `BootProofs.one_lookup`: a cached key is not looked up again, if no flight is taken out while another
  caller is between the cache and the flights.
-/

namespace ZolanaTvc.Gateway

open Protocol

namespace BootProofs

variable {b b' : BootProofs} {i j n : ℕ} {stage : Stage} {e : ℕ × Action} {a : Action}
  {es : List (ℕ × Action)} {answer : Answer}

/-- Where an answer comes from, after the steps `es`. -/
inductive Explained (es : List (ℕ × Action)) (b : BootProofs) (i : ℕ) : Answer → Prop where
  /-- The caller's text is not an ephemeral key. -/
  | malformed (h : isLowerHex (b.key i) EPHEMERAL_KEY_HEX_LEN = false) :
      Explained es b i (.error .invalidEnclaveAnswer)
  /-- The caller read the proof of its key from the cache. -/
  | cached {n : ℕ} {body : Bytes} (h : (i, .hit body) ∈ es) (started : n < b.started)
      (key : (b.lookups n).ephemeralKey = b.key i)
      (outcome : (b.lookups n).outcome = some (.ok body)) : Explained es b i (.ok body)
  /-- The caller itself was refused a slot. -/
  | refused (h : (i, .refused) ∈ es) : Explained es b i (.error .tooManyInFlight)
  /-- The caller read the flight of the lookup from the map, or put it there. -/
  | lookup {n : ℕ} {answer : Answer} (h : (i, .join n) ∈ es ∨ (i, .insert n) ∈ es)
      (started : n < b.started) (key : (b.lookups n).ephemeralKey = b.key i)
      (outcome : (b.lookups n).outcome = some answer) : Explained es b i answer

/-- The steps that brought the callers where they are. -/
structure Traced (es : List (ℕ × Action)) (b : BootProofs) : Prop where
  waiting : ∀ i n, b.stage i = .waiting n → (i, .join n) ∈ es
  sender : ∀ i n, (b.stage i).sender = some n → (i, .insert n) ∈ es
  answered : ∀ i answer, b.stage i = .answered answer → Explained es b i answer

/-- Another caller's step. -/
theorem step_other (h : Step b (i, a) b') (hj : j ≠ i) :
    b'.stage j = b.stage j ∧ b'.key j = b.key j := by
  cases h with
  | call ephemeralKey h =>
    exact ⟨by rw [moveTo_stage, if_neg hj], Function.update_of_ne hj _ _⟩
  | @store i n answer h =>
    cases answer <;> exact ⟨moveTo_stage.trans (if_neg hj), rfl⟩
  | insert | fetch | send | close => exact ⟨by rw [moveTo_stage, if_neg hj]; rfl, rfl⟩
  | land | leaveLookup =>
    exact ⟨by rw [moveTo_stage, if_neg hj, landing_stage], by rw [moveTo_key, landing_key]⟩
  | _ => exact ⟨by rw [moveTo_stage, if_neg hj], rfl⟩

/-- What a lookup was made for never changes, nor what Turnkey answered. -/
theorem step_lookups (told : b.Told) (h : Step b e b') (hn : n < b.started) :
    n < b'.started ∧ (b'.lookups n).ephemeralKey = (b.lookups n).ephemeralKey ∧
      ∀ answer, (b.lookups n).outcome = some answer → (b'.lookups n).outcome = some answer := by
  -- Whoever writes to a lookup keeps its key and an outcome that is there.
  have set : ∀ {m : ℕ} {lookup : Lookup}, lookup.ephemeralKey = (b.lookups m).ephemeralKey →
      (∀ answer, (b.lookups m).outcome = some answer → lookup.outcome = some answer) →
      ((b.setLookup m lookup).lookups n).ephemeralKey = (b.lookups n).ephemeralKey ∧
      ∀ answer, (b.lookups n).outcome = some answer →
        ((b.setLookup m lookup).lookups n).outcome = some answer := by
    intro m lookup hkey houtcome
    rw [setLookup_lookups]
    by_cases hnm : n = m
    · rw [if_pos hnm, hnm]
      exact ⟨hkey, houtcome⟩
    · rw [if_neg hnm]
      exact ⟨rfl, fun _ h => h⟩
  cases h with
  -- A new lookup has a new number.
  | insert h flight =>
    refine ⟨Nat.lt_succ_of_lt hn, ?_⟩
    show ((b.setLookup b.started _).lookups n).ephemeralKey = _ ∧ ∀ answer, _ →
      ((b.setLookup b.started _).lookups n).outcome = some answer
    rw [setLookup_lookups, if_neg hn.ne]
    exact ⟨rfl, fun _ h => h⟩
  -- The outcome is written once: whoever asks Turnkey has none yet.
  | @fetch i m answer h =>
    refine ⟨hn, set rfl ?_⟩
    intro a ha
    rw [told.looking i m h] at ha
    cases ha
  | @store i m answer h =>
    cases answer <;> exact ⟨hn, rfl, fun _ h => h⟩
  | send h => exact ⟨hn, set rfl fun _ h => h⟩
  | land | leaveLookup =>
    rw [moveTo_started, landing_started, moveTo_lookups, landing_lookups]
    exact ⟨hn, rfl, fun _ h => h⟩
  | close h => exact ⟨hn, set rfl fun _ h => h⟩
  | _ => exact ⟨hn, rfl, fun _ h => h⟩

theorem Explained.step (explained : Explained es b i answer) (told : b.Told) (h : Step b e b')
    (hkey : b'.key i = b.key i) : Explained (es ++ [e]) b' i answer := by
  cases explained with
  | malformed hmalformed => exact .malformed (hkey ▸ hmalformed)
  | @cached n body hes hn hlookup houtcome =>
    obtain ⟨hn, hsame, hgrows⟩ := step_lookups told h hn
    exact .cached (List.mem_append_left _ hes) hn (hsame.trans (hlookup.trans hkey.symm))
      (hgrows _ houtcome)
  | refused hes => exact .refused (List.mem_append_left _ hes)
  | @lookup n _ hes hn hlookup houtcome =>
    obtain ⟨hn, hsame, hgrows⟩ := step_lookups told h hn
    exact .lookup (hes.imp (List.mem_append_left _) (List.mem_append_left _)) hn
      (hsame.trans (hlookup.trans hkey.symm)) (hgrows _ houtcome)

/-- The steps that brought a caller where it is, after a step of its own. -/
structure TracedAt (es : List (ℕ × Action)) (b : BootProofs) (i : ℕ) : Prop where
  waiting : ∀ n, b.stage i = .waiting n → (i, .join n) ∈ es
  sender : ∀ n, (b.stage i).sender = some n → (i, .insert n) ∈ es
  answered : ∀ answer, b.stage i = .answered answer → Explained es b i answer

/-- A caller that is neither waiting, nor looking up, nor answered. -/
theorem TracedAt.aside (hsender : (b.stage i).sender = none) (hwaiting : ∀ n, b.stage i ≠ .waiting n)
    (hanswered : ∀ answer, b.stage i ≠ .answered answer) : TracedAt es b i := by
  refine ⟨fun n h => absurd h (hwaiting n), ?_, fun answer h => absurd h (hanswered answer)⟩
  intro n h
  rw [hsender] at h
  cases h

/-- A caller that takes its lookup one stage further. -/
theorem TracedAt.onward (traced : Traced es b) (hold : (b.stage i).sender = some n)
    (hnew : (b'.stage i).sender = some n) : TracedAt (es ++ [e]) b' i := by
  refine ⟨?_, ?_, ?_⟩
  · intro m h
    rw [h] at hnew
    cases hnew
  · intro m h
    obtain rfl := Option.some.inj (hnew.symm.trans h)
    exact List.mem_append_left _ (traced.sender i n hold)
  · intro answer h
    rw [h] at hnew
    cases hnew

theorem TracedAt.told (hstage : b.stage i = .answered answer) (h : Explained es b i answer) :
    TracedAt es b i := by
  refine ⟨?_, ?_, ?_⟩
  · intro n hn
    rw [hstage] at hn
    cases hn
  · intro n hn
    rw [hstage] at hn
    cases hn
  · intro a ha
    obtain rfl := Stage.answered.inj (hstage.symm.trans ha)
    exact h

theorem Traced.own (traced : Traced es b) (told : b.Told) (owned : b.Owned) (h : Step b (i, a) b') :
    TracedAt (es ++ [(i, a)]) b' i := by
  have last : (i, a) ∈ es ++ [(i, a)] := by simp
  have here : ∀ {b : BootProofs} {stage : Stage}, (b.moveTo i stage).stage i = stage := by simp
  cases h with
  | call ephemeralKey h =>
    by_cases hkey : isLowerHex ephemeralKey EPHEMERAL_KEY_HEX_LEN
    · rw [if_pos hkey]
      exact .aside (by rw [here]; rfl) (by simp) (by simp)
    · rw [if_neg hkey]
      refine .told here (.malformed ?_)
      simpa using hkey
  | miss | pass | abandoned | permit | yield | leaveFlight =>
    exact .aside (by rw [here]; rfl) (by simp) (by simp)
  -- A hit goes by an earlier lookup of the same key.
  | hit h cached =>
    obtain ⟨n, hn, hkey, houtcome⟩ := told.cached _ _ cached
    exact .told here (.cached last hn hkey houtcome)
  | @join i n h flight =>
    refine ⟨?_, ?_, ?_⟩
    · intro m hm
      rw [here] at hm
      obtain rfl := Stage.waiting.inj hm
      exact last
    · intro m hm
      rw [here] at hm
      cases hm
    · intro m hm
      rw [here] at hm
      cases hm
  -- Whoever joined a lookup is told its outcome.
  | @hear i n answer h sent =>
    obtain ⟨hn, hkey⟩ := told.waiting i n h
    exact .told here (.lookup (.inl (List.mem_append_left _ (traced.waiting i n h))) hn hkey
      (told.sent n answer hn sent))
  | refused h => exact .told here (.refused last)
  | insert h flight =>
    refine ⟨?_, ?_, ?_⟩
    · intro m hm
      rw [here] at hm
      cases hm
    · intro m hm
      rw [here] at hm
      obtain rfl := Option.some.inj hm
      exact last
    · intro m hm
      rw [here] at hm
      cases hm
  | fetch answer h | send h | land h | leaveLookup h =>
    exact .onward traced (by rw [h]; rfl) (by rw [here]; rfl)
  | store h => exact .onward traced (by rw [h]; rfl) (by rw [here]; rfl)
  -- Whoever made a lookup and ends it goes by its own outcome.
  | @close i n answer h =>
    cases answer with
    | none => exact .aside (by rw [here]; rfl) (by simp) (by simp)
    | some answer =>
      have hsender : (b.stage i).sender = some n := by rw [h]; rfl
      obtain ⟨hn, -, hkey⟩ := owned.sender i n hsender
      have houtcome := told.outcome i n answer hsender (by rw [h]; rfl)
      refine .told here (.lookup (.inr (List.mem_append_left _ (traced.sender i n hsender))) hn ?_ ?_)
      · rw [moveTo_lookups, setLookup_lookups, if_pos rfl]
        exact hkey
      · rw [moveTo_lookups, setLookup_lookups, if_pos rfl]
        exact houtcome

theorem Traced.step (traced : Traced es b) (told : b.Told) (owned : b.Owned) (h : Step b e b') :
    Traced (es ++ [e]) b' := by
  obtain ⟨i, a⟩ := e
  have own := traced.own told owned h
  refine ⟨?_, ?_, ?_⟩
  · intro j n hj
    by_cases hji : j = i
    · subst hji
      exact own.waiting n hj
    · rw [(step_other h hji).1] at hj
      exact List.mem_append_left _ (traced.waiting j n hj)
  · intro j n hj
    by_cases hji : j = i
    · subst hji
      exact own.sender n hj
    · rw [(step_other h hji).1] at hj
      exact List.mem_append_left _ (traced.sender j n hj)
  · intro j answer hj
    by_cases hji : j = i
    · subst hji
      exact own.answered answer hj
    · rw [(step_other h hji).1] at hj
      exact (traced.answered j answer hj).step told h (step_other h hji).2

theorem Traced.new : Traced [] BootProofs.new := by
  refine ⟨?_, ?_, ?_⟩
  · intro i n h
    cases h
  · intro i n h
    cases h
  · intro i answer h
    cases h

/-- What holds of the callers after the steps `es`. -/
structure SingleFlight (es : List (ℕ × Action)) (b : BootProofs) : Prop where
  /-- At most one lookup of a key is in flight. -/
  single : ∀ i j n m, (b.stage i).guard = some n → (b.stage j).guard = some m →
    b.key i = b.key j → i = j
  /-- The end of a lookup takes out its own flight, and nothing else. -/
  ends : ∀ i a n b', (b.stage i).guard = some n → Step b (i, a) b' → (b'.stage i).guard = none →
    b.flights.lookup (b.key i) = some n ∧
      ∀ key, b'.flights.lookup key = if key = b.key i then none else b.flights.lookup key
  /-- No flight outlives its lookup. -/
  outlives : ∀ key n, b.flights.lookup key = some n →
    ∃ i, b.key i = key ∧ (b.stage i).guard = some n
  answers : ∀ i answer, b.stage i = .answered answer → Explained es b i answer
  /-- What the cache holds is what Turnkey answered to a lookup of the key. -/
  cached : ∀ key body, b.cache.lookup key = some body →
    ∃ n < b.started, (b.lookups n).ephemeralKey = key ∧ (b.lookups n).outcome = some (.ok body)
  /-- A caller waits for a lookup of its key that another caller makes, unless its channel closed. -/
  waits : ∀ i n, b.stage i = .waiting n → (b.lookups n).live = true →
    ∃ j, b.key j = b.key i ∧ (b.stage j).sender = some n
  /-- When an abandoned lookup's channel closed, its flight is gone. -/
  gone : ∀ i n b', b.stage i = .waiting n → Step b (i, .abandoned) b' →
    ∀ key, b'.flights.lookup key ≠ some n

theorem Owned.ends {b' : BootProofs} (owned : b.Owned) (hguard : (b.stage i).guard = some n)
    (h : Step b (i, a) b') (hend : (b'.stage i).guard = none) (key : String) :
    b'.flights.lookup key = if key = b.key i then none else b.flights.lookup key := by
  have hland : ∀ {stage : Stage}, (((b.landing n (b.key i)).moveTo i stage).flights).lookup key =
      if key = b.key i then none else b.flights.lookup key := by
    intro stage
    rw [moveTo_flights, owned.landing_flights hguard]
    exact Table.lookup_erase_eq
  cases h with
  | land h | leaveLookup h =>
    rw [h] at hguard
    obtain rfl := Option.some.inj hguard
    exact hland
  | insert h | fetch _ h | send h =>
    rw [moveTo_stage, if_pos rfl] at hend
    cases hend
  | store h =>
    rw [moveTo_stage, if_pos rfl] at hend
    cases hend
  | call _ h | hit h | miss h | join h | pass h | hear h | abandoned h | refused h | permit h
  | yield h | leaveFlight h | close h =>
    rw [h] at hguard
    cases hguard

/-- Whatever the order of their steps, the callers of `boot_proof` make one lookup of a key at a time,
none waits for a lookup that ended, and each is answered from a lookup or a cached proof of its own key,
or was refused a slot itself. -/
theorem singleFlight {es : List (ℕ × Action)} {b : BootProofs} (run : Run Step new es b) :
    SingleFlight es b := by
  have all : b.Owned ∧ b.Told ∧ Traced es b := by
    refine run.history (I := fun es b => b.Owned ∧ b.Told ∧ Traced es b) ⟨.new, .new, .new⟩ ?_
    rintro es b e b' - ⟨owned, told, traced⟩ h
    exact ⟨owned.step h, told.step owned h, traced.step told owned h⟩
  obtain ⟨owned, told, traced⟩ := all
  refine ⟨?_, ?_, owned.flight, traced.answered, told.cached, ?_, ?_⟩
  · intro i j n m hi hj hkey
    have hn := owned.guard i n hi
    rw [hkey, owned.guard j m hj] at hn
    obtain rfl := Option.some.inj hn
    exact owned.distinct i j m (Stage.sender_of_guard hi) (Stage.sender_of_guard hj)
  · intro i a n b' hguard h hend
    exact ⟨owned.guard i n hguard, owned.ends hguard h hend⟩
  · intro i n hwaiting hlive
    obtain ⟨hn, hkey⟩ := told.waiting i n hwaiting
    obtain ⟨j, hj⟩ := owned.live n hn hlive
    exact ⟨j, (owned.sender j n hj).2.2.symm.trans hkey, hj⟩
  · intro i n b' hwaiting h key hflight
    cases h with
    | @abandoned _ m h sent live =>
      obtain rfl := Stage.waiting.inj (hwaiting.symm.trans h)
      obtain ⟨j, -, hguard⟩ := owned.flight key n hflight
      rw [(owned.sender j n (Stage.sender_of_guard hguard)).2.1] at live
      cases live

end BootProofs

/-- The caller read the cache and may start a lookup. -/
def Stage.starting : Stage → Bool
  | .missed | .alone | .permitted => true
  | _ => false

namespace BootProofs

variable {b b' : BootProofs} {i j n m : ℕ} {stage : Stage} {e : ℕ × Action}
  {es : List (ℕ × Action)} {key : String}

/-- The step empties the cache before it stores another proof. -/
def Clears (b : BootProofs) (e : ℕ × Action) : Prop :=
  e.2 = .store ∧ BOOT_PROOF_CACHE_CAPACITY ≤ b.cache.size ∧
    ∃ n body, b.stage e.1 = .fetched n (.ok body)

/-- When a flight of a key with a cached proof is taken out, no caller of that key is on its way from
the cache to a lookup. -/
def Settled (b : BootProofs) (e : ℕ × Action) : Prop :=
  e.2 = .land → b.cache.lookup (b.key e.1) ≠ none →
    ∀ j, b.key j = b.key e.1 → (b.stage j).starting = false

/-- A caller holds the flight of the key whose proof it stored. -/
def Stored (b : BootProofs) (key : String) : Prop :=
  ∃ i n body, b.key i = key ∧ (b.stage i = .cached n (.ok body) ∨ b.stage i = .sent n (.ok body))

/-- While a proof of the key is cached, its flight is there or no caller is about to start a lookup. -/
def Quiet (b : BootProofs) (key : String) : Prop :=
  b.cache.lookup key ≠ none → Stored b key ∨ ∀ j, b.key j = key → (b.stage j).starting = false

theorem Stored.guard (stored : b.Stored key) : ∃ i n, b.key i = key ∧ (b.stage i).guard = some n := by
  obtain ⟨i, n, body, hkey, h | h⟩ := stored
  · exact ⟨i, n, hkey, by rw [h]; rfl⟩
  · exact ⟨i, n, hkey, by rw [h]; rfl⟩

/-- A proof that is cached stays until the cache is cleared. -/
theorem cached_step (h : Step b e b') (hclears : ¬ b.Clears e) (hcached : b.cache.lookup key ≠ none) :
    b'.cache.lookup key ≠ none := by
  cases h with
  | @store i n answer h =>
    cases answer with
    | ok body =>
      have hroom : ¬ BOOT_PROOF_CACHE_CAPACITY ≤ b.cache.size := fun hfull =>
        hclears ⟨rfl, hfull, n, body, h⟩
      show ((if BOOT_PROOF_CACHE_CAPACITY ≤ b.cache.size then ∅ else b.cache).insert (b.key i)
        body).lookup key ≠ none
      rw [if_neg hroom, Table.lookup_insert_eq]
      split_ifs
      · simp
      · exact hcached
    | error => exact hcached
  | land | leaveLookup =>
    rw [moveTo_cache, landing_cache]
    exact hcached
  | _ => exact hcached

/-- A caller that moves on without starting a lookup. -/
theorem Quiet.move (quiet : b.Quiet key) (hstarting : stage.starting = false)
    (hstored : ∀ n body, b.stage i ≠ .cached n (.ok body) ∧ b.stage i ≠ .sent n (.ok body)) :
    (b.moveTo i stage).Quiet key := by
  intro hcached
  refine (quiet hcached).imp ?_ ?_
  · rintro ⟨j, n, body, hkey, hj⟩
    have hji : j ≠ i := by
      rintro rfl
      exact hj.elim (hstored n body).1 (hstored n body).2
    exact ⟨j, n, body, hkey, by rw [moveTo_stage, if_neg hji]; exact hj⟩
  · intro hnone j hkey
    rw [moveTo_stage]
    split_ifs
    · exact hstarting
    · exact hnone j hkey

/-- A caller on its way to a lookup moves on. -/
theorem Quiet.start (quiet : b.Quiet key) (h : (b.stage i).starting = true) :
    (b.moveTo i stage).Quiet key := by
  intro hcached
  refine (quiet hcached).imp ?_ ?_
  · rintro ⟨j, n, body, hkey, hj⟩
    have hji : j ≠ i := by
      rintro rfl
      obtain hj | hj := hj <;> rw [hj] at h <;> cases h
    exact ⟨j, n, body, hkey, by rw [moveTo_stage, if_neg hji]; exact hj⟩
  · intro hnone j hkey
    have hji : j ≠ i := by
      rintro rfl
      rw [hnone j hkey] at h
      cases h
    rw [moveTo_stage, if_neg hji]
    exact hnone j hkey

theorem Quiet.call {ephemeralKey : String} (quiet : b.Quiet key) (h : b.stage i = .idle) :
    Quiet { b with key := Function.update b.key i ephemeralKey } key := by
  intro hcached
  refine (quiet hcached).imp ?_ ?_
  · rintro ⟨j, n, body, hkey, hj⟩
    have hji : j ≠ i := by
      rintro rfl
      rw [h] at hj
      obtain hj | hj := hj <;> cases hj
    exact ⟨j, n, body, (Function.update_of_ne hji _ _).trans hkey, hj⟩
  · intro hnone j hkey
    by_cases hji : j = i
    · show (b.stage j).starting = false
      rw [hji, h]
      rfl
    · exact hnone j ((Function.update_of_ne hji _ _).symm.trans hkey)

theorem Quiet.store {body : Bytes} (quiet : b.Quiet key) (h : b.stage i = .fetched n (.ok body)) :
    ((b.cacheBootProof (b.key i) body).moveTo i (.cached n (.ok body))).Quiet key := by
  by_cases hkey : b.key i = key
  · intro _
    exact .inl ⟨i, n, body, hkey, .inl (by rw [moveTo_stage, if_pos rfl])⟩
  · have hother : (b.cacheBootProof (b.key i) body).Quiet key := by
      intro hcached
      refine quiet fun hnone => hcached ?_
      show ((if BOOT_PROOF_CACHE_CAPACITY ≤ b.cache.size then ∅ else b.cache).insert (b.key i)
        body).lookup key = none
      rw [Table.lookup_insert_eq, if_neg (Ne.symm hkey)]
      split_ifs
      · rfl
      · exact hnone
    refine hother.move rfl fun m a => ?_
    show b.stage i ≠ _ ∧ b.stage i ≠ _
    rw [h]
    simp

theorem Quiet.send {answer : Answer} (quiet : b.Quiet key) (h : b.stage i = .cached n answer) :
    (b.moveTo i (.sent n answer)).Quiet key := by
  intro hcached
  refine (quiet hcached).imp ?_ ?_
  · rintro ⟨j, m, body, hkey, hj⟩
    by_cases hji : j = i
    · subst hji
      rw [h] at hj
      obtain hj | hj := hj
      · obtain ⟨rfl, rfl⟩ := Stage.cached.inj hj
        exact ⟨j, n, body, hkey, .inr (by rw [moveTo_stage, if_pos rfl])⟩
      · cases hj
    · exact ⟨j, m, body, hkey, by rw [moveTo_stage, if_neg hji]; exact hj⟩
  · intro hnone j hkey
    rw [moveTo_stage]
    split_ifs
    · rfl
    · exact hnone j hkey

theorem Quiet.land {answer : Answer} (quiet : b.Quiet key) (settled : b.Settled (i, .land)) :
    ((b.landing n (b.key i)).moveTo i (.landed n (some answer))).Quiet key := by
  intro hcached
  rw [moveTo_cache, landing_cache] at hcached
  have hstarting : ∀ j, (b.stage j).starting = false →
      (((b.landing n (b.key i)).moveTo i (.landed n (some answer))).stage j).starting = false := by
    intro j hj
    rw [moveTo_stage, landing_stage]
    split_ifs
    · rfl
    · exact hj
  -- The flight of the key itself goes when its proof is stored; by the condition on the step nobody
  -- is then on the way to a flight of his own.
  by_cases hkey : b.key i = key
  · refine .inr fun j hj => hstarting j (settled rfl (hkey.symm ▸ hcached) j ?_)
    rw [moveTo_key, landing_key] at hj
    exact hj.trans hkey.symm
  -- The flight of another key: whoever was between the store and the landing still is.
  · refine (quiet hcached).imp ?_ ?_
    · rintro ⟨j, m, body, hj, hstage⟩
      have hji : j ≠ i := by
        rintro rfl
        exact hkey hj
      refine ⟨j, m, body, ?_, ?_⟩
      · rw [moveTo_key, landing_key]
        exact hj
      · rw [moveTo_stage, if_neg hji, landing_stage]
        exact hstage
    · intro hnone j hj
      rw [moveTo_key, landing_key] at hj
      exact hstarting j (hnone j hj)

theorem Quiet.landing {other : String} (quiet : b.Quiet key) : (b.landing n other).Quiet key := by
  rw [BootProofs.landing]
  split_ifs
  · exact quiet
  · exact quiet

theorem Quiet.step (quiet : b.Quiet key) (settled : b.Settled e) (h : Step b e b') :
    b'.Quiet key := by
  cases h with
  -- A new caller has yet to look at the cache.
  | call ephemeralKey h =>
    refine (quiet.call h).move ?_ ?_
    · split_ifs <;> rfl
    · intro n body
      show b.stage _ ≠ _ ∧ b.stage _ ≠ _
      rw [h]
      simp
  -- These steps take nobody on the way to a flight, and take nobody who is about to land.
  | hit h | join h | hear h | abandoned h | refused h | yield h | leaveFlight h | fetch _ h =>
    exact quiet.move rfl (by simp [h])
  -- The proof is stored, so that a caller of this key cannot miss it.
  | @miss i h cached =>
    intro hcached
    have hkey : b.key i ≠ key := by
      rintro rfl
      exact hcached cached
    have hother : ∀ j, b.key j = key → j ≠ i := by
      rintro j hj rfl
      exact hkey hj
    refine (quiet hcached).imp ?_ ?_
    · rintro ⟨j, n, body, hj, hstage⟩
      exact ⟨j, n, body, hj, by rw [moveTo_stage, if_neg (hother j hj)]; exact hstage⟩
    · intro hnone j hj
      rw [moveTo_stage, if_neg (hother j hj)]
      exact hnone j hj
  -- Whoever goes on to a flight had started before.
  | pass h | permit h => exact quiet.start (by rw [h]; rfl)
  | @insert i h flight =>
    have hsame : (b.insertFlight (b.key i)).Quiet key := quiet
    exact hsame.start (h ▸ rfl)
  -- The store is where the key becomes cached; its caller is then about to land.
  | @store i n answer h =>
    cases answer with
    | ok body => exact quiet.store h
    | error => exact quiet.move rfl (by simp [h])
  | @send i n answer h =>
    have hsame : (b.setLookup n { b.lookups n with sent := some answer }).Quiet key := quiet
    exact hsame.send h
  -- The landing is where the condition on the run is needed.
  | land h => exact quiet.land settled
  | @leaveLookup i n h =>
    exact quiet.landing.move rfl (by simp [h])
  -- Ending a lookup moves a caller who has landed already.
  | @close i n answer h =>
    have hsame : (b.setLookup n { b.lookups n with live := false }).Quiet key := quiet
    have hstored : ∀ m body, (b.setLookup n { b.lookups n with live := false }).stage i ≠
        .cached m (.ok body) ∧ (b.setLookup n { b.lookups n with live := false }).stage i ≠
        .sent m (.ok body) := by
      intro m body
      show b.stage i ≠ _ ∧ b.stage i ≠ _
      rw [h]
      simp
    cases answer <;> exact hsame.move rfl hstored

/-- No lookup starts while a proof of its key is cached. -/
theorem Quiet.insert_ne (quiet : b.Quiet key) (owned : b.Owned) (hcached : b.cache.lookup key ≠ none)
    (h : Step b (i, .insert n) b') : b.key i ≠ key := by
  cases h with
  | insert h flight =>
    rintro rfl
    obtain stored | hnone := quiet hcached
    · obtain ⟨j, m, hkey, hguard⟩ := stored.guard
      have hflight := owned.guard j m hguard
      rw [hkey, flight] at hflight
      cases hflight
    · have hstarting := hnone i rfl
      rw [h] at hstarting
      cases hstarting

/-- Once a proof of a key is cached, no lookup of that key starts until the cache is cleared, as long as
no flight of a cached key is taken out while another caller of the key is about to start a lookup. -/
theorem one_lookup {b₀ b₁ b₂ : BootProofs} {es₀ es : List (ℕ × Action)} {body : Bytes}
    (run₀ : Run (fun b e b' => Step b e b' ∧ b.Settled e) new es₀ b₀)
    (fetched : b₀.stage i = .fetched n (.ok body)) (store : Step b₀ (i, .store) b₁)
    (run₁ : Run (fun b e b' => Step b e b' ∧ b.Settled e ∧ ¬ b.Clears e) b₁ es b₂) (j m : ℕ)
    (b₃ : BootProofs) (start : Step b₂ (j, .insert m) b₃) : b₂.key j ≠ b₀.key i := by
  have both₀ : b₀.Owned ∧ b₀.Quiet (b₀.key i) := by
    refine run₀.invariant (I := fun b => b.Owned ∧ b.Quiet (b₀.key i)) ⟨.new, fun h => absurd rfl h⟩ ?_
    rintro b e b' - ⟨owned, quiet⟩ ⟨h, settled⟩
    exact ⟨owned.step h, quiet.step settled h⟩
  have hcached : b₁.cache.lookup (b₀.key i) ≠ none := by
    cases store with
    | store h =>
      obtain ⟨rfl, rfl⟩ := Stage.fetched.inj (fetched.symm.trans h)
      show ((if BOOT_PROOF_CACHE_CAPACITY ≤ b₀.cache.size then ∅ else b₀.cache).insert (b₀.key i)
        body).lookup (b₀.key i) ≠ none
      rw [Table.lookup_insert_eq, if_pos rfl]
      simp
  have both₁ : b₂.Owned ∧ b₂.Quiet (b₀.key i) ∧ b₂.cache.lookup (b₀.key i) ≠ none := by
    refine run₁.invariant
      (I := fun b => b.Owned ∧ b.Quiet (b₀.key i) ∧ b.cache.lookup (b₀.key i) ≠ none)
      ⟨both₀.1.step store, both₀.2.step (fun h => by cases h) store, hcached⟩ ?_
    rintro b e b' - ⟨owned, quiet, hcached⟩ ⟨h, settled, hclears⟩
    exact ⟨owned.step h, quiet.step settled h, cached_step h hclears hcached⟩
  exact both₁.2.1.insert_ne both₁.1 both₁.2.2 start

end BootProofs

namespace BootProofs

section Race

variable {b : BootProofs}

/-- A replica's key. -/
def zeroKey : String := String.ofList (List.replicate EPHEMERAL_KEY_HEX_LEN '0')

theorem isLowerHex_zeroKey : isLowerHex zeroKey EPHEMERAL_KEY_HEX_LEN = true := by
  decide +kernel

/-- A caller comes to look up `zeroKey`. -/
theorem call_zeroKey {b : BootProofs} {i : ℕ} (h : b.stage i = .idle) : Step b (i, .call zeroKey)
    ({ b with key := Function.update b.key i zeroKey }.moveTo i .looping) := by
  have hcall := Step.call zeroKey h
  rwa [if_pos isLowerHex_zeroKey] at hcall

/-- Two callers read the cache before the first one's lookup, which Turnkey has answered. -/
structure Racing (b : BootProofs) : Prop where
  first : b.stage 0 = .fetched 0 (.ok [])
  second : b.stage 1 = .missed
  firstKey : b.key 0 = zeroKey
  secondKey : b.key 1 = zeroKey
  flights : b.flights.lookup zeroKey = some 0

/-- A step that takes no flight out is settled. -/
theorem settled_of_ne {e : ℕ × Action} (h : e.2 ≠ .land) : b.Settled e :=
  fun hland => absurd hland h

/-- A step that stores nothing does not clear the cache. -/
theorem not_clears {e : ℕ × Action} (h : e.2 ≠ .store) : ¬ b.Clears e :=
  fun hclears => h hclears.1

theorem racing_run : ∃ b, Run (fun b e b' => Step b e b' ∧ b.Settled e) new
    [(0, .call zeroKey), (0, .miss), (1, .call zeroKey), (1, .miss), (0, .pass), (0, .permit),
      (0, .insert 0), (0, .fetch (.ok []))] b ∧ b.Racing ∧ ∀ j, 2 ≤ j → b.stage j = .idle := by
  refine ⟨_, .cons ⟨call_zeroKey rfl, settled_of_ne (by simp)⟩
    (.cons ⟨.miss rfl rfl, settled_of_ne (by simp)⟩
    (.cons ⟨call_zeroKey rfl, settled_of_ne (by simp)⟩
    (.cons ⟨.miss rfl rfl, settled_of_ne (by simp)⟩
    (.cons ⟨.pass rfl rfl, settled_of_ne (by simp)⟩
    (.cons ⟨.permit rfl, settled_of_ne (by simp)⟩
    (.cons ⟨.insert rfl rfl, settled_of_ne (by simp)⟩
    (.cons ⟨.fetch (n := 0) (.ok []) rfl, settled_of_ne (by simp)⟩ (.nil _)))))))), ?_⟩
  refine ⟨⟨rfl, rfl, rfl, rfl, AList.lookup_insert _⟩, ?_⟩
  intro j hj
  have hfirst : j ≠ 0 := by omega
  have hsecond : j ≠ 1 := by omega
  simp only [moveTo_stage, hfirst, if_false]
  simp [insertFlight, setLookup, hfirst, hsecond, BootProofs.new]

/-- A caller whose lookup Turnkey answered stores the proof, sends it and takes out its flight. -/
theorem stored_landed (first : b.stage 0 = .fetched 0 (.ok []))
    (flight : b.flights.lookup (b.key 0) = some 0) : ∃ b₁ b₂ b₃, Step b (0, .store) b₁ ∧
      Step b₁ (0, .send) b₂ ∧ Step b₂ (0, .land) b₃ ∧ b₂.stage 0 = .sent 0 (.ok []) ∧
      (∀ j, j ≠ 0 → b₂.stage j = b.stage j ∧ b₃.stage j = b.stage j) ∧
      b₂.key = b.key ∧ b₃.key = b.key ∧ b₃.flights.lookup (b.key 0) = none ∧
      b₃.cache.lookup (b.key 0) = some [] := by
  have store : Step b (0, .store) ((b.cacheBootProof (b.key 0) []).moveTo 0 (.cached 0 (.ok []))) :=
    .store first
  have hcache : ((b.cacheBootProof (b.key 0) []).moveTo 0 (.cached 0 (.ok []))).cache.lookup (b.key 0) =
      some [] := AList.lookup_insert _
  -- Each state is named once its fields are known, so that the next step is taken from a variable.
  generalize hb₁ : (b.cacheBootProof (b.key 0) []).moveTo 0 (.cached 0 (.ok [])) = b₁ at store hcache
  have first₁ : b₁.stage 0 = .cached 0 (.ok []) := by rw [← hb₁, moveTo_stage, if_pos rfl]
  have others₁ : ∀ j, j ≠ 0 → b₁.stage j = b.stage j := by
    intro j hj
    rw [← hb₁, moveTo_stage, if_neg hj]
    rfl
  have keys₁ : b₁.key = b.key := by rw [← hb₁]; rfl
  have flights₁ : b₁.flights = b.flights := by rw [← hb₁]; rfl
  have send := Step.send first₁
  have cache₂ : ((b₁.setLookup 0 { b₁.lookups 0 with sent := some (.ok []) }).moveTo 0
      (.sent 0 (.ok []))).cache = b₁.cache := rfl
  generalize hb₂ : (b₁.setLookup 0 _).moveTo 0 (.sent 0 (.ok [])) = b₂ at send cache₂
  have first₂ : b₂.stage 0 = .sent 0 (.ok []) := by rw [← hb₂, moveTo_stage, if_pos rfl]
  have others₂ : ∀ j, j ≠ 0 → b₂.stage j = b.stage j := by
    intro j hj
    rw [← hb₂, moveTo_stage, if_neg hj]
    exact others₁ j hj
  have keys₂ : b₂.key = b.key := by rw [← hb₂]; exact keys₁
  have flights₂ : b₂.flights.lookup (b₂.key 0) = some 0 := by
    rw [keys₂, ← hb₂]
    exact flights₁ ▸ flight
  refine ⟨b₁, b₂, _, store, send, .land first₂, first₂, ?_, keys₂, ?_, ?_, ?_⟩
  · intro j hj
    rw [moveTo_stage, if_neg hj, landing_stage]
    exact ⟨others₂ j hj, others₂ j hj⟩
  · rw [moveTo_key, landing_key, keys₂]
  · rw [moveTo_flights, landing, if_pos flights₂, keys₂]
    exact AList.lookup_erase _ _
  · rw [moveTo_cache, landing_cache, cache₂]
    exact hcache

/-- The first caller stores the proof and takes out its flight; the second one then finds no flight. -/
theorem Racing.again (racing : b.Racing) : ∃ b₁ es b₂ b₃, Step b (0, .store) b₁ ∧
    Run (fun b e b' => Step b e b' ∧ ¬ b.Clears e) b₁ es b₂ ∧ Step b₂ (1, .insert b₂.started) b₃ ∧
    b₂.key 1 = b.key 0 := by
  have hflight : b.flights.lookup (b.key 0) = some 0 := racing.firstKey ▸ racing.flights
  obtain ⟨b₁, b₂, b₃, store, send, land, -, others, -, keys₃, flights₃, -⟩ :=
    stored_landed racing.first hflight
  have second₃ : b₃.stage 1 = .missed := (others 1 (by decide)).2.trans racing.second
  have same₃ : b₃.key 1 = b.key 0 := by rw [keys₃, racing.secondKey, racing.firstKey]
  have hnone : b₃.flights.lookup (b₃.key 1) = none := same₃ ▸ flights₃
  have pass := Step.pass second₃ hnone
  have permit := Step.permit (b := b₃.moveTo 1 .alone) (i := 1) (by rw [moveTo_stage, if_pos rfl])
  have insert := Step.insert (b := (b₃.moveTo 1 .alone).moveTo 1 .permitted) (i := 1)
    (by rw [moveTo_stage, if_pos rfl]) hnone
  exact ⟨b₁, _, _, _, store, .cons ⟨send, not_clears (by simp)⟩ (.cons ⟨land, not_clears (by simp)⟩
    (.cons ⟨pass, not_clears (by simp)⟩ (.cons ⟨permit, not_clears (by simp)⟩ (.nil _)))), insert, same₃⟩

/-- A lookup of a key starts although a proof of the key is cached. -/
theorem lookup_again : ¬ ∀ (es₀ es : List (ℕ × Action)) (b₀ b₁ b₂ b₃ : BootProofs) (i j n m : ℕ)
    (body : Bytes), Run Step new es₀ b₀ → b₀.stage i = .fetched n (.ok body) →
    Step b₀ (i, .store) b₁ → Run (fun b e b' => Step b e b' ∧ ¬ b.Clears e) b₁ es b₂ →
    Step b₂ (j, .insert m) b₃ → b₂.key j ≠ b₀.key i := by
  intro h
  obtain ⟨b₀, run₀, racing, -⟩ := racing_run
  obtain ⟨b₁, es, b₂, b₃, store, run₁, start, hkey⟩ := racing.again
  exact h _ es b₀ b₁ b₂ b₃ 0 1 0 _ [] (run₀.mono fun _ _ _ h => h.1) racing.first store run₁ start hkey

/-- A second caller joins the flight before the first one stores the proof; when the flight is taken
out it is still waiting, and a third caller then finds the proof. -/
theorem one_lookup_joined : ∃ es b₀ b₁ b₂,
    Run (fun b e b' => Step b e b' ∧ b.Settled e) new es b₀ ∧ b₀.stage 0 = .fetched 0 (.ok []) ∧
    b₀.stage 1 = .waiting 0 ∧ b₀.key 1 = b₀.key 0 ∧ Step b₀ (0, .store) b₁ ∧
    Run (fun b e b' => Step b e b' ∧ b.Settled e ∧ ¬ b.Clears e) b₁
      [(0, .send), (0, .land), (2, .call zeroKey), (2, .hit [])] b₂ ∧
    b₂.flights.lookup (b₀.key 0) = none ∧
    ∀ j m b₃, Step b₂ (j, .insert m) b₃ → b₂.key j ≠ b₀.key 0 := by
  obtain ⟨b, run, racing, idle⟩ := racing_run
  have hjoin : b.flights.lookup (b.key 1) = some 0 := racing.secondKey ▸ racing.flights
  have join := Step.join racing.second hjoin
  have run₀ := run.append (.single ⟨join, settled_of_ne (by simp)⟩)
  have first₀ : (b.moveTo 1 (.waiting 0)).stage 0 = .fetched 0 (.ok []) := by
    rw [moveTo_stage, if_neg (by decide)]
    exact racing.first
  have second₀ : (b.moveTo 1 (.waiting 0)).stage 1 = .waiting 0 := by rw [moveTo_stage, if_pos rfl]
  have hflight : (b.moveTo 1 (.waiting 0)).flights.lookup ((b.moveTo 1 (.waiting 0)).key 0) = some 0 :=
    racing.firstKey ▸ racing.flights
  have idle₀ : ∀ j, 2 ≤ j → (b.moveTo 1 (.waiting 0)).stage j = .idle := by
    intro j hj
    rw [moveTo_stage, if_neg (by omega)]
    exact idle j hj
  have hzero : (b.moveTo 1 (.waiting 0)).key 0 = zeroKey := racing.firstKey
  have hone : (b.moveTo 1 (.waiting 0)).key 1 = zeroKey := racing.secondKey
  generalize b.moveTo 1 (.waiting 0) = b₀ at *
  obtain ⟨b₁, b₂, b₃, store, send, land, first₂, others, keys₂, keys₃, flights₃, cache₃⟩ :=
    stored_landed first₀ hflight
  -- The second caller waits, and nobody else came.
  have settled : b₂.Settled (0, .land) := by
    intro _ _ j _
    obtain rfl | rfl | hj : j = 0 ∨ j = 1 ∨ 2 ≤ j := by omega
    · rw [first₂]
      rfl
    · rw [(others 1 (by decide)).1, second₀]
      rfl
    · rw [(others j (by omega)).1, idle₀ j hj]
      rfl
  have third : b₃.stage 2 = .idle := (others 2 (by decide)).2.trans (idle₀ 2 le_rfl)
  have call := call_zeroKey third
  have looping : ({ b₃ with key := Function.update b₃.key 2 zeroKey }.moveTo 2 .looping).stage 2 =
      .looping := by rw [moveTo_stage, if_pos rfl]
  have cached : b₃.cache.lookup (Function.update b₃.key 2 zeroKey 2) = some [] := by
    rw [Function.update_self, ← hzero]
    exact cache₃
  have hit := Step.hit looping cached
  have run₁ : Run (fun b e b' => Step b e b' ∧ b.Settled e ∧ ¬ b.Clears e) b₁
      [(0, .send), (0, .land), (2, .call zeroKey), (2, .hit [])] _ :=
    .cons ⟨send, settled_of_ne (by simp), not_clears (by simp)⟩
      (.cons ⟨land, settled, not_clears (by simp)⟩
        (.cons ⟨call, settled_of_ne (by simp), not_clears (by simp)⟩
          (.single ⟨hit, settled_of_ne (by simp), not_clears (by simp)⟩)))
  exact ⟨_, b₀, b₁, _, run₀, first₀, second₀, hone.trans hzero.symm, store, run₁, flights₃,
    one_lookup run₀ first₀ store run₁⟩

theorem singleFlight_race : ∃ es b, b.Racing ∧ SingleFlight es b := by
  obtain ⟨b, run, racing, -⟩ := racing_run
  exact ⟨_, b, racing, singleFlight (run.mono fun _ _ _ h => h.1)⟩

/-- A text that is no ephemeral key is answered, though no lookup, proof or slot had a part in it. -/
theorem malformed_answered : ¬ ∀ (es : List (ℕ × Action)) (b : BootProofs) (i : ℕ) (answer : Answer),
    Run Step new es b → b.stage i = .answered answer → (∃ body, (i, .hit body) ∈ es) ∨
      (i, .refused) ∈ es ∨ ∃ n, (i, .join n) ∈ es ∨ (i, .insert n) ∈ es := by
  intro h
  have hcall := Step.call (b := new) (i := 0) "" rfl
  have hmalformed : isLowerHex "" EPHEMERAL_KEY_HEX_LEN ≠ true := by decide
  rw [if_neg hmalformed] at hcall
  simpa using h [(0, .call "")] _ 0 _ (.single hcall) (moveTo_stage.trans (if_pos rfl))

end Race

end BootProofs

end ZolanaTvc.Gateway
