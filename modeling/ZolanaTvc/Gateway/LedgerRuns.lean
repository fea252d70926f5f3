import ZolanaTvc.Gateway.LocalLedger

/-!
# What the ledger of one process remembers

## Main results

* `LocalLedger.claim_remembers`: a claim is not forgotten within a window unless the ledger fills up.
* `LocalLedger.forgetsWithinTwoWindows_iff`: a claim is forgotten after two windows exactly when the
  ledger rotated twice since, or the claim was released.
-/

namespace ZolanaTvc.Gateway

/-- The instants of the claims. -/
def instants (es : List LedgerEvent) : List ℕ :=
  es.filterMap fun
    | .claim _ now _ => some now
    | _ => none

/-- The outcome that was last recorded for `key`. -/
def lastOutcome (key : Key) (es : List LedgerEvent) : Option Outcome :=
  es.foldl (fun last e => match e with
    | .record key' outcome => if key' = key then some outcome else last
    | _ => last) none

/-- How many keys other than `key` were claimed anew. -/
def newOthers (key : Key) (es : List LedgerEvent) : ℕ :=
  es.countP fun
    | .claim key' _ (.ok (.new _)) => key' ≠ key
    | _ => false

/-- The entry of a key for which `last` was last recorded. -/
def Entry.ofLast : Option Outcome → Entry
  | none => .running
  | some outcome => .answered outcome

namespace LocalLedger

/-- What holds of the ledger that got the calls `es` since `start`. -/
structure Remembers (start ledger : LocalLedger) (es : List LedgerEvent) : Prop where
  /-- No key is in both generations. -/
  apart : ∀ key, key ∈ ledger.state.maps 0 → key ∉ ledger.state.maps 1
  bounded : ∀ i, (ledger.state.maps i).size ≤ ledger.maxEntries
  /-- A claimed key is answered from its entry for a window, or until the ledger fills up. -/
  early : ∀ before key t after now, es = before ++ .claim key t (.ok (.new key)) :: after →
    .release key ∉ after → (∀ u ∈ instants es, u ≤ now) → now < t + ledger.window →
    newOthers key after < ledger.maxEntries →
    (ledger.claim key now).1 = (Entry.ofLast (lastOutcome key after)).answer
  /-- A recorded outcome is answered for as long as the key is known. -/
  recorded : ∀ before key outcome after now, es = before ++ .record key outcome :: after →
    (∀ outcome', .record key outcome' ∉ after) → (∀ t, .claim key t (.ok (.new key)) ∉ after) →
    (ledger.claim key now).1 = .ok (.new key) ∨ (ledger.claim key now).1 = .ok (.answered outcome)
  /-- Only a new claim makes a key known. -/
  unknown : ∀ before middle after key, es = before ++ after → Run Step start before middle →
    Run Step middle after ledger → middle.state.get key = none →
    (∀ t, .claim key t (.ok (.new key)) ∉ after) → ledger.state.get key = none

variable {ledger ledger' : LocalLedger} {key key' : Key} {now t : ℕ} {e : LedgerEvent}
  {es : List LedgerEvent}

theorem config_step (h : ledger.Step e ledger') :
    ledger'.window = ledger.window ∧ ledger'.maxEntries = ledger.maxEntries := by
  obtain ⟨_, _, _, _, rfl⟩ | ⟨_, _, _, _, _, rfl⟩ | ⟨_, _, _, rfl⟩ | ⟨_, _, rfl⟩ := step_cases h <;>
    exact ⟨rfl, rfl⟩

theorem size_rotated (bounded : ∀ i, (ledger.state.maps i).size ≤ ledger.maxEntries) (i : Fin 2) :
    ((ledger.rotated now).maps i).size ≤ ledger.maxEntries := by
  rw [rotated]
  split_ifs
  · rw [Generations.rotate_maps]
    split_ifs
    · simp
    · exact bounded i
  · exact bounded i

/-- A claim finds room in the current generation. -/
theorem size_rotated_current (hmax : 1 ≤ ledger.maxEntries) :
    ((ledger.rotated now).maps (ledger.rotated now).current).size < ledger.maxEntries := by
  rw [rotated]
  split_ifs with h
  · simpa [Generations.rotate] using Nat.succ_le_iff.1 hmax
  · exact Nat.lt_of_not_le fun hle => h (.inr hle)

theorem bounded_step (h : ledger.Step e ledger') (hmax : 1 ≤ ledger.maxEntries)
    (bounded : ∀ i, (ledger.state.maps i).size ≤ ledger.maxEntries) (i : Fin 2) :
    (ledger'.state.maps i).size ≤ ledger'.maxEntries := by
  obtain ⟨key, now, -, hnone, rfl⟩ | ⟨key, now, entry, -, -, rfl⟩ | ⟨key, outcome, -, rfl⟩ |
    ⟨key, -, rfl⟩ := step_cases h
  · show (((ledger.rotated now).insert key .running).maps i).size ≤ ledger.maxEntries
    rw [Generations.size_insert hnone]
    by_cases hi : i = (ledger.rotated now).current
    · subst hi
      simpa using size_rotated_current hmax
    · simpa [hi] using size_rotated bounded i
  · exact size_rotated bounded i
  · show ((ledger.state.set key (.answered outcome)).maps i).size ≤ ledger.maxEntries
    rw [Generations.size_set]
    exact bounded i
  · exact le_trans Table.size_erase_le (bounded i)

/-- Only a new claim makes a key known. -/
theorem unknown_step (h : ledger.Step e ledger') (apart : ledger.state.Apart)
    (hnew : ∀ t, e ≠ .claim key t (.ok (.new key))) (hnone : ledger.state.get key = none) :
    ledger'.state.get key = none := by
  have hrotated : ∀ now, (ledger.rotated now).get key = none := by
    intro now
    rw [get_rotated apart]
    split_ifs
    · rfl
    · exact hnone
  obtain ⟨k, now, rfl, hget, rfl⟩ | ⟨k, now, entry, -, -, rfl⟩ | ⟨k, outcome, -, rfl⟩ |
    ⟨k, -, rfl⟩ := step_cases h
  -- A claim of another key.
  · show ((ledger.rotated now).insert k .running).get key = none
    have hkey : key ≠ k := by
      rintro rfl
      exact hnew now rfl
    rw [Generations.get_insert hget, if_neg hkey]
    exact hrotated now
  · exact hrotated now
  · show (ledger.state.set k (.answered outcome)).get key = none
    rw [Generations.get_set]
    split_ifs with hkey
    · rw [← hkey, hnone]
      rfl
    · exact hnone
  · show (ledger.state.remove k).get key = none
    rw [Generations.get_remove]
    split_ifs
    · rfl
    · exact hnone

theorem recorded_rotated {outcome : Outcome} (apart : ledger.state.Apart)
    (hget : ledger.state.get key = none ∨ ledger.state.get key = some (.answered outcome)) :
    (ledger.rotated now).get key = none ∨
      (ledger.rotated now).get key = some (.answered outcome) := by
  rw [get_rotated apart]
  split_ifs
  · exact .inl rfl
  · exact hget

/-- A known outcome stays until the key is forgotten or another outcome is recorded. -/
theorem recorded_step {outcome : Outcome} (h : ledger.Step e ledger') (apart : ledger.state.Apart)
    (hnew : ∀ t, e ≠ .claim key t (.ok (.new key))) (hrecord : ∀ o, e ≠ .record key o)
    (hget : ledger.state.get key = none ∨ ledger.state.get key = some (.answered outcome)) :
    ledger'.state.get key = none ∨ ledger'.state.get key = some (.answered outcome) := by
  obtain ⟨k, now, rfl, hk, rfl⟩ | ⟨k, now, entry, -, -, rfl⟩ | ⟨k, o, rfl, rfl⟩ | ⟨k, -, rfl⟩ :=
    step_cases h
  · show ((ledger.rotated now).insert k .running).get key = none ∨
      ((ledger.rotated now).insert k .running).get key = _
    have hkey : key ≠ k := by
      rintro rfl
      exact hnew now rfl
    rw [Generations.get_insert hk, if_neg hkey]
    exact recorded_rotated apart hget
  · exact recorded_rotated apart hget
  · have hkey : key ≠ k := by
      rintro rfl
      exact hrecord o rfl
    show (ledger.state.set k (.answered o)).get key = none ∨
      (ledger.state.set k (.answered o)).get key = _
    rw [Generations.get_set, if_neg hkey]
    exact hget
  · show (ledger.state.remove k).get key = none ∨ (ledger.state.remove k).get key = _
    rw [Generations.get_remove]
    split_ifs
    · exact .inl rfl
    · exact hget

/-- The entry of `key`, claimed at `t`, is kept by the ledger that got the calls `es` since. -/
structure Held (ledger : LocalLedger) (key : Key) (t : ℕ) (es : List LedgerEvent) : Prop where
  entry : ledger.state.get key = some (Entry.ofLast (lastOutcome key es))
  /-- The generation that came after the entry's started after the claim, and holds new claims. -/
  age : ledger.state.age key = some 0 ∨ ledger.state.age key = some 1 ∧ t ≤ ledger.state.rotatedAt ∧
    (ledger.state.maps ledger.state.current).size ≤ newOthers key es

theorem Held.rotated (held : ledger.Held key t es) (apart : ledger.state.Apart) (ht : t ≤ now)
    (hwindow : now < t + ledger.window) (hroom : newOthers key es < ledger.maxEntries) :
    Held { ledger with state := ledger.rotated now } key t es := by
  obtain hage | ⟨hage, hat, hsize⟩ := held.age
  · refine ⟨?_, ?_⟩
    · show (ledger.rotated now).get key = _
      simp [get_rotated apart, hage, held.entry]
    · show (ledger.rotated now).age key = some 0 ∨ (ledger.rotated now).age key = some 1 ∧ _
      by_cases hrotates : ledger.rotates now
      · refine .inr ⟨by simp [age_rotated, hrotates, hage], ?_⟩
        simpa [LocalLedger.rotated, hrotates, Generations.rotate] using ht
      · exact .inl (by simp [age_rotated, hrotates, hage])
  · -- The generation after the entry's is neither a window old nor full.
    have hrotates : ¬ ledger.rotates now := by
      rintro (hexpired | hfull)
      · omega
      · omega
    have hstate : ledger.rotated now = ledger.state := if_neg hrotates
    rw [hstate]
    exact ⟨held.entry, .inr ⟨hage, hat, hsize⟩⟩

@[simp] theorem lastOutcome_append : lastOutcome key (es ++ [e]) =
    match e with
    | .record key' outcome => if key' = key then some outcome else lastOutcome key es
    | _ => lastOutcome key es := by
  rw [lastOutcome, List.foldl_append]
  rfl

@[simp] theorem newOthers_append : newOthers key (es ++ [e]) = newOthers key es + newOthers key [e] :=
  List.countP_append

@[simp] theorem instants_append {es' : List LedgerEvent} :
    instants (es ++ es') = instants es ++ instants es' :=
  List.filterMap_append

/-- The entry of `key` is no longer promised: a window passed, the ledger filled up, or the key was
released. -/
def Lapsed (ledger : LocalLedger) (key : Key) (t : ℕ) (es : List LedgerEvent) : Prop :=
  .release key ∈ es ∨ ledger.maxEntries ≤ newOthers key es ∨ ∃ u ∈ instants es, t + ledger.window ≤ u

theorem Lapsed.step (h : ledger.Step e ledger') (lapsed : ledger.Lapsed key t es) :
    ledger'.Lapsed key t (es ++ [e]) := by
  obtain ⟨hwindow, hmax⟩ := config_step h
  rw [Lapsed, hwindow, hmax]
  obtain hrelease | hfull | ⟨u, hu, hlate⟩ := lapsed
  · exact .inl (by simp [hrelease])
  · refine .inr (.inl ?_)
    rw [newOthers_append]
    omega
  · exact .inr (.inr ⟨u, by simp [hu], hlate⟩)

/-- A call keeps the entry of `key`, unless it lapses. -/
theorem Held.step (h : ledger.Step e ledger') (held : ledger.Held key t es)
    (apart : ledger.state.Apart) (ht : ∀ u ∈ instants [e], t ≤ u) :
    ledger'.Lapsed key t (es ++ [e]) ∨ ledger'.Held key t (es ++ [e]) := by
  obtain ⟨hwindow, hmax⟩ := config_step h
  -- With too many claims of other keys since, the entry may have been rotated away.
  by_cases hfull : ledger.maxEntries ≤ newOthers key es
  · refine .inl (.inr (.inl ?_))
    rw [newOthers_append, hmax]
    omega
  -- A claim first rotates: the entry lapses when a window has passed, and else it is kept.
  have rotate : ∀ {k : Key} {now : ℕ} {answer : Except ApiError Claim}, e = .claim k now answer →
      ledger'.Lapsed key t (es ++ [e]) ∨
        Held { ledger with state := ledger.rotated now } key t es := by
    rintro k now answer rfl
    by_cases hlate : t + ledger.window ≤ now
    · exact .inl (.inr (.inr ⟨now, by simp [instants], hwindow ▸ hlate⟩))
    · have hnow : t ≤ now := ht now (by simp [instants])
      exact .inr (held.rotated apart hnow (by omega) (by omega))
  obtain ⟨k, now, hevent, hnone, hledger⟩ | ⟨k, now, entry, hevent, -, hledger⟩ |
    ⟨k, outcome, rfl, rfl⟩ | ⟨k, rfl, rfl⟩ := step_cases h
  · obtain hlapsed | kept := rotate hevent
    · exact .inl hlapsed
    subst hevent hledger
    have hkey : key ≠ k := by
      rintro rfl
      have := kept.entry
      simp_all
    refine .inr ⟨?_, ?_⟩
    · show ((ledger.rotated now).insert k .running).get key = _
      rw [Generations.get_insert hnone, if_neg hkey, lastOutcome_append]
      exact kept.entry
    · show ((ledger.rotated now).insert k .running).age key = some 0 ∨ _
      rw [Generations.age_insert, if_neg hkey]
      refine kept.age.imp_right ?_
      rintro ⟨hage, hat, hsize⟩
      refine ⟨hage, hat, ?_⟩
      show (((ledger.rotated now).insert k .running).maps (ledger.rotated now).current).size ≤ _
      rw [Generations.size_insert hnone, if_pos rfl, newOthers_append]
      -- The claim of another key may have gone into the same generation, which has room for it.
      have hone : newOthers key [.claim k now (.ok (.new k))] = 1 := by
        simp [newOthers, Ne.symm hkey]
      rw [hone]
      exact Nat.add_le_add_right hsize 1
  · obtain hlapsed | kept := rotate hevent
    · exact .inl hlapsed
    subst hevent hledger
    refine .inr ⟨?_, ?_⟩
    · simpa using kept.entry
    · refine kept.age.imp_right ?_
      rintro ⟨hage, hat, hsize⟩
      refine ⟨hage, hat, ?_⟩
      rw [newOthers_append]
      exact Nat.le_add_right_of_le hsize
  · refine .inr ⟨?_, ?_⟩
    · show (ledger.state.set k (.answered outcome)).get key = _
      rw [Generations.get_set, lastOutcome_append]
      by_cases hkey : key = k
      · subst hkey
        simp [held.entry, Entry.ofLast]
      · simp [hkey, Ne.symm hkey, held.entry]
    · show (ledger.state.set k (.answered outcome)).age key = some 0 ∨ _
      rw [Generations.age_set]
      refine held.age.imp_right ?_
      rintro ⟨hage, hat, hsize⟩
      refine ⟨hage, ?_, ?_⟩
      · show t ≤ (ledger.state.set k (.answered outcome)).rotatedAt
        rw [Generations.set_rotatedAt]
        exact hat
      · show ((ledger.state.set k (.answered outcome)).maps
          (ledger.state.set k (.answered outcome)).current).size ≤ _
        rw [Generations.set_current, Generations.size_set, newOthers_append]
        exact Nat.le_add_right_of_le hsize
  · by_cases hkey : key = k
    · subst hkey
      exact .inl (.inl (by simp))
    · refine .inr ⟨?_, ?_⟩
      · show (ledger.state.remove k).get key = _
        rw [Generations.get_remove, if_neg hkey, lastOutcome_append]
        exact held.entry
      · show (ledger.state.remove k).age key = some 0 ∨ _
        rw [Generations.age_remove, if_neg hkey]
        refine held.age.imp_right ?_
        rintro ⟨hage, hat, hsize⟩
        refine ⟨hage, hat, ?_⟩
        rw [newOthers_append]
        exact le_trans Table.size_erase_le (Nat.le_add_right_of_le hsize)

section Runs

variable {start : LocalLedger}

theorem apart_run (run : Run Step start es ledger) (apart : start.state.Apart) :
    ledger.state.Apart :=
  run.invariant apart fun _ _ _ _ apart h => apart_step h apart

theorem config_run (run : Run Step start es ledger) :
    ledger.window = start.window ∧ ledger.maxEntries = start.maxEntries := by
  refine run.invariant (I := fun l => l.window = start.window ∧ l.maxEntries = start.maxEntries)
    ⟨rfl, rfl⟩ ?_
  rintro l e l' - ⟨hwindow, hmax⟩ h
  obtain ⟨hwindow', hmax'⟩ := config_step h
  exact ⟨hwindow'.trans hwindow, hmax'.trans hmax⟩

/-- From its claim on, the entry of a key is held until it lapses. -/
theorem held_run (claimed : start.Held key t []) (apart : start.state.Apart)
    (run : Run Step start es ledger) (ht : ∀ u ∈ instants es, t ≤ u) :
    ledger.Lapsed key t es ∨ ledger.Held key t es := by
  have both : ledger.state.Apart ∧ (ledger.Lapsed key t es ∨ ledger.Held key t es) := by
    refine run.history (I := fun es l => l.state.Apart ∧ (l.Lapsed key t es ∨ l.Held key t es))
      ⟨apart, .inr claimed⟩ ?_
    rintro passed l e l' he ⟨apart, lapsed | held⟩ h
    · exact ⟨apart_step h apart, .inl (lapsed.step h)⟩
    · refine ⟨apart_step h apart, held.step h apart fun u hu => ht u ?_⟩
      obtain ⟨before, after, rfl⟩ := List.append_of_mem he
      simp only [← List.singleton_append (l := after), instants_append, List.mem_append]
      exact .inr (.inl hu)
  exact both.2

theorem claimed_step (h : ledger.Step (.claim key t (.ok (.new key))) ledger') :
    ledger'.state.get key = some .running ∧ ledger'.state.age key = some 0 := by
  obtain ⟨k, now, hevent, hnone, rfl⟩ | ⟨k, now, entry, hevent, -, -⟩ | ⟨_, _, hevent, -⟩ |
    ⟨_, hevent, -⟩ := step_cases h
  · obtain ⟨rfl, rfl, -⟩ := LedgerEvent.claim.inj hevent
    constructor
    · show ((ledger.rotated t).insert key .running).get key = _
      rw [Generations.get_insert hnone, if_pos rfl]
    · show ((ledger.rotated t).insert key .running).age key = _
      rw [Generations.age_insert, if_pos rfl]
  · obtain ⟨-, -, hanswer⟩ := LedgerEvent.claim.inj hevent
    exact absurd hanswer.symm Entry.answer_ne_new
  · cases hevent
  · cases hevent

theorem unknown_run (apart : start.state.Apart) (run : Run Step start es ledger)
    (hnew : ∀ t, .claim key t (.ok (.new key)) ∉ es) (hnone : start.state.get key = none) :
    ledger.state.get key = none := by
  have both : ledger.state.Apart ∧ ledger.state.get key = none := by
    refine run.invariant (I := fun l => l.state.Apart ∧ l.state.get key = none) ⟨apart, hnone⟩ ?_
    rintro l e l' he ⟨apart, hnone⟩ h
    refine ⟨apart_step h apart, unknown_step h apart ?_ hnone⟩
    rintro t rfl
    exact hnew t he
  exact both.2

theorem recorded_run {outcome : Outcome} (apart : start.state.Apart)
    (run : Run Step start es ledger) (hnew : ∀ t, .claim key t (.ok (.new key)) ∉ es)
    (hrecord : ∀ o, .record key o ∉ es)
    (hget : start.state.get key = none ∨ start.state.get key = some (.answered outcome)) :
    ledger.state.get key = none ∨ ledger.state.get key = some (.answered outcome) := by
  have both : ledger.state.Apart ∧
      (ledger.state.get key = none ∨ ledger.state.get key = some (.answered outcome)) := by
    refine run.invariant (I := fun l => l.state.Apart ∧
      (l.state.get key = none ∨ l.state.get key = some (.answered outcome))) ⟨apart, hget⟩ ?_
    rintro l e l' he ⟨apart, hget⟩ h
    refine ⟨apart_step h apart, recorded_step h apart ?_ ?_ hget⟩
    · rintro t rfl
      exact hnew t he
    · rintro o rfl
      exact hrecord o he
  exact both.2

theorem apart_new {window maxEntries madeAt : ℕ} : (new window maxEntries madeAt).state.Apart := by
  intro i key h
  exact absurd h (AList.notMem_empty key)

/-- A key that was not claimed yet is new. -/
theorem claim_unclaimed {window maxEntries madeAt : ℕ}
    (run : Run Step (new window maxEntries madeAt) es ledger)
    (hnew : ∀ t, .claim key t (.ok (.new key)) ∉ es) : (ledger.claim key now).1 = .ok (.new key) := by
  have hnone : (ledger.rotated now).get key = none := by
    rw [get_rotated (apart_run run apart_new), unknown_run apart_new run hnew rfl, ite_self]
  rw [claim_new hnone]

/-- A key of a first claim. -/
def firstKey : Key := ⟨⟨List.replicate 32 1, List.length_replicate⟩⟩

/-- What was claimed is not forgotten early, and the ledger stays bounded. -/
theorem claim_remembers {window maxEntries madeAt : ℕ} (hmax : 1 ≤ maxEntries)
    (run : Run Step (new window maxEntries madeAt) es ledger)
    (monotone : (instants es).Pairwise (· ≤ ·)) :
    Remembers (new window maxEntries madeAt) ledger es := by
  have apart := apart_run run apart_new
  refine ⟨apart 0, ?_, ?_, ?_, ?_⟩
  -- The bound on a generation needs that a claim finds room after the rotation.
  · have both : 1 ≤ ledger.maxEntries ∧ ∀ i, (ledger.state.maps i).size ≤ ledger.maxEntries := by
      refine run.invariant
        (I := fun l => 1 ≤ l.maxEntries ∧ ∀ i, (l.state.maps i).size ≤ l.maxEntries)
        ⟨hmax, fun _ => Nat.zero_le _⟩ ?_
      rintro l e l' - ⟨hmax, bounded⟩ h
      exact ⟨(config_step h).2.symm ▸ hmax, bounded_step h hmax bounded⟩
    exact both.2
  -- From the claim on the entry is held unless one of the three ways to lapse is taken, and the
  -- hypotheses exclude each.
  · rintro before key t after now rfl hrelease hnow hwindow hroom
    obtain ⟨unclaimed, run₀, run₁⟩ := run.split
    cases run₁ with
    | @cons _ claimed _ _ _ hclaim run₂ =>
      have apart₀ := apart_step hclaim (apart_run run₀ apart_new)
      have hinstants : instants (before ++ .claim key t (.ok (.new key)) :: after) =
          instants before ++ t :: instants after := instants_append
      have ht : ∀ u ∈ instants after, t ≤ u := by
        rw [hinstants] at monotone
        exact (List.pairwise_cons.1 (List.pairwise_append.1 monotone).2.1).1
      rw [hinstants] at hnow
      have htnow : t ≤ now := hnow t (by simp)
      obtain ⟨hrunning, hage⟩ := claimed_step hclaim
      obtain hlapsed | held := held_run (t := t) ⟨hrunning, .inl hage⟩ apart₀ run₂ ht
      · obtain h | h | ⟨u, hu, hlate⟩ := hlapsed
        · exact absurd h hrelease
        · omega
        · have := hnow u (by simp [hu])
          omega
      · have kept := held.rotated apart htnow hwindow hroom
        rw [claim_known kept.entry]
  -- After a record a key is unknown or has that outcome.
  · rintro before key outcome after now rfl hrecord hnew
    obtain ⟨unrecorded, run₀, run₁⟩ := run.split
    cases run₁ with
    | @cons _ recorded _ _ _ h run₂ =>
      obtain rfl : unrecorded.record key outcome = recorded := h
      have apart₀ := apart_run run₀ apart_new
      have hget : (unrecorded.record key outcome).state.get key = none ∨
          (unrecorded.record key outcome).state.get key = some (.answered outcome) := by
        show (unrecorded.state.set key _).get key = none ∨ (unrecorded.state.set key _).get key = _
        rw [Generations.get_set, if_pos rfl]
        cases unrecorded.state.get key <;> simp
      have hrotated : (ledger.rotated now).get key = none ∨
          (ledger.rotated now).get key = some (.answered outcome) :=
        recorded_rotated apart (recorded_run apart₀.set run₂ hnew hrecord hget)
      obtain hnone | hsome := hrotated
      · exact .inl (by rw [claim_new hnone])
      · exact .inr (by rw [claim_known hsome]; rfl)
  · rintro before middle after key - run₀ run₁ hnone hnew
    exact unknown_run (apart_run run₀ apart_new) run₁ hnew hnone

/-- A key of a second claim. -/
def secondKey : Key := ⟨⟨List.replicate 32 2, List.length_replicate⟩⟩

/-- A key of a third claim. -/
def thirdKey : Key := ⟨⟨List.replicate 32 3, List.length_replicate⟩⟩

/-- Calls over a rotation: the third claim comes a window after the ledger was made. -/
def rotating (outcome : Outcome) : List LedgerEvent :=
  [.claim firstKey 10 (.ok (.new firstKey)), .record firstKey outcome,
    .claim secondKey 50 (.ok (.new secondKey)), .claim thirdKey 65 (.ok (.new thirdKey))]

theorem rotating_run (outcome : Outcome) : ∃ ledger,
    Run Step (new 60 16 0) (rotating outcome) ledger ∧ ledger.state.rotatedAt = 65 := by
  have early : ∃ middle, Run Step (new 60 16 0) [.claim firstKey 10 (.ok (.new firstKey)),
      .record firstKey outcome, .claim secondKey 50 (.ok (.new secondKey))] middle ∧
      middle.window = 60 ∧ middle.state.rotatedAt = 0 :=
    ⟨_, .cons rfl (.cons rfl (.cons rfl (.nil _))), rfl, rfl⟩
  obtain ⟨middle, run, hwindow, hmade⟩ := early
  have hfirst : thirdKey ≠ firstKey := by decide
  have hsecond : thirdKey ≠ secondKey := by decide
  have hthird : middle.Step (.claim thirdKey 65 (.ok (.new thirdKey))) (middle.claim thirdKey 65).2 :=
    Prod.ext (claim_unclaimed run (by simp [hfirst, hsecond])) rfl
  refine ⟨_, run.append (.single hthird), ?_⟩
  have hnone := (claim_eq_new.1 (congrArg Prod.fst hthird)).1
  have hrotates : middle.rotates 65 := .inl (by omega)
  rw [claim_new hnone]
  show (middle.rotated 65).rotatedAt = 65
  rw [rotated, if_pos hrotates]
  rfl

/-- The first key's outcome is answered from the generation that was rotated away. -/
theorem claim_remembers_rotated : ∃ ledger,
    Run Step (new 60 16 0) (rotating (.error .invalidJson)) ledger ∧
      ledger.state.rotatedAt = 65 ∧
      Remembers (new 60 16 0) ledger (rotating (.error .invalidJson)) ∧
      (ledger.claim firstKey 69).1 = .ok (.answered (.error .invalidJson)) := by
  obtain ⟨ledger, run, hrotated⟩ := rotating_run (.error .invalidJson)
  obtain ⟨hwindow, hmax⟩ := config_run run
  have hwindow : ledger.window = 60 := hwindow
  have hmax : ledger.maxEntries = 16 := hmax
  have remembers := claim_remembers (by decide) run (by simp [rotating, instants])
  refine ⟨ledger, run, hrotated, remembers, ?_⟩
  have hlater : ∀ u ∈ instants (rotating (.error .invalidJson)), u ≤ 69 := by
    simp [rotating, instants]
  have hroom : newOthers firstKey (rotating (.error .invalidJson)).tail < ledger.maxEntries := by
    rw [hmax]
    exact lt_of_le_of_lt List.countP_le_length (by decide : 3 < 16)
  exact remembers.early [] firstKey 10 _ 69 rfl (by simp) hlater (by omega) hroom

end Runs

end LocalLedger

namespace LocalLedger

/-- A claim of `key` at `now`, two windows after the last new one at `t`, is new. -/
def ForgetsWithinTwoWindows (ledger : LocalLedger) (key : Key) (t now : ℕ) : Prop :=
  t + 2 * ledger.window ≤ now → (ledger.claim key now).1 = .ok (.new key)

/-- One when the call is a claim that rotates the generations. -/
def rotation (ledger : LocalLedger) : LedgerEvent → ℕ
  | .claim _ now _ => if ledger.rotates now then 1 else 0
  | _ => 0

/-- How many of the calls are claims that rotate the generations. -/
def rotations : LocalLedger → List LedgerEvent → ℕ
  | _, [] => 0
  | ledger, e :: es => ledger.rotation e + rotations (ledger.next e) es

section Forgetting

variable {start ledger ledger' : LocalLedger} {key : Key} {now t n : ℕ} {e : LedgerEvent}
  {es : List LedgerEvent} {released : Prop}

theorem next_of_step (h : ledger.Step e ledger') : ledger.next e = ledger' := by
  cases e with
  | claim key now answer =>
    have h : ledger.claim key now = (answer, ledger') := h
    rw [next, h]
  | record => exact h
  | release => exact h

theorem rotations_append (run : Run Step start es ledger) :
    rotations start (es ++ [e]) = rotations start es + ledger.rotation e := by
  induction run with
  | nil => simp [rotations]
  | cons h _ ih => simp [rotations, next_of_step h, ih, Nat.add_assoc]

/-- The key was claimed `n` rotations ago, and perhaps released since. -/
structure Aged (ledger : LocalLedger) (key : Key) (released : Prop) (n : ℕ) : Prop where
  forgotten : released ∨ 2 ≤ n → ledger.state.age key = none
  kept : ¬(released ∨ 2 ≤ n) → ledger.state.age key = some n

theorem Aged.rotated (aged : ledger.Aged key released n) :
    Aged { ledger with state := ledger.rotated now } key released
      (n + if ledger.rotates now then 1 else 0) := by
  by_cases hrotates : ledger.rotates now
  · have hage : (ledger.rotated now).age key = if ledger.state.age key = some 0 then some 1 else none :=
      by rw [age_rotated, if_pos hrotates]
    rw [if_pos hrotates]
    by_cases hgone : released ∨ 2 ≤ n
    · have hnone : (ledger.rotated now).age key = none := by simp [hage, aged.forgotten hgone]
      exact ⟨fun _ => hnone, fun h => absurd (hgone.imp_right fun h => by omega) h⟩
    · rw [aged.kept hgone] at hage
      push Not at hgone
      obtain ⟨hreleased, hn⟩ := hgone
      interval_cases n
      · exact ⟨fun h => absurd h (by simp [hreleased]), fun _ => by simpa using hage⟩
      · exact ⟨fun _ => by simpa using hage, fun h => absurd h (by simp)⟩
  · have hstate : ledger.rotated now = ledger.state := if_neg hrotates
    rw [if_neg hrotates, hstate]
    exact aged

theorem Aged.step (h : ledger.Step e ledger') (aged : ledger.Aged key released n)
    (hnew : ∀ t, e ≠ .claim key t (.ok (.new key))) :
    ledger'.Aged key (released ∨ e = .release key) (n + ledger.rotation e) := by
  -- A claim may rotate, a record keeps every age, and a release ends the age of its own key.
  obtain ⟨k, now, rfl, hnone, rfl⟩ | ⟨k, now, entry, rfl, -, rfl⟩ | ⟨k, outcome, rfl, rfl⟩ |
    ⟨k, rfl, rfl⟩ := step_cases h
  · have hkey : key ≠ k := by
      rintro rfl
      exact hnew now rfl
    have hage : ((ledger.rotated now).insert k .running).age key = (ledger.rotated now).age key := by
      rw [Generations.age_insert, if_neg hkey]
    have rotated : Aged { ledger with state := ledger.rotated now } key released
        (n + if ledger.rotates now then 1 else 0) := aged.rotated
    exact ⟨fun h => hage.trans (rotated.forgotten (by simpa [rotation] using h)),
      fun h => hage.trans (rotated.kept (by simpa [rotation] using h))⟩
  · have rotated : Aged { ledger with state := ledger.rotated now } key released
        (n + if ledger.rotates now then 1 else 0) := aged.rotated
    exact ⟨fun h => rotated.forgotten (by simpa [rotation] using h),
      fun h => rotated.kept (by simpa [rotation] using h)⟩
  · have hage : (ledger.state.set k (.answered outcome)).age key = ledger.state.age key :=
      Generations.age_set
    exact ⟨fun h => hage.trans (aged.forgotten (by simpa [rotation] using h)),
      fun h => hage.trans (aged.kept (by simpa [rotation] using h))⟩
  · by_cases hkey : key = k
    · subst hkey
      have hage : (ledger.state.remove key).age key = none := by
        rw [Generations.age_remove, if_pos rfl]
      exact ⟨fun _ => hage, fun h => absurd (.inl (.inr rfl)) h⟩
    · have hage : (ledger.state.remove k).age key = ledger.state.age key := by
        rw [Generations.age_remove, if_neg hkey]
      exact ⟨fun h => hage.trans (aged.forgotten (by simpa [rotation, Ne.symm hkey] using h)),
        fun h => hage.trans (aged.kept (by simpa [rotation, Ne.symm hkey] using h))⟩

theorem aged_run (claimed : start.state.age key = some 0) (run : Run Step start es ledger)
    (hnew : ∀ u, .claim key u (.ok (.new key)) ∉ es) :
    ledger.Aged key (.release key ∈ es) (rotations start es) := by
  have both : Run Step start es ledger ∧
      ledger.Aged key (.release key ∈ es) (rotations start es) := by
    refine run.history
      (I := fun es l => Run Step start es l ∧ l.Aged key (.release key ∈ es) (rotations start es))
      ⟨.nil start, ⟨by simp [rotations], fun _ => claimed⟩⟩ ?_
    rintro passed l e l' he ⟨run, aged⟩ h
    have hne : ∀ u, e ≠ .claim key u (.ok (.new key)) := by
      rintro u rfl
      exact hnew u he
    refine ⟨run.append (.single h), ?_⟩
    rw [rotations_append run]
    have hreleased : .release key ∈ passed ++ [e] ↔ (.release key ∈ passed ∨ e = .release key) := by
      simp [eq_comm]
    rw [hreleased]
    exact aged.step h hne
  exact both.2

/-- The ledger whose only call was a claim. -/
def idleClaimed : LocalLedger := ((new 60 16 0).claim firstKey 0).2

theorem idle_step : (new 60 16 0).Step (.claim firstKey 0 (.ok (.new firstKey))) idleClaimed := rfl

/-- A ledger forgets a claim within two windows exactly when it was released, or when two claims since,
this one included, came a window after the last rotation or found the current generation full. -/
theorem forgetsWithinTwoWindows_iff {window maxEntries madeAt : ℕ} {before after : List LedgerEvent}
    {unclaimed claimed : LocalLedger} (run₀ : Run Step (new window maxEntries madeAt) before unclaimed)
    (hclaim : unclaimed.Step (.claim key t (.ok (.new key))) claimed)
    (run₁ : Run Step claimed after ledger) (hlast : ∀ u, .claim key u (.ok (.new key)) ∉ after) :
    ledger.ForgetsWithinTwoWindows key t now ↔ now < t + 2 * window ∨ .release key ∈ after ∨
      2 ≤ rotations claimed after + if ledger.rotates now then 1 else 0 := by
  -- How often the ledger has rotated since the claim is all that its answer depends on.
  have aged : Aged { ledger with state := ledger.rotated now } key (.release key ∈ after)
      (rotations claimed after + if ledger.rotates now then 1 else 0) :=
    (aged_run (claimed_step hclaim).2 run₁ hlast).rotated
  have hwindow : ledger.window = window :=
    (config_run run₁).1.trans ((config_step hclaim).1.trans (config_run run₀).1)
  have hanswer : (ledger.claim key now).1 = .ok (.new key) ↔ .release key ∈ after ∨
      2 ≤ rotations claimed after + if ledger.rotates now then 1 else 0 := by
    rw [claim_eq_new, and_iff_left rfl, Generations.get_eq_none_iff_age]
    constructor
    · intro hnone
      by_contra hkept
      have hsome := aged.kept hkept
      rw [hnone] at hsome
      cases hsome
    · exact aged.forgotten
  rw [ForgetsWithinTwoWindows, hanswer, hwindow]
  constructor
  · intro h
    by_cases hlate : t + 2 * window ≤ now
    · exact .inr (h hlate)
    · exact .inl (Nat.lt_of_not_le hlate)
  · rintro (hearly | h) hlate
    · omega
    · exact h

theorem idle_forgets_iff : (idleClaimed.ForgetsWithinTwoWindows firstKey 0 120 ↔
    120 < 0 + 2 * 60 ∨ (.release firstKey : LedgerEvent) ∈ [] ∨
      2 ≤ rotations idleClaimed [] + if idleClaimed.rotates 120 then 1 else 0) :=
  forgetsWithinTwoWindows_iff (.nil (new 60 16 0)) idle_step (.nil idleClaimed) (by simp)

theorem idle_window : 0 + 2 * idleClaimed.window ≤ 120 := by
  show 0 + 2 * 60 ≤ 120
  omega

/-- A ledger that saw no call for two windows still answers from an entry of before. -/
theorem idle_ledger_remembers : ¬ ∀ (window maxEntries madeAt t now : ℕ) (key : Key)
    (before after : List LedgerEvent) (ledger : LocalLedger),
    Run Step (new window maxEntries madeAt)
      (before ++ .claim key t (.ok (.new key)) :: after) ledger →
    (∀ u, .claim key u (.ok (.new key)) ∉ after) →
    (instants (before ++ .claim key t (.ok (.new key)) :: after)).Pairwise (· ≤ ·) →
    (∀ u ∈ instants (before ++ .claim key t (.ok (.new key)) :: after), u ≤ now) →
    ledger.ForgetsWithinTwoWindows key t now := by
  intro h
  have hnew := h 60 16 0 0 120 firstKey [] [] idleClaimed (.single idle_step) (by simp)
    (by simp [instants]) (by simp [instants]) idle_window
  have hrunning : (idleClaimed.claim firstKey 120).1 = .error .operationInProgress := rfl
  rw [hrunning] at hnew
  cases hnew

end Forgetting

end LocalLedger

end ZolanaTvc.Gateway
