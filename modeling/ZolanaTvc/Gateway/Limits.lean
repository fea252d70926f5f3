import ZolanaTvc.Control.Run
import ZolanaTvc.Gateway.Project
import ZolanaTvc.Store.Table

/-!
# How much a project holds at once

A semaphore for each project hands out its permits. A caller first looks up the semaphore, under the
map's lock, and then takes a permit of it; other callers may come in between. A lookup that finds very
many semaphores drops those whose permits are all there.

## Main results

* `outstanding_le`: a project holds no more than its permits, if no lookup drops a semaphore that
  another caller looked up and is about to take a permit of.
-/

namespace ZolanaTvc.Gateway

def LIMITER_PRUNE_THRESHOLD : ℕ := 10000

/-- The limiter and its callers. Semaphores are numbered in the order they are made. -/
structure InFlightLimiter where
  maxPerProject : ℕ
  byProject : Table ProjectId ℕ
  /-- The permits that a semaphore has left. -/
  available : ℕ → ℕ
  made : ℕ
  /-- Callers that looked up a semaphore and have not tried it yet. -/
  waiting : List (ProjectId × ℕ)
  /-- Permits not yet dropped, each with its project and its semaphore. -/
  permits : List (ProjectId × ℕ)

namespace InFlightLimiter

def new (maxPerProject : ℕ) : InFlightLimiter where
  maxPerProject := maxPerProject
  byProject := ∅
  available := fun _ => 0
  made := 0
  waiting := []
  permits := []

/-- The semaphores that a lookup leaves in the map. -/
def pruned (l : InFlightLimiter) : Table ProjectId ℕ :=
  if l.byProject.size > LIMITER_PRUNE_THRESHOLD then
    -- A semaphore with all its permits is dropped, also one that was just looked up.
    l.byProject.retain fun _ semaphore => l.available semaphore < l.maxPerProject
  else l.byProject

/-- The semaphore of a project, made when there is none. -/
def semaphore (l : InFlightLimiter) (project : ProjectId) : ℕ × InFlightLimiter :=
  match l.pruned.lookup project with
  | some semaphore => (semaphore, { l with byProject := l.pruned })
  | none => (l.made,
      { l with
        byProject := l.pruned.insert project l.made
        available := Function.update l.available l.made l.maxPerProject
        made := l.made + 1 })

/-- How many permits a project holds. -/
def outstanding (l : InFlightLimiter) (project : ProjectId) : ℕ :=
  l.permits.countP fun permit => permit.1 = project

inductive Event where
  | lookup (project : ProjectId)
  | acquired (project : ProjectId) (semaphore : ℕ)
  | refused (project : ProjectId) (semaphore : ℕ)
  | dropped (project : ProjectId) (semaphore : ℕ)

/-- The first and the second step of `try_acquire`, and the end of a permit. -/
inductive Step (l : InFlightLimiter) : Event → InFlightLimiter → Prop where
  | lookup (project : ProjectId) : Step l (.lookup project)
      { (l.semaphore project).2 with waiting := (project, (l.semaphore project).1) :: l.waiting }
  | acquired {project : ProjectId} {semaphore : ℕ} (waits : (project, semaphore) ∈ l.waiting)
      (left : 0 < l.available semaphore) : Step l (.acquired project semaphore)
      { l with
        waiting := l.waiting.erase (project, semaphore)
        available := Function.update l.available semaphore (l.available semaphore - 1)
        permits := (project, semaphore) :: l.permits }
  | refused {project : ProjectId} {semaphore : ℕ} (waits : (project, semaphore) ∈ l.waiting)
      (left : l.available semaphore = 0) : Step l (.refused project semaphore)
      { l with waiting := l.waiting.erase (project, semaphore) }
  | dropped {project : ProjectId} {semaphore : ℕ} (holds : (project, semaphore) ∈ l.permits) :
      Step l (.dropped project semaphore)
      { l with
        available := Function.update l.available semaphore (l.available semaphore + 1)
        permits := l.permits.erase (project, semaphore) }

/-- A lookup drops no semaphore that a caller looked up and has not tried yet: if it prunes, each of
these has a permit out. -/
def Careful (l : InFlightLimiter) : Event → Prop
  | .lookup _ => l.byProject.size > LIMITER_PRUNE_THRESHOLD →
      ∀ caller ∈ l.waiting, l.available caller.2 < l.maxPerProject
  | _ => True

/-- What ties the semaphores to the map. -/
structure Tied (l : InFlightLimiter) : Prop where
  waiting : ∀ caller ∈ l.waiting, l.byProject.lookup caller.1 = some caller.2
  permits : ∀ permit ∈ l.permits, l.byProject.lookup permit.1 = some permit.2
  counted : ∀ project semaphore, l.byProject.lookup project = some semaphore →
    l.available semaphore + l.permits.countP (fun permit => permit.2 = semaphore) = l.maxPerProject
  made : ∀ project semaphore, l.byProject.lookup project = some semaphore → semaphore < l.made

variable {l l' : InFlightLimiter} {e : Event} {project : ProjectId}

theorem Tied.bounded (tied : l.Tied) : l.outstanding project ≤ l.maxPerProject := by
  by_cases hany : ∃ permit ∈ l.permits, permit.1 = project
  · obtain ⟨held, hmem, hheld⟩ := hany
    have hlookup := tied.permits held hmem
    rw [hheld] at hlookup
    have hsame : l.outstanding project ≤ l.permits.countP fun permit => permit.2 = held.2 := by
      refine List.countP_mono_left ?_
      intro permit hpermit hp
      have hother := tied.permits permit hpermit
      have hproject : permit.1 = project := by simpa using hp
      rw [hproject, hlookup] at hother
      simpa using (Option.some.inj hother).symm
    have hcounted := tied.counted project held.2 hlookup
    omega
  · have hnone : l.outstanding project = 0 := by
      rw [outstanding, List.countP_eq_zero]
      intro permit hpermit hp
      exact hany ⟨permit, hpermit, by simpa using hp⟩
    omega

theorem pruned_eq_some {n : ℕ} : l.pruned.lookup project = some n ↔
    l.byProject.lookup project = some n ∧
      (l.byProject.size > LIMITER_PRUNE_THRESHOLD → l.available n < l.maxPerProject) := by
  rw [pruned]
  split_ifs with h
  · simp [Table.lookup_retain_eq_some, h]
  · simp [h]

/-- A semaphore with a permit out is not dropped. -/
theorem Tied.pruned_permit (tied : l.Tied) {permit : ProjectId × ℕ} (hpermit : permit ∈ l.permits) :
    l.pruned.lookup permit.1 = some permit.2 := by
  have hlookup := tied.permits permit hpermit
  have hcounted := tied.counted _ _ hlookup
  have hpos : 0 < l.permits.countP fun other => other.2 = permit.2 :=
    List.countP_pos_iff.2 ⟨permit, hpermit, by simp⟩
  exact pruned_eq_some.2 ⟨hlookup, fun _ => by omega⟩

theorem Tied.lookup (tied : l.Tied) (careful : l.Careful (.lookup project)) :
    Tied { (l.semaphore project).2 with
      waiting := (project, (l.semaphore project).1) :: l.waiting } := by
  -- This is where the lookup has to be careful: the semaphore of a caller that waits may be idle,
  -- and pruning would drop it.
  have hwaiting : ∀ caller ∈ l.waiting, l.pruned.lookup caller.1 = some caller.2 := by
    intro caller hcaller
    exact pruned_eq_some.2 ⟨tied.waiting caller hcaller, fun h => careful h caller hcaller⟩
  -- A semaphore with a permit out is not idle, and survives the pruning.
  have hpermits : ∀ permit ∈ l.permits, l.pruned.lookup permit.1 = some permit.2 :=
    fun _ => tied.pruned_permit
  have hbefore : ∀ p n, l.pruned.lookup p = some n → l.byProject.lookup p = some n :=
    fun p n h => (pruned_eq_some.1 h).1
  cases hfound : l.pruned.lookup project with
  | some n =>
    simp only [semaphore, hfound]
    refine ⟨?_, hpermits, fun p n h => tied.counted p n (hbefore p n h),
      fun p n h => tied.made p n (hbefore p n h)⟩
    intro caller hcaller
    obtain rfl | hcaller := List.mem_cons.1 hcaller
    · exact hfound
    · exact hwaiting caller hcaller
  | none =>
    simp only [semaphore, hfound]
    have hinsert : ∀ p, (l.pruned.insert project l.made).lookup p =
        if p = project then some l.made else l.pruned.lookup p := fun p => Table.lookup_insert_eq
    have hold : ∀ p n, l.pruned.lookup p = some n →
        (l.pruned.insert project l.made).lookup p = some n := by
      intro p n h
      have hne : p ≠ project := by
        rintro rfl
        rw [hfound] at h
        cases h
      rw [hinsert, if_neg hne, h]
    -- The new semaphore has a number that no permit bears.
    have hfresh : ∀ permit ∈ l.permits, permit.2 ≠ l.made := by
      intro permit hpermit heq
      have := tied.made _ _ (tied.permits permit hpermit)
      omega
    refine ⟨?_, fun permit h => hold _ _ (hpermits permit h), ?_, ?_⟩
    · intro caller hcaller
      obtain rfl | hcaller := List.mem_cons.1 hcaller
      · exact (hinsert project).trans (if_pos rfl)
      · exact hold _ _ (hwaiting caller hcaller)
    · intro p n h
      show Function.update l.available l.made l.maxPerProject n + _ = l.maxPerProject
      by_cases hp : p = project
      · rw [hinsert, if_pos hp] at h
        obtain rfl := Option.some.inj h
        have hnone : l.permits.countP (fun permit => permit.2 = l.made) = 0 :=
          List.countP_eq_zero.2 fun permit hpermit => by simpa using hfresh permit hpermit
        rw [Function.update_self, hnone, Nat.add_zero]
      · rw [hinsert, if_neg hp] at h
        have hn : n ≠ l.made := (tied.made p n (hbefore p n h)).ne
        rw [Function.update_of_ne hn]
        exact tied.counted p n (hbefore p n h)
    · intro p n h
      show n < l.made + 1
      rw [hinsert] at h
      split_ifs at h
      · obtain rfl := Option.some.inj h
        exact Nat.lt_succ_self _
      · exact Nat.lt_succ_of_lt (tied.made p n (hbefore p n h))

theorem Tied.step (tied : l.Tied) (h : Step l e l') (careful : l.Careful e) : l'.Tied := by
  cases h with
  | lookup project => exact tied.lookup careful
  -- The permit leaves the semaphore and goes to the caller: the sum stays.
  | @acquired project n waits left =>
    refine ⟨fun caller h => tied.waiting caller (List.mem_of_mem_erase h), ?_, ?_, tied.made⟩
    · intro permit hpermit
      obtain rfl | hpermit := List.mem_cons.1 hpermit
      · exact tied.waiting _ waits
      · exact tied.permits permit hpermit
    · intro p m hm
      have hcounted := tied.counted p m hm
      show Function.update l.available n (l.available n - 1) m +
        ((project, n) :: l.permits).countP _ = l.maxPerProject
      rw [List.countP_cons]
      by_cases hmn : m = n
      · subst hmn
        simp only [Function.update_self, decide_true, if_true]
        omega
      · simpa [Function.update_of_ne hmn, Ne.symm hmn] using hcounted
  | refused waits left =>
    exact ⟨fun caller h => tied.waiting caller (List.mem_of_mem_erase h), tied.permits, tied.counted,
      tied.made⟩
  -- And back.
  | @dropped project n holds =>
    refine ⟨tied.waiting, fun permit h => tied.permits permit (List.mem_of_mem_erase h), ?_, tied.made⟩
    intro p m hm
    have hcounted := tied.counted p m hm
    show Function.update l.available n (l.available n + 1) m +
      (l.permits.erase (project, n)).countP _ = l.maxPerProject
    have hcount := (List.perm_cons_erase holds).countP_eq fun permit => decide (permit.2 = m)
    rw [List.countP_cons] at hcount
    by_cases hmn : m = n
    · subst hmn
      simp only [decide_true, if_true] at hcount
      rw [Function.update_self]
      omega
    · rw [Function.update_of_ne hmn]
      simp only [Ne.symm hmn, decide_false, Bool.false_eq_true, if_false, Nat.add_zero] at hcount
      rw [← hcount]
      exact hcounted

theorem Tied.new {max : ℕ} : (InFlightLimiter.new max).Tied := by
  refine ⟨?_, ?_, ?_, ?_⟩
  · intro caller h
    cases h
  · intro permit h
    cases h
  · intro p n h
    cases h
  · intro p n h
    cases h

theorem maxPerProject_step (h : Step l e l') : l'.maxPerProject = l.maxPerProject := by
  cases h with
  | lookup project =>
    show (l.semaphore project).2.maxPerProject = l.maxPerProject
    rw [semaphore]
    split <;> rfl
  | acquired | refused | dropped => rfl

section Visits

/-- A caller of the `n`th project that comes, takes a permit and drops it. -/
def visit (n : ℕ) : List Event :=
  [.lookup (ProjectId.sample n), .acquired (ProjectId.sample n) n, .dropped (ProjectId.sample n) n]

/-- The visits of `n` projects after the first one. -/
def visits : ℕ → List Event
  | 0 => []
  | n + 1 => visits n ++ visit (n + 1)

/-- The limiter `l` after the visits of `n` projects, which came to `start`. -/
structure Visited (start l : InFlightLimiter) (n : ℕ) : Prop where
  max : l.maxPerProject = 1
  size : l.byProject.size = n + 1
  made : l.made = n + 1
  found : ∀ p i, l.byProject.lookup p = some i ↔ i ≤ n ∧ p = ProjectId.sample i
  idle : ∀ i, 1 ≤ i → i ≤ n → l.available i = 1
  first : l.available 0 = start.available 0
  permits : l.permits = start.permits
  waiting : l.waiting = start.waiting

variable {start : InFlightLimiter} {n : ℕ}

theorem Visited.visit (visited : Visited start l n) (hn : n < LIMITER_PRUNE_THRESHOLD) :
    ∃ l', Run (fun l e l' => Step l e l' ∧ l.Careful e) l (visit (n + 1)) l' ∧
      Visited start l' (n + 1) := by
  have hfits : ∀ i, i ≤ n + 1 → i < 100000 := by
    intro i hi
    simp only [LIMITER_PRUNE_THRESHOLD] at hn
    omega
  -- The map is not yet large enough for the lookup to prune it.
  have hsmall : ¬ l.byProject.size > LIMITER_PRUNE_THRESHOLD := by
    rw [visited.size]
    omega
  have hpruned : l.pruned = l.byProject := if_neg hsmall
  have hnone : l.byProject.lookup (ProjectId.sample (n + 1)) = none := by
    by_contra hsome
    obtain ⟨i, hi⟩ := Option.ne_none_iff_exists'.1 hsome
    obtain ⟨hle, heq⟩ := (visited.found _ _).1 hi
    have := ProjectId.sample_inj (hfits _ le_rfl) (hfits i (by omega)) heq
    omega
  have hsemaphore : l.semaphore (ProjectId.sample (n + 1)) = (n + 1, { l with
      byProject := l.byProject.insert (ProjectId.sample (n + 1)) (n + 1)
      available := Function.update l.available (n + 1) 1
      made := n + 2 }) := by
    simp only [semaphore, hpruned, hnone, visited.made, visited.max]
  have hlookup := Step.lookup (l := l) (ProjectId.sample (n + 1))
  rw [hsemaphore] at hlookup
  refine ⟨_, .cons ⟨hlookup, fun h => absurd h hsmall⟩ (.cons ⟨.acquired List.mem_cons_self ?_, trivial⟩
    (.cons ⟨.dropped List.mem_cons_self, trivial⟩ (.nil _))), ?_⟩
  · show 0 < Function.update l.available (n + 1) 1 (n + 1)
    simp
  -- The permit that was taken is back.
  have hidle : ∀ i, Function.update (Function.update (Function.update l.available (n + 1) 1) (n + 1)
      (Function.update l.available (n + 1) 1 (n + 1) - 1)) (n + 1)
      (Function.update (Function.update l.available (n + 1) 1) (n + 1)
        (Function.update l.available (n + 1) 1 (n + 1) - 1) (n + 1) + 1) i =
      if i = n + 1 then 1 else l.available i := by
    intro i
    by_cases hi : i = n + 1
    · simp [hi]
    · simp [hi]
  refine ⟨visited.max, ?_, rfl, ?_, ?_, ?_, ?_, ?_⟩
  · show Table.size (l.byProject.insert (ProjectId.sample (n + 1)) (n + 1)) = n + 1 + 1
    rw [Table.size_insert_of_notMem (AList.lookup_eq_none.1 hnone), visited.size]
  · intro p i
    show (l.byProject.insert (ProjectId.sample (n + 1)) (n + 1)).lookup p = some i ↔ _
    rw [Table.lookup_insert_eq]
    by_cases hp : p = ProjectId.sample (n + 1)
    · rw [if_pos hp]
      constructor
      · intro h
        obtain rfl := Option.some.inj h
        exact ⟨le_rfl, hp⟩
      · rintro ⟨hi, heq⟩
        rw [ProjectId.sample_inj (hfits _ le_rfl) (hfits i hi) (hp.symm.trans heq)]
    · rw [if_neg hp, visited.found]
      constructor
      · rintro ⟨hi, heq⟩
        exact ⟨by omega, heq⟩
      · rintro ⟨hi, heq⟩
        have hne : i ≠ n + 1 := by
          rintro rfl
          exact hp heq
        exact ⟨by omega, heq⟩
  · intro i hpos hi
    refine (hidle i).trans ?_
    split_ifs with hin
    · rfl
    · exact visited.idle i hpos (by omega)
  · exact ((hidle 0).trans (if_neg (by omega))).trans visited.first
  · exact (List.erase_cons_head _ _).trans visited.permits
  · exact (List.erase_cons_head _ _).trans visited.waiting

theorem Visited.visits (here : Visited start start 0) {n : ℕ} (hn : n ≤ LIMITER_PRUNE_THRESHOLD) :
    ∃ l, Run (fun l e l' => Step l e l' ∧ l.Careful e) start (visits n) l ∧ Visited start l n := by
  induction n with
  | zero => exact ⟨start, .nil start, here⟩
  | succ n ih =>
    obtain ⟨l, run, visited⟩ := ih (by omega)
    obtain ⟨l', run', visited'⟩ := visited.visit (by omega)
    exact ⟨l', run.append run', visited'⟩

/-- A lookup drops a semaphore that nobody holds. -/
theorem Visited.gone (visited : Visited start l LIMITER_PRUNE_THRESHOLD) {i : ℕ}
    (hi : i ≤ LIMITER_PRUNE_THRESHOLD) (idle : l.available i = 1) :
    l.pruned.lookup (ProjectId.sample i) = none := by
  by_contra hsome
  obtain ⟨j, hj⟩ := Option.ne_none_iff_exists'.1 hsome
  obtain ⟨hbefore, hbusy⟩ := pruned_eq_some.1 hj
  have hlt := hbusy (by rw [visited.size]; exact Nat.lt_succ_self _)
  obtain ⟨hle, heq⟩ := (visited.found _ _).1 hbefore
  simp only [LIMITER_PRUNE_THRESHOLD] at hi hle
  obtain rfl := ProjectId.sample_inj (by omega) (by omega) heq
  rw [visited.max, idle] at hlt
  exact Nat.lt_irrefl 1 hlt

/-- The limiter at which only the first project came. -/
def firstLooked (left : ℕ) (waiting permits : List (ProjectId × ℕ)) : InFlightLimiter where
  maxPerProject := 1
  byProject := (∅ : Table ProjectId ℕ).insert (ProjectId.sample 0) 0
  available := Function.update (Function.update (fun _ => 0) 0 1) 0 left
  made := 1
  waiting := waiting
  permits := permits

theorem firstLooked_visited {left : ℕ} {waiting permits : List (ProjectId × ℕ)} :
    Visited (firstLooked left waiting permits) (firstLooked left waiting permits) 0 := by
  refine ⟨rfl, rfl, rfl, ?_, ?_, rfl, rfl, rfl⟩
  · intro p i
    show ((∅ : Table ProjectId ℕ).insert (ProjectId.sample 0) 0).lookup p = some i ↔ _
    rw [Table.lookup_insert_eq]
    split_ifs with hp
    · simp only [Option.some.injEq, Nat.le_zero_eq]
      constructor
      · rintro rfl
        exact ⟨rfl, hp⟩
      · rintro ⟨rfl, -⟩
        rfl
    · have hnone : (∅ : Table ProjectId ℕ).lookup p = none := AList.lookup_empty p
      rw [hnone]
      constructor
      · intro h
        cases h
      · rintro ⟨hi, heq⟩
        obtain rfl : i = 0 := Nat.le_zero.1 hi
        exact absurd heq hp
  · intro i hpos hi
    omega

/-- A caller of the first project holds its permit, and another one looked up the semaphore. -/
def contention : List Event :=
  [.lookup (ProjectId.sample 0), .acquired (ProjectId.sample 0) 0, .lookup (ProjectId.sample 0)]

theorem contention_run : Run (fun l e l' => Step l e l' ∧ l.Careful e) (new 1) contention
    (firstLooked 0 [(ProjectId.sample 0, 0)] [(ProjectId.sample 0, 0)]) := by
  have first : Step (new 1) (.lookup (ProjectId.sample 0))
      (firstLooked 1 [(ProjectId.sample 0, 0)] []) := by
    have hstep := Step.lookup (l := new 1) (ProjectId.sample 0)
    simpa [semaphore, pruned, new, firstLooked] using hstep
  have second : Step (firstLooked 1 [(ProjectId.sample 0, 0)] []) (.acquired (ProjectId.sample 0) 0)
      (firstLooked 0 [] [(ProjectId.sample 0, 0)]) := by
    have hstep := @Step.acquired (firstLooked 1 [(ProjectId.sample 0, 0)] []) (ProjectId.sample 0) 0
      List.mem_cons_self Nat.one_pos
    simpa [firstLooked] using hstep
  have third : Step (firstLooked 0 [] [(ProjectId.sample 0, 0)]) (.lookup (ProjectId.sample 0))
      (firstLooked 0 [(ProjectId.sample 0, 0)] [(ProjectId.sample 0, 0)]) := by
    have hpruned : (firstLooked 0 [] [(ProjectId.sample 0, 0)]).pruned =
        (firstLooked 0 [] []).byProject :=
      if_neg (by decide)
    have hfound : (firstLooked 0 [] []).byProject.lookup (ProjectId.sample 0) = some 0 :=
      (firstLooked_visited.found _ _).2 ⟨le_rfl, rfl⟩
    have hlookup := Step.lookup (l := firstLooked 0 [] [(ProjectId.sample 0, 0)]) (ProjectId.sample 0)
    simp only [semaphore, hpruned, hfound] at hlookup
    exact hlookup
  refine .cons ⟨first, ?_⟩ (.cons ⟨second, trivial⟩ (.cons ⟨third, ?_⟩ (.nil _)))
  · intro hlarge
    exact absurd hlarge (by decide)
  · intro hlarge
    exact absurd hlarge (by decide)

end Visits

/-- No project holds more than its permits, as long as no lookup drops a semaphore that another caller
looked up and has not tried yet. -/
theorem outstanding_le {max : ℕ} {es : List Event}
    (run : Run (fun l e l' => Step l e l' ∧ l.Careful e) (new max) es l) (project : ProjectId) :
    l.outstanding project ≤ max := by
  have both : l.Tied ∧ l.maxPerProject = max := by
    refine run.invariant (I := fun l => l.Tied ∧ l.maxPerProject = max) ⟨Tied.new, rfl⟩ ?_
    rintro l e l' - ⟨tied, hmax⟩ ⟨h, careful⟩
    exact ⟨tied.step h careful, (maxPerProject_step h).trans hmax⟩
  exact both.2 ▸ both.1.bounded

/-- A caller waits while ten thousand projects come and go; a third lookup then drops their semaphores,
and finds the first project's own one, of which the permit is out. -/
theorem outstanding_le_pruned : ∃ l l',
    Run (fun l e l' => Step l e l' ∧ l.Careful e) (new 1)
      (contention ++ visits LIMITER_PRUNE_THRESHOLD) l ∧
    l.byProject.size > LIMITER_PRUNE_THRESHOLD ∧ l.waiting = [(ProjectId.sample 0, 0)] ∧
    Run (fun l e l' => Step l e l' ∧ l.Careful e) l [.lookup (ProjectId.sample 0),
      .refused (ProjectId.sample 0) 0, .refused (ProjectId.sample 0) 0] l' ∧
    l'.byProject.lookup (ProjectId.sample 1) = none ∧ l'.permits = [(ProjectId.sample 0, 0)] ∧
    l'.outstanding (ProjectId.sample 0) ≤ 1 := by
  obtain ⟨l, run, visited⟩ := firstLooked_visited.visits le_rfl
  have hlarge : l.byProject.size > LIMITER_PRUNE_THRESHOLD := by
    rw [visited.size]
    exact Nat.lt_succ_self _
  have hbusy : l.available 0 = 0 := visited.first
  have hfound : l.pruned.lookup (ProjectId.sample 0) = some 0 := by
    refine pruned_eq_some.2 ⟨(visited.found _ _).2 ⟨Nat.zero_le _, rfl⟩, fun _ => ?_⟩
    rw [hbusy, visited.max]
    exact Nat.one_pos
  have hgone : l.pruned.lookup (ProjectId.sample 1) = none :=
    visited.gone (by decide) (visited.idle 1 le_rfl (by decide))
  have step : Step l (.lookup (ProjectId.sample 0)) { l with
      byProject := l.pruned
      waiting := [(ProjectId.sample 0, 0), (ProjectId.sample 0, 0)] } := by
    have hlookup := Step.lookup (l := l) (ProjectId.sample 0)
    have hwaiting : l.waiting = [(ProjectId.sample 0, 0)] := visited.waiting
    simpa only [semaphore, hfound, hwaiting] using hlookup
  -- The caller that waits looked up a semaphore whose permit is out.
  have careful : l.Careful (.lookup (ProjectId.sample 0)) := by
    intro _ caller hcaller
    rw [visited.waiting] at hcaller
    obtain rfl := List.mem_singleton.1 hcaller
    rw [hbusy, visited.max]
    exact Nat.one_pos
  have last : Run (fun l e l' => Step l e l' ∧ l.Careful e) l [.lookup (ProjectId.sample 0),
      .refused (ProjectId.sample 0) 0, .refused (ProjectId.sample 0) 0]
      { l with byProject := l.pruned, waiting := [] } := by
    refine .cons ⟨step, careful⟩ (.cons ⟨.refused List.mem_cons_self hbusy, trivial⟩ ?_)
    have hstep := @Step.refused { l with
      byProject := l.pruned
      waiting := [(ProjectId.sample 0, 0)] } (ProjectId.sample 0) 0 List.mem_cons_self hbusy
    rw [List.erase_cons_head] at hstep ⊢
    exact .single ⟨hstep, trivial⟩
  exact ⟨l, _, contention_run.append run, hlarge, visited.waiting, last, hgone, visited.permits,
    outstanding_le ((contention_run.append run).append last) (ProjectId.sample 0)⟩

/-- A project holds two permits where it should hold one: a lookup drops the semaphore that another
caller looked up before, and both callers take a permit of their own semaphore. -/
theorem two_outstanding : ¬ ∀ (max : ℕ) (es : List Event) (l : InFlightLimiter) (project : ProjectId),
    Run Step (new max) es l → l.outstanding project ≤ max := by
  intro h
  have first : Run Step (new 1) [.lookup (ProjectId.sample 0)]
      (firstLooked 1 [(ProjectId.sample 0, 0)] []) := by
    have hstep := Step.lookup (l := new 1) (ProjectId.sample 0)
    exact .single (by simpa [semaphore, pruned, new, firstLooked] using hstep)
  obtain ⟨l, visits, hl⟩ :=
    (@firstLooked_visited 1 [(ProjectId.sample 0, 0)] []).visits le_rfl
  have run := first.append (visits.mono fun _ _ _ h => h.1)
  have hidle : l.available 0 = 1 := hl.first
  have hwaiting : l.waiting = [(ProjectId.sample 0, 0)] := hl.waiting
  -- The semaphore of the first project is idle, so the lookup drops it.
  have hnone : l.pruned.lookup (ProjectId.sample 0) = none := hl.gone (Nat.zero_le _) hidle
  set l₁ : InFlightLimiter := { l with
    byProject := l.pruned.insert (ProjectId.sample 0) l.made
    available := Function.update l.available l.made l.maxPerProject
    made := l.made + 1
    waiting := (ProjectId.sample 0, l.made) :: l.waiting } with hl₁
  have step₁ : Step l (.lookup (ProjectId.sample 0)) l₁ := by
    have hlookup := Step.lookup (l := l) (ProjectId.sample 0)
    simpa only [semaphore, hnone] using hlookup
  have hold : l₁.available 0 = 1 := by
    show Function.update l.available l.made l.maxPerProject 0 = 1
    rw [Function.update_of_ne (by rw [hl.made]; simp), hidle]
  have hmade : l.made ≠ 0 := by rw [hl.made]; simp
  have step₂ := @Step.acquired l₁ (ProjectId.sample 0) 0
    (List.mem_cons_of_mem _ (hwaiting ▸ List.mem_cons_self)) (by omega)
  have hnew : Function.update l₁.available 0 (l₁.available 0 - 1) l.made = 1 := by
    rw [Function.update_of_ne hmade]
    show Function.update l.available l.made l.maxPerProject l.made = 1
    rw [Function.update_self, hl.max]
  have hwaits : (ProjectId.sample 0, l.made) ∈ l₁.waiting.erase (ProjectId.sample 0, 0) :=
    (List.mem_erase_of_ne fun heq => hmade (Prod.mk.inj heq).2).2 List.mem_cons_self
  have step₃ := Step.acquired (l := { l₁ with
    waiting := l₁.waiting.erase (ProjectId.sample 0, 0)
    available := Function.update l₁.available 0 (l₁.available 0 - 1)
    permits := (ProjectId.sample 0, 0) :: l₁.permits }) hwaits (Nat.lt_of_lt_of_eq Nat.one_pos hnew.symm)
  have hle := h 1 _ _ (ProjectId.sample 0)
    (run.append (.cons step₁ (.cons step₂ (.cons step₃ (.nil _)))))
  have hpermits : l₁.permits = [] := hl.permits
  simp [outstanding, hpermits] at hle

end InFlightLimiter

end ZolanaTvc.Gateway
