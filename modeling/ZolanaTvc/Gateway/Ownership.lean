import ZolanaTvc.Control.Run
import ZolanaTvc.Gateway.Upstream
import ZolanaTvc.Store.Table

/-!
# Whose a sub-organization is

A sub-organization is named after the project that it belongs to. Many callers ask for a name at once, and
what Turnkey answers is cached for a while. A caller runs from one await point to the next, and may leave
while Turnkey is asked.

## Main results

* `SubOrgProjects.known_of_run`: the name that a check goes by is one that Turnkey gave for the
  sub-organization, not longer ago than entries are kept.
-/

namespace ZolanaTvc.Gateway

open Protocol Except Effectful

def OWNERSHIP_CACHE_CAPACITY : ℕ := 100000

/-- A call of `verify_sub_org_project`. -/
structure SubOrgCall where
  project : ProjectId
  organizationId : String

/-- Where in `verify_sub_org_project` a caller is. -/
inductive Check where
  | idle
  /-- Turnkey is being asked. -/
  | asking (permits : Permits)
  /-- What the check goes by, and since when. -/
  | found (readings : SubOrgReadings) (since : ℕ)
  | left

/-- An answer of Turnkey to `get_whoami`. -/
structure Whoami where
  organizationId : String
  organizationName : String
  receivedAt : ℕ

/-- The part of `Turnkey` that the checks share, where each of them is, and what Turnkey has answered,
which nobody reads. -/
structure SubOrgProjects where
  now : ℕ
  cache : Table String (String × ℕ)
  check : ℕ → Check
  answered : List Whoami

/-- What happens, and to which caller. -/
inductive SubOrgEvent where
  | passed (now : ℕ)
  | hit (i : ℕ)
  | refused (i : ℕ)
  | asked (i : ℕ)
  | answered (i : ℕ)
  | left (i : ℕ)

namespace SubOrgProjects

def start (now : ℕ) : SubOrgProjects := ⟨now, ∅, fun _ => .idle, []⟩

/-- `cached_sub_org_project` -/
def cached (ttl : ℕ) (s : SubOrgProjects) (organizationId : String) : Option String :=
  match s.cache.lookup organizationId with
  | some (name, fetchedAt) => if s.now - fetchedAt < ttl then some name else none
  | none => none

/-- The end of `fetch_sub_org_project`. -/
def insert (s : SubOrgProjects) (organizationId name : String) : SubOrgProjects :=
  let cache := if OWNERSHIP_CACHE_CAPACITY ≤ s.cache.size then ∅ else s.cache
  { s with
    cache := cache.insert organizationId (name, s.now)
    answered := ⟨organizationId, name, s.now⟩ :: s.answered }

/-- After Turnkey's reply, which is dated when the caller takes it up. -/
def replied (s : SubOrgProjects) (organizationId : String) : TurnkeyReply String → SubOrgProjects
  | .ok name => s.insert organizationId name
  | .error _ => s

def set (s : SubOrgProjects) (i : ℕ) (check : Check) : SubOrgProjects :=
  { s with check := Function.update s.check i check }

/-- A step of one caller, or the time. The readings of a check that no step takes are any. -/
inductive Step (ttl : ℕ) (call : ℕ → SubOrgCall) (s : SubOrgProjects) :
    SubOrgEvent → SubOrgProjects → Prop where
  | passed {now : ℕ} (later : s.now ≤ now) : Step ttl call s (.passed now) { s with now := now }
  | hit {i : ℕ} {r : SubOrgReadings} {name : String} (idle : s.check i = .idle)
      (cached : s.cached ttl (call i).organizationId = some name) (reading : r.cached = some name) :
      Step ttl call s (.hit i) (s.set i (.found r s.now))
  | refused {i : ℕ} {r : SubOrgReadings} {e : ApiError} (idle : s.check i = .idle)
      (missed : s.cached ttl (call i).organizationId = none) (reading : r.cached = none)
      (refusal : callPermit (.project (call i).project) r.permits = .error e) :
      Step ttl call s (.refused i) (s.set i (.found r s.now))
  | asked {i : ℕ} {permits : Permits} (idle : s.check i = .idle)
      (missed : s.cached ttl (call i).organizationId = none)
      (permit : callPermit (.project (call i).project) permits = .ok ()) :
      Step ttl call s (.asked i) (s.set i (.asking permits))
  | answered {i : ℕ} {permits : Permits} (reply : TurnkeyReply String)
      (asking : s.check i = .asking permits) :
      Step ttl call s (.answered i)
        ((s.replied (call i).organizationId reply).set i (.found ⟨none, permits, reply⟩ s.now))
  | left {i : ℕ} {permits : Permits} (asking : s.check i = .asking permits) :
      Step ttl call s (.left i) (s.set i .left)

variable {ttl : ℕ} {call : ℕ → SubOrgCall} {s s' : SubOrgProjects} {e : SubOrgEvent}
  {organizationId name : String} {since : ℕ}

/-- Turnkey gave the name for the sub-organization, not longer ago than entries are kept. -/
def Known (ttl : ℕ) (s : SubOrgProjects) (organizationId name : String) (since : ℕ) : Prop :=
  ∃ receivedAt, ⟨organizationId, name, receivedAt⟩ ∈ s.answered ∧ receivedAt ≤ since ∧
    since ≤ receivedAt + ttl

theorem Known.mono (h : Known ttl s organizationId name since)
    (answered : ∀ whoami ∈ s.answered, whoami ∈ s'.answered) :
    Known ttl s' organizationId name since := by
  obtain ⟨receivedAt, hmem, hreceived⟩ := h
  exact ⟨receivedAt, answered _ hmem, hreceived⟩

/-- What holds after every run. -/
structure Dated (ttl : ℕ) (call : ℕ → SubOrgCall) (s : SubOrgProjects) : Prop where
  cache : ∀ organizationId name fetchedAt, s.cache.lookup organizationId = some (name, fetchedAt) →
    ⟨organizationId, name, fetchedAt⟩ ∈ s.answered ∧ fetchedAt ≤ s.now
  found : ∀ i r since name, s.check i = .found r since →
    (subOrgProject (call i).project r).result = .ok name →
      Known ttl s (call i).organizationId name since

theorem dated_start (now : ℕ) : Dated ttl call (start now) where
  cache _ _ _ h := by cases h
  found _ _ _ _ h := by cases h

@[simp] theorem set_check (s : SubOrgProjects) (i j : ℕ) (check : Check) :
    (s.set i check).check j = if j = i then check else s.check j := Function.update_apply ..

@[simp] theorem replied_check (s : SubOrgProjects) (organizationId : String) (reply : TurnkeyReply String) :
    (s.replied organizationId reply).check = s.check := by
  cases reply <;> rfl

theorem mem_replied (s : SubOrgProjects) (organizationId : String) (reply : TurnkeyReply String)
    {whoami : Whoami} (h : whoami ∈ s.answered) : whoami ∈ (s.replied organizationId reply).answered := by
  cases reply with
  | ok name => exact List.mem_cons_of_mem _ h
  | error status => exact h

/-- Nothing that Turnkey answered is unsaid, and no check is made twice. -/
theorem step_mono (h : Step ttl call s e s') : (∀ whoami ∈ s.answered, whoami ∈ s'.answered) ∧
    ∀ i r since, s.check i = .found r since → s'.check i = .found r since := by
  have hset : ∀ {i : ℕ} {check : Check}, (∀ r since, s.check i ≠ .found r since) →
      ∀ j r since, s.check j = .found r since → (s.set i check).check j = .found r since := by
    intro i check hi j r since hj
    by_cases hji : j = i
    · exact absurd (hji ▸ hj) (hi r since)
    · rw [set_check, if_neg hji, hj]
  cases h with
  | passed => exact ⟨fun _ h => h, fun _ _ _ h => h⟩
  | hit idle | refused idle | asked idle =>
    refine ⟨fun _ h => h, hset fun r since h => ?_⟩
    rw [idle] at h
    cases h
  | @answered i permits reply asking =>
    refine ⟨fun _ h => mem_replied s _ reply h, fun j r since hj => ?_⟩
    rw [set_check, replied_check, ← set_check]
    refine hset (fun r since h => ?_) j r since hj
    rw [asking] at h
    cases h
  | left asking =>
    refine ⟨fun _ h => h, hset fun r since h => ?_⟩
    rw [asking] at h
    cases h

/-- The cache knows what it was told. -/
theorem Dated.cached (h : Dated ttl call s) (hcached : s.cached ttl organizationId = some name) :
    Known ttl s organizationId name s.now := by
  unfold SubOrgProjects.cached at hcached
  split at hcached
  · next name' fetchedAt hlookup =>
    split_ifs at hcached with hfresh
    obtain rfl := Option.some.inj hcached
    obtain ⟨hmem, hle⟩ := h.cache _ _ _ hlookup
    exact ⟨fetchedAt, hmem, hle, by omega⟩
  · cases hcached

/-- A caller's check is set, and what it goes by is known. -/
theorem Dated.set (h : Dated ttl call s) {i : ℕ} {check : Check}
    (known : ∀ r since name, check = .found r since →
      (subOrgProject (call i).project r).result = .ok name →
        Known ttl s (call i).organizationId name since) : Dated ttl call (s.set i check) where
  cache := h.cache
  found j r since name hj hname := by
    rw [set_check] at hj
    split_ifs at hj with hji
    · subst hji
      exact known r since name hj hname
    · exact h.found j r since name hj hname

theorem Dated.replied (h : Dated ttl call s) (reply : TurnkeyReply String) :
    Dated ttl call (s.replied organizationId reply) where
  cache organizationId' name' fetchedAt hlookup := by
    cases reply with
    | ok name =>
      have hlookup : ((if OWNERSHIP_CACHE_CAPACITY ≤ s.cache.size then ∅ else s.cache).insert organizationId
          (name, s.now)).lookup organizationId' = some (name', fetchedAt) := hlookup
      rw [Table.lookup_insert_eq] at hlookup
      split_ifs at hlookup with hsame hfull
      · obtain ⟨rfl, rfl⟩ := Prod.mk.inj (Option.some.inj hlookup)
        exact ⟨hsame ▸ List.mem_cons_self, le_rfl⟩
      · cases hlookup
      · obtain ⟨hmem, hle⟩ := h.cache _ _ _ hlookup
        exact ⟨List.mem_cons_of_mem _ hmem, hle⟩
    | error status => exact h.cache _ _ _ hlookup
  found i r since name hi hname :=
    (h.found i r since name (replied_check s organizationId reply ▸ hi) hname).mono
      fun _ hmem => mem_replied s _ reply hmem

theorem Dated.step (h : Dated ttl call s) (hstep : Step ttl call s e s') : Dated ttl call s' := by
  cases hstep with
  | passed later =>
    exact ⟨fun _ _ _ hlookup => (h.cache _ _ _ hlookup).imp_right (·.trans later), h.found⟩
  | @hit i r name idle cached reading =>
    refine h.set fun r' since name' heq hname => ?_
    obtain ⟨rfl, rfl⟩ := Check.found.inj heq
    rw [subOrgProject, reading] at hname
    obtain rfl : name = name' := Except.ok.inj hname
    exact h.cached cached
  | @refused i r error idle missed reading refusal =>
    refine h.set fun r' since name' heq hname => ?_
    obtain ⟨rfl, rfl⟩ := Check.found.inj heq
    rw [subOrgProject, reading] at hname
    have hpermit := (fetchSubOrgProject_ok.1 hname).1
    rw [refusal] at hpermit
    cases hpermit
  | asked | left =>
    refine h.set fun r' since name' heq hname => ?_
    cases heq
  | @answered i permits reply asking =>
    refine (h.replied reply).set fun r' since name' heq hname => ?_
    obtain ⟨rfl, rfl⟩ := Check.found.inj heq
    obtain rfl : reply = .ok name' := (fetchSubOrgProject_ok.1 hname).2
    exact ⟨s.now, List.mem_cons_self, le_rfl, Nat.le_add_right ..⟩

theorem Dated.run (h : Dated ttl call s) {es : List SubOrgEvent} (run : Run (Step ttl call) s es s') :
    Dated ttl call s' := run.invariant h fun _ _ _ _ h hstep => h.step hstep

/-- The name that a check goes by is one that Turnkey gave for the sub-organization, not longer ago than
entries are kept. -/
theorem known_of_run {now : ℕ} {es : List SubOrgEvent} (run : Run (Step ttl call) (start now) es s) {i : ℕ}
    {r : SubOrgReadings} (found : s.check i = .found r since)
    (passed : (verifySubOrgProject (call i).project r).result = .ok ()) :
    Known ttl s (call i).organizationId (call i).project.text since := by
  refine ((dated_start now).run run).found i r since _ found ?_
  rw [verifySubOrgProject, result_bind, bind_eq_ok] at passed
  obtain ⟨name, hname, hsame⟩ := passed
  obtain rfl : name = (call i).project.text := not_ne_iff.1 (refuse_eq_ok.1 hsame)
  exact hname

section Sample

/-- Every caller asks for the project of one sub-organization. -/
def sampleCall (_ : ℕ) : SubOrgCall := ⟨.sample 0, "org"⟩

/-- The second check goes by the name that Turnkey gave to the first one 59 ticks before. -/
theorem known_of_run_cached : ∃ es s r, Run (Step 60 sampleCall) (start 0) es s ∧
    s.check 1 = .found r 59 ∧ r.cached = some (ProjectId.sample 0).text ∧
    Known 60 s "org" (ProjectId.sample 0).text 59 := by
  have hcached : ∀ name check answered, (⟨59, (∅ : Table String (String × ℕ)).insert "org" (name, 0), check,
      answered⟩ : SubOrgProjects).cached 60 "org" = some name := by
    intro name check answered
    unfold cached
    rw [Table.lookup_insert_eq, if_pos rfl]
    rfl
  obtain ⟨s, run, hfound⟩ : ∃ s, Run (Step 60 sampleCall) (start 0)
      [.asked 0, .answered 0, .passed 59, .hit 1] s ∧
      s.check 1 = .found ⟨some (ProjectId.sample 0).text, ⟨true, true⟩, .error none⟩ 59 :=
    ⟨_, .cons (@Step.asked _ _ _ 0 ⟨true, true⟩ rfl rfl rfl) <|
      .cons (.answered (.ok (ProjectId.sample 0).text) rfl) <| .cons (.passed (Nat.zero_le 59)) <|
      .single (.hit (r := ⟨_, ⟨true, true⟩, .error none⟩) rfl (hcached _ _ _) rfl),
      (set_check ..).trans (if_pos rfl)⟩
  have hpassed : (verifySubOrgProject (sampleCall 1).project
      ⟨some (ProjectId.sample 0).text, ⟨true, true⟩, .error none⟩).result = .ok () := by decide
  exact ⟨_, s, _, run, hfound, rfl, known_of_run run hfound hpassed⟩

end Sample

end SubOrgProjects

end ZolanaTvc.Gateway
