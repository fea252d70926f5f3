import ZolanaTvc.Control.Run
import ZolanaTvc.Gateway.Error
import ZolanaTvc.Store.Table

/-!
# The ledger of one process

The ledger keeps the first outcome of each ciphertext in two generations of entries. A claim that comes a
window after the last rotation, or finds the current generation full, first drops the older generation
and starts a new one.
-/

namespace ZolanaTvc.Gateway

open Protocol

/-- The digest of a project and a ciphertext that it claimed. -/
structure Key where
  digest : ByteArrayOf 32
deriving DecidableEq

inductive Entry where
  | running
  | answered (outcome : Outcome)

/-- What a claim that is not refused got. -/
inductive Claim where
  | new (key : Key)
  | answered (outcome : Outcome)

structure Generations where
  maps : Fin 2 → Table Key Entry
  current : Fin 2
  rotatedAt : ℕ

/-- The ledger of one process. Instants are counted in nanoseconds. -/
structure LocalLedger where
  window : ℕ
  maxEntries : ℕ
  state : Generations

namespace Generations

/-- The index of the generation that is not current. -/
def other (g : Generations) : Fin 2 := g.current ^^^ 1

def rotate (g : Generations) (now : ℕ) : Generations where
  maps := Function.update g.maps g.other ∅
  current := g.other
  rotatedAt := now

/-- `get_mut`, read. -/
def get (g : Generations) (key : Key) : Option Entry :=
  (g.maps 0).lookup key <|> (g.maps 1).lookup key

/-- `get_mut`, written where an entry is found. -/
def set (g : Generations) (key : Key) (entry : Entry) : Generations :=
  if key ∈ g.maps 0 then { g with maps := Function.update g.maps 0 ((g.maps 0).insert key entry) }
  else if key ∈ g.maps 1 then
    { g with maps := Function.update g.maps 1 ((g.maps 1).insert key entry) }
  else g

def insert (g : Generations) (key : Key) (entry : Entry) : Generations :=
  { g with maps := Function.update g.maps g.current ((g.maps g.current).insert key entry) }

def remove (g : Generations) (key : Key) : Generations :=
  { g with maps := fun i => (g.maps i).erase key }

end Generations

namespace LocalLedger

def new (window maxEntries start : ℕ) : LocalLedger where
  window := window
  maxEntries := maxEntries
  state := ⟨fun _ => ∅, 0, start⟩

/-- A claim made at `now` first rotates the generations. -/
def rotates (ledger : LocalLedger) (now : ℕ) : Prop :=
  ledger.window ≤ now - ledger.state.rotatedAt ∨
    ledger.maxEntries ≤ (ledger.state.maps ledger.state.current).size

instance rotates.decidable (ledger : LocalLedger) (now : ℕ) : Decidable (ledger.rotates now) :=
  inferInstanceAs (Decidable (_ ∨ _))

/-- The generations that a claim made at `now` looks at. -/
def rotated (ledger : LocalLedger) (now : ℕ) : Generations :=
  if ledger.rotates now then ledger.state.rotate now else ledger.state

def claim (ledger : LocalLedger) (key : Key) (now : ℕ) : Except ApiError Claim × LocalLedger :=
  -- At most one rotation, however long ago the last one was.
  let state := ledger.rotated now
  match state.get key with
  | none => (.ok (.new key), { ledger with state := state.insert key .running })
  | some .running => (.error .operationInProgress, { ledger with state })
  | some (.answered outcome) => (.ok (.answered outcome), { ledger with state })

def record (ledger : LocalLedger) (key : Key) (outcome : Outcome) : LocalLedger :=
  -- Written where the entry is; a key that was forgotten meanwhile stays forgotten.
  { ledger with state := ledger.state.set key (.answered outcome) }

def release (ledger : LocalLedger) (key : Key) : LocalLedger :=
  { ledger with state := ledger.state.remove key }

end LocalLedger

/-- A call of the ledger, with what it answered. -/
inductive LedgerEvent where
  | claim (key : Key) (now : ℕ) (answer : Except ApiError Claim)
  | record (key : Key) (outcome : Outcome)
  | release (key : Key)

namespace LocalLedger

/-- The ledger after a call. -/
def next (ledger : LocalLedger) : LedgerEvent → LocalLedger
  | .claim key now _ => (ledger.claim key now).2
  | .record key outcome => ledger.record key outcome
  | .release key => ledger.release key

/-- A call, and what it answered. -/
def Step (ledger : LocalLedger) : LedgerEvent → LocalLedger → Prop
  | .claim key now answer, ledger' => ledger.claim key now = (answer, ledger')
  | .record key outcome, ledger' => ledger.record key outcome = ledger'
  | .release key, ledger' => ledger.release key = ledger'

end LocalLedger

namespace Generations

variable {g : Generations} {key key' : Key} {entry : Entry} {now : ℕ}

theorem flip_ne (i : Fin 2) : i ^^^ 1 ≠ i := by
  decide +revert

theorem flip_flip (i : Fin 2) : i ^^^ 1 ^^^ 1 = i := by
  decide +revert

/-- How many rotations ago the entry of a key was made. -/
def age (g : Generations) (key : Key) : Option ℕ :=
  bif ((g.maps g.current).lookup key).isSome then some 0
  else bif ((g.maps g.other).lookup key).isSome then some 1 else none

/-- No key has an entry in both generations. -/
def Apart (g : Generations) : Prop := ∀ i key, key ∈ g.maps i → key ∉ g.maps (i ^^^ 1)

theorem get_eq_none : g.get key = none ↔ ∀ i, key ∉ g.maps i := by
  simp [get, Fin.forall_fin_two, AList.lookup_eq_none]

theorem get_eq_lookup (apart : g.Apart) {i : Fin 2} (h : key ∈ g.maps i) :
    g.get key = (g.maps i).lookup key := by
  obtain ⟨entry, hentry⟩ := Option.isSome_iff_exists.1 (AList.lookup_isSome.2 h)
  fin_cases i
  · simp_all [get]
  · have hnot : key ∉ g.maps 0 := apart 1 key h
    simp [get, AList.lookup_eq_none.2 hnot]

theorem get_eq_none_iff_age : g.get key = none ↔ g.age key = none := by
  have hboth : (∀ i, key ∉ g.maps i) ↔ key ∉ g.maps g.current ∧ key ∉ g.maps g.other := by
    simp only [other]
    generalize g.current = i
    fin_cases i <;> simp [Fin.forall_fin_two, and_comm]
  rw [get_eq_none, hboth, age, ← AList.lookup_eq_none, ← AList.lookup_eq_none]
  cases (g.maps g.current).lookup key <;> cases (g.maps g.other).lookup key <;> simp

theorem age_rotate : (g.rotate now).age key = if g.age key = some 0 then some 1 else none := by
  have hold : (g.rotate now).maps (g.rotate now).other = g.maps g.current := by
    simp [rotate, other, flip_flip, Function.update_of_ne (flip_ne g.current).symm]
  have hyoung : (g.rotate now).maps (g.rotate now).current = ∅ := by
    simp [rotate]
  have hage : (g.rotate now).age key =
      bif ((g.maps g.current).lookup key).isSome then some 1 else none := by
    rw [age, hold, hyoung]
    rfl
  rw [hage]
  cases hcurrent : ((g.maps g.current).lookup key).isSome <;>
    cases hother : ((g.maps g.other).lookup key).isSome <;> simp [age, hcurrent, hother]

theorem rotate_maps (i : Fin 2) :
    (g.rotate now).maps i = if i = g.other then ∅ else g.maps i := by
  simp [rotate, Function.update_apply]

theorem Apart.rotate (apart : g.Apart) : (g.rotate now).Apart := by
  intro i key hi hother
  rw [rotate_maps] at hi hother
  split_ifs at hi hother
  · exact AList.notMem_empty key hi
  · exact AList.notMem_empty key hi
  · exact AList.notMem_empty key hother
  · exact apart i key hi hother

theorem get_rotate (apart : g.Apart) :
    (g.rotate now).get key = if g.age key = some 0 then g.get key else none := by
  split_ifs with h
  · have hmem : key ∈ g.maps g.current := by
      by_contra hnot
      rw [age, AList.lookup_eq_none.2 hnot] at h
      cases hother : ((g.maps g.other).lookup key).isSome <;> simp [hother] at h
    have hmaps : (g.rotate now).maps g.current = g.maps g.current := by
      rw [rotate_maps, other, if_neg (flip_ne g.current).symm]
    rw [get_eq_lookup apart hmem, get_eq_lookup apart.rotate (hmaps ▸ hmem), hmaps]
  · rw [get_eq_none_iff_age, age_rotate, if_neg h]

theorem age_insert :
    (g.insert key entry).age key' = if key' = key then some 0 else g.age key' := by
  have hother : (g.insert key entry).maps g.other = g.maps g.other := by
    simp [insert, other, Function.update_of_ne (flip_ne g.current)]
  have hcurrent : (g.insert key entry).maps g.current = (g.maps g.current).insert key entry := by
    simp [insert]
  show (bif (((g.insert key entry).maps g.current).lookup key').isSome then some 0
    else bif (((g.insert key entry).maps g.other).lookup key').isSome then some 1 else none) = _
  rw [hother, hcurrent, Table.lookup_insert_eq, age]
  by_cases hkey : key' = key <;> simp [hkey]

theorem Apart.insert (apart : g.Apart) (hnone : g.get key = none) : (g.insert key entry).Apart := by
  have hmem : ∀ i key', key' ∈ (g.insert key entry).maps i ↔
      key' ∈ g.maps i ∨ i = g.current ∧ key' = key := by
    intro i key'
    by_cases hi : i = g.current
    · subst hi
      simp [Generations.insert, or_comm]
    · simp [Generations.insert, hi]
  intro i key' hi hother
  rw [hmem] at hi hother
  obtain hi | ⟨hi, rfl⟩ := hi
  · obtain hother | ⟨-, rfl⟩ := hother
    · exact apart i key' hi hother
    · exact get_eq_none.1 hnone i hi
  · obtain hother | ⟨hflip, -⟩ := hother
    · exact get_eq_none.1 hnone _ hother
    · exact flip_ne i (hflip.trans hi.symm)

theorem get_insert (hnone : g.get key = none) :
    (g.insert key entry).get key' = if key' = key then some entry else g.get key' := by
  have hlookup : ∀ i, ((g.insert key entry).maps i).lookup key' =
      if key' = key ∧ i = g.current then some entry else (g.maps i).lookup key' := by
    intro i
    by_cases hi : i = g.current
    · subst hi
      simp [insert, Table.lookup_insert_eq]
    · simp [insert, hi]
  have hne : ∀ i, (g.maps i).lookup key = none := fun i =>
    AList.lookup_eq_none.2 (get_eq_none.1 hnone i)
  simp only [get, hlookup]
  by_cases hkey : key' = key
  · subst hkey
    generalize g.current = i
    fin_cases i <;> simp [hne]
  · simp [hkey]

theorem size_insert (hnone : g.get key = none) (i : Fin 2) :
    ((g.insert key entry).maps i).size = (g.maps i).size + if i = g.current then 1 else 0 := by
  by_cases hi : i = g.current
  · subst hi
    simp [insert, Table.size_insert_of_notMem (get_eq_none.1 hnone g.current)]
  · simp [insert, hi]

theorem set_maps_mem {i : Fin 2} : key' ∈ (g.set key entry).maps i ↔ key' ∈ g.maps i := by
  rw [set]
  split_ifs with h0 h1
  · fin_cases i
    · simp only [Fin.zero_eta, Function.update_self, AList.mem_insert, or_iff_right_iff_imp]
      rintro rfl
      exact h0
    · simp
  · fin_cases i
    · simp
    · simp only [Fin.mk_one, Function.update_self, AList.mem_insert, or_iff_right_iff_imp]
      rintro rfl
      exact h1
  · rfl

theorem set_current : (g.set key entry).current = g.current := by
  rw [set]
  split_ifs <;> rfl

theorem set_rotatedAt : (g.set key entry).rotatedAt = g.rotatedAt := by
  rw [set]
  split_ifs <;> rfl

theorem age_set : (g.set key entry).age key' = g.age key' := by
  have hsome : ∀ i, (((g.set key entry).maps i).lookup key').isSome =
      ((g.maps i).lookup key').isSome := fun i =>
    Bool.eq_iff_iff.2 (by rw [AList.lookup_isSome, AList.lookup_isSome, set_maps_mem])
  simp only [age, other, set_current, hsome]

theorem Apart.set (apart : g.Apart) : (g.set key entry).Apart := by
  intro i key' hi hother
  rw [set_maps_mem] at hi hother
  exact apart i key' hi hother

theorem get_set : (g.set key entry).get key' =
    if key' = key then (g.get key).map fun _ => entry else g.get key' := by
  by_cases h0 : key ∈ g.maps 0
  · obtain ⟨old, hold⟩ := Option.isSome_iff_exists.1 (AList.lookup_isSome.2 h0)
    by_cases hkey : key' = key
    · subst hkey
      simp [set, get, h0, hold]
    · simp [set, get, h0, hkey]
  · have hzero := AList.lookup_eq_none.2 h0
    by_cases h1 : key ∈ g.maps 1
    · obtain ⟨old, hold⟩ := Option.isSome_iff_exists.1 (AList.lookup_isSome.2 h1)
      by_cases hkey : key' = key
      · subst hkey
        simp [set, get, h0, h1, hold, hzero]
      · simp [set, get, h0, h1, hkey]
    · have hone := AList.lookup_eq_none.2 h1
      by_cases hkey : key' = key
      · subst hkey
        simp [set, get, h0, h1, hone, hzero]
      · simp [set, h0, h1, hkey]

theorem size_set (i : Fin 2) : ((g.set key entry).maps i).size = (g.maps i).size := by
  rw [set]
  split_ifs with h0 h1
  · fin_cases i
    · simp [Table.size_insert_of_mem h0]
    · simp
  · fin_cases i
    · simp
    · simp [Table.size_insert_of_mem h1]
  · rfl

theorem age_remove : (g.remove key).age key' = if key' = key then none else g.age key' := by
  by_cases hkey : key' = key <;> simp [age, remove, other, Table.lookup_erase_eq, hkey]

theorem Apart.remove (apart : g.Apart) : (g.remove key).Apart := by
  intro i key' hi hother
  exact apart i key' (AList.mem_erase.1 hi).2 (AList.mem_erase.1 hother).2

theorem get_remove : (g.remove key).get key' = if key' = key then none else g.get key' := by
  by_cases hkey : key' = key
  · subst hkey
    simp [get, remove]
  · simp [get, remove, hkey, AList.lookup_erase_ne hkey]

end Generations

/-- What a claim of a known key is answered. -/
def Entry.answer : Entry → Except ApiError Claim
  | .running => .error .operationInProgress
  | .answered outcome => .ok (.answered outcome)

theorem Entry.answer_ne_new {entry : Entry} {key : Key} : entry.answer ≠ .ok (.new key) := by
  cases entry <;> simp [answer]

namespace LocalLedger

variable {ledger ledger' : LocalLedger} {key key' : Key} {now : ℕ} {entry : Entry} {e : LedgerEvent}

theorem claim_new (h : (ledger.rotated now).get key = none) : ledger.claim key now =
    (.ok (.new key), { ledger with state := (ledger.rotated now).insert key .running }) := by
  simp only [claim, h]

theorem claim_known (h : (ledger.rotated now).get key = some entry) :
    ledger.claim key now = (entry.answer, { ledger with state := ledger.rotated now }) := by
  cases entry <;> simp only [claim, h, Entry.answer]

theorem claim_eq_new {k : Key} :
    (ledger.claim key now).1 = .ok (.new k) ↔ (ledger.rotated now).get key = none ∧ k = key := by
  cases h : (ledger.rotated now).get key with
  | none =>
    rw [claim_new h]
    simp [eq_comm]
  | some entry =>
    rw [claim_known h]
    simp [Entry.answer_ne_new]

/-- Every step is one of these. -/
theorem step_cases (h : ledger.Step e ledger') :
    (∃ key now, e = .claim key now (.ok (.new key)) ∧ (ledger.rotated now).get key = none ∧
      ledger' = { ledger with state := (ledger.rotated now).insert key .running }) ∨
    (∃ key now entry, e = .claim key now entry.answer ∧ (ledger.rotated now).get key = some entry ∧
      ledger' = { ledger with state := ledger.rotated now }) ∨
    (∃ key outcome, e = .record key outcome ∧
      ledger' = { ledger with state := ledger.state.set key (.answered outcome) }) ∨
    ∃ key, e = .release key ∧ ledger' = { ledger with state := ledger.state.remove key } := by
  cases e with
  | claim key now answer =>
    have h : ledger.claim key now = (answer, ledger') := h
    cases hget : (ledger.rotated now).get key with
    | none =>
      rw [claim_new hget, Prod.mk.injEq] at h
      obtain ⟨rfl, rfl⟩ := h
      exact .inl ⟨key, now, rfl, hget, rfl⟩
    | some entry =>
      rw [claim_known hget, Prod.mk.injEq] at h
      obtain ⟨rfl, rfl⟩ := h
      exact .inr (.inl ⟨key, now, entry, rfl, hget, rfl⟩)
  | record key outcome =>
    exact .inr (.inr (.inl ⟨key, outcome, rfl, Eq.symm h⟩))
  | release key =>
    exact .inr (.inr (.inr ⟨key, rfl, Eq.symm h⟩))

theorem apart_rotated (apart : ledger.state.Apart) : (ledger.rotated now).Apart := by
  rw [rotated]
  split_ifs
  · exact apart.rotate
  · exact apart

theorem age_rotated : (ledger.rotated now).age key =
    if ledger.rotates now then if ledger.state.age key = some 0 then some 1 else none
    else ledger.state.age key := by
  rw [rotated]
  split_ifs with h <;> simp_all [Generations.age_rotate]

theorem get_rotated (apart : ledger.state.Apart) : (ledger.rotated now).get key =
    if ledger.rotates now ∧ ledger.state.age key ≠ some 0 then none else ledger.state.get key := by
  rw [rotated]
  by_cases h : ledger.rotates now <;> by_cases hage : ledger.state.age key = some 0 <;>
    simp [h, hage, Generations.get_rotate apart]

theorem apart_step (h : ledger.Step e ledger') (apart : ledger.state.Apart) :
    ledger'.state.Apart := by
  obtain ⟨key, now, -, hnone, rfl⟩ | ⟨key, now, entry, -, -, rfl⟩ | ⟨key, outcome, -, rfl⟩ |
    ⟨key, -, rfl⟩ := step_cases h
  · exact (apart_rotated apart).insert hnone
  · exact apart_rotated apart
  · exact apart.set
  · exact apart.remove

end LocalLedger

end ZolanaTvc.Gateway
