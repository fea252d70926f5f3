import Mathlib.Data.List.AList

/-!
# Tables

Finite maps, with the entries counted.
-/

/-- A finite map from keys to values. -/
abbrev Table (K V : Type) := AList fun _ : K => V

namespace Table

variable {K V : Type}

/-- The number of entries. -/
def size (t : Table K V) : ℕ := t.keys.length

@[simp] theorem size_empty : size (∅ : Table K V) = 0 := by
  rw [size, AList.keys_empty, List.length_nil]

/-- The entries that `keep` holds of. -/
def retain (keep : K → V → Bool) (t : Table K V) : Table K V where
  entries := t.entries.filter fun e => keep e.1 e.2
  nodupKeys := t.nodupKeys.sublist List.filter_sublist

variable [DecidableEq K] {t : Table K V} {k k' : K} {v : V}

theorem size_insert_of_notMem (h : k ∉ t) : size (t.insert k v) = size t + 1 := by
  have hmem : k ∉ t.keys := h
  simp [size, AList.keys_insert, List.erase_of_not_mem hmem]

theorem size_insert_of_mem (h : k ∈ t) : size (t.insert k v) = size t := by
  have hmem : k ∈ t.keys := h
  rw [size, AList.keys_insert, List.length_cons, List.length_erase_add_one hmem, size]

theorem size_erase_le : size (t.erase k) ≤ size t := by
  rw [size, size, AList.keys_erase]
  exact List.length_erase_le

theorem lookup_insert_eq : (t.insert k v).lookup k' = if k' = k then some v else t.lookup k' := by
  by_cases h : k' = k
  · subst h
    simp
  · simp [h, AList.lookup_insert_ne h]

theorem lookup_erase_eq : (t.erase k).lookup k' = if k' = k then none else t.lookup k' := by
  by_cases h : k' = k
  · subst h
    simp
  · simp [h, AList.lookup_erase_ne h]

theorem lookup_retain_eq_some {keep : K → V → Bool} :
    (t.retain keep).lookup k = some v ↔ t.lookup k = some v ∧ keep k v = true := by
  have hentries : ∀ s : Table K V, s.lookup k = some v ↔ ⟨k, v⟩ ∈ s.entries := fun s =>
    AList.mem_lookup_iff
  rw [hentries, hentries, retain, List.mem_filter]

end Table
