import Mathlib.Data.Finset.Card
import Mathlib.Data.Finset.Dedup
import Mathlib.Data.Fintype.Card
import Mathlib.Data.List.Nodup
import ZolanaTvc.Control.Except

/-!
# Thresholds over a roll of keys

A roll lists keys under ids, a ballot is a signature under an id. A ballot counts when the roll has its
id and no other ballot bears it. `Carried` says when the counted ballots are valid and reach a
threshold; `index`, `repeated` and `tally` are the passes of a verifier that decides it with a map and
two sets.
-/

namespace Quorum

open Except

section Carried

variable {I K S : Type} [DecidableEq I]

/-- The ids of the roll under which exactly one ballot was cast. -/
def countedIds (roll : List (I × K)) (ballots : List (I × S)) : Finset I :=
  {id ∈ (roll.map Prod.fst).toFinset | (ballots.map Prod.fst).count id = 1}

variable {roll roll' : List (I × K)} {ballots ballots' : List (I × S)} {id : I}

theorem mem_countedIds : id ∈ countedIds roll ballots ↔
    id ∈ roll.map Prod.fst ∧ (ballots.map Prod.fst).count id = 1 := by
  rw [countedIds, Finset.mem_filter, List.mem_toFinset]

theorem countedIds_perm (hroll : roll.Perm roll') (hballots : ballots.Perm ballots') :
    countedIds roll ballots = countedIds roll' ballots' := by
  ext id
  rw [mem_countedIds, mem_countedIds, (hroll.map Prod.fst).mem_iff,
    (hballots.map Prod.fst).count_eq id]

/-- A ballot under an id that the roll does not have, or that is used already, counts for nothing and
may only take from the count. -/
theorem countedIds_cons_subset {b : I × S}
    (hb : b.1 ∉ roll.map Prod.fst ∨ b.1 ∈ ballots.map Prod.fst) :
    countedIds roll (b :: ballots) ⊆ countedIds roll ballots := by
  intro id hid
  rw [mem_countedIds, List.map_cons, List.count_cons] at hid
  obtain ⟨hroll, hcount⟩ := hid
  rw [mem_countedIds]
  refine ⟨hroll, ?_⟩
  by_cases hid : b.1 = id
  · subst hid
    obtain hb := hb.resolve_left (not_not.2 hroll)
    have hpos := List.count_pos_iff.2 hb
    rw [if_pos (beq_self_eq_true _)] at hcount
    omega
  · simpa [hid] using hcount

/-- Every counted ballot is valid for the key of its id, and there are `threshold` of them. -/
structure Carried (valid : K → S → Prop) (roll : List (I × K)) (ballots : List (I × S))
    (threshold : ℕ) : Prop where
  roll_nodup : (roll.map Prod.fst).Nodup
  valid : ∀ id ∈ countedIds roll ballots, ∀ key signature, (id, key) ∈ roll →
    (id, signature) ∈ ballots → valid key signature
  threshold_le : threshold ≤ (countedIds roll ballots).card

variable {valid : K → S → Prop} {threshold : ℕ}

theorem Carried.of_perm (h : Carried valid roll ballots threshold) (hroll : roll.Perm roll')
    (hballots : ballots.Perm ballots') : Carried valid roll' ballots' threshold where
  roll_nodup := (hroll.map Prod.fst).nodup_iff.1 h.roll_nodup
  valid id hid key signature hkey hsignature := by
    rw [← countedIds_perm hroll hballots] at hid
    exact h.valid id hid key signature (hroll.mem_iff.2 hkey) (hballots.mem_iff.2 hsignature)
  threshold_le := countedIds_perm hroll hballots ▸ h.threshold_le

/-- The order of the roll and of the ballots does not matter. -/
theorem carried_perm (hroll : roll.Perm roll') (hballots : ballots.Perm ballots') :
    Carried valid roll ballots threshold ↔ Carried valid roll' ballots' threshold :=
  ⟨fun h => h.of_perm hroll hballots, fun h => h.of_perm hroll.symm hballots.symm⟩

/-- A key of the roll under this id signed. -/
def SignedUnder (valid : K → S → Prop) (roll : List (I × K)) (ballots : List (I × S)) (id : I)
    (key : K) : Prop :=
  (id, key) ∈ roll ∧ ∃ signature, (id, signature) ∈ ballots ∧ valid key signature

theorem Carried.signedUnder (h : Carried valid roll ballots threshold)
    (hid : id ∈ countedIds roll ballots) : ∃ key, SignedUnder valid roll ballots id key := by
  obtain ⟨hroll, hcount⟩ := mem_countedIds.1 hid
  obtain ⟨⟨_, key⟩, hkey, rfl⟩ := List.mem_map.1 hroll
  have hballot := List.count_pos_iff.1 (hcount ▸ Nat.one_pos)
  obtain ⟨⟨_, signature⟩, hsignature, heq⟩ := List.mem_map.1 hballot
  obtain rfl := heq
  exact ⟨key, hkey, signature, hsignature, h.valid _ hid key signature hkey hsignature⟩

/-- The keys of as many distinct ids as the threshold asks signed. -/
def SignedByIds (valid : K → S → Prop) (roll : List (I × K)) (ballots : List (I × S))
    (threshold : ℕ) : Prop :=
  ∃ ids : Finset I, threshold ≤ ids.card ∧
    ∀ id ∈ ids, ∃ key, SignedUnder valid roll ballots id key

/-- As many distinct keys as the threshold asks signed. -/
def SignedByKeys (valid : K → S → Prop) (roll : List (I × K)) (ballots : List (I × S))
    (threshold : ℕ) : Prop :=
  ∃ keys : Finset K, threshold ≤ keys.card ∧
    ∀ key ∈ keys, ∃ id, SignedUnder valid roll ballots id key

theorem Carried.signedByIds (h : Carried valid roll ballots threshold) :
    SignedByIds valid roll ballots threshold :=
  ⟨countedIds roll ballots, h.threshold_le, fun _ hid => h.signedUnder hid⟩

/-- Where no key is under two ids, distinct ids are distinct keys. -/
theorem Carried.signedByKeys (h : Carried valid roll ballots threshold)
    (hkeys : (roll.map Prod.snd).Nodup) : SignedByKeys valid roll ballots threshold := by
  classical
  choose key hkey using fun id : countedIds roll ballots => h.signedUnder id.property
  have hinjective : Function.Injective key := by
    intro id id' heq
    have hmem' := (hkey id').1
    rw [← heq] at hmem'
    exact Subtype.ext (congrArg Prod.fst (List.inj_on_of_nodup_map hkeys (hkey id).1 hmem' rfl))
  refine ⟨Finset.univ.image key, ?_, ?_⟩
  · rw [Finset.card_image_of_injective _ hinjective, Finset.card_univ, Fintype.card_coe]
    exact h.threshold_le
  · intro k hk
    obtain ⟨id, -, rfl⟩ := Finset.mem_image.1 hk
    exact ⟨id, hkey id⟩

section Map

variable {J K' S' : Type} [DecidableEq J] {f : I → J} {g : K → K'} {g' : S → S'}

/-- Renaming the ids renames the counted ones. -/
theorem countedIds_map (hf : Function.Injective f) :
    countedIds (roll.map (Prod.map f g)) (ballots.map (Prod.map f g')) =
      (countedIds roll ballots).map ⟨f, hf⟩ := by
  have hroll : (roll.map (Prod.map f g)).map Prod.fst = (roll.map Prod.fst).map f := by simp
  have hballots : (ballots.map (Prod.map f g')).map Prod.fst = (ballots.map Prod.fst).map f := by
    simp
  ext j
  rw [mem_countedIds, hroll, hballots, Finset.mem_map]
  constructor
  · rintro ⟨hj, hone⟩
    obtain ⟨id, hid, rfl⟩ := List.mem_map.1 hj
    rw [List.count_map_of_injective _ f hf] at hone
    exact ⟨id, mem_countedIds.2 ⟨hid, hone⟩, rfl⟩
  · rintro ⟨id, hid, rfl⟩
    obtain ⟨hid, hone⟩ := mem_countedIds.1 hid
    exact ⟨List.mem_map_of_mem hid, (List.count_map_of_injective _ f hf id).trans hone⟩

/-- A poll is carried when it is in other words. -/
theorem carried_map {valid' : K' → S' → Prop} (hf : Function.Injective f)
    (hvalid : ∀ key signature, valid' (g key) (g' signature) ↔ valid key signature) :
    Carried valid' (roll.map (Prod.map f g)) (ballots.map (Prod.map f g')) threshold ↔
      Carried valid roll ballots threshold := by
  have hnodup : ((roll.map (Prod.map f g)).map Prod.fst).Nodup ↔ (roll.map Prod.fst).Nodup := by
    have hroll : (roll.map (Prod.map f g)).map Prod.fst = (roll.map Prod.fst).map f := by simp
    rw [hroll, List.nodup_map_iff hf]
  constructor
  · rintro ⟨hroll, hvalids, hle⟩
    rw [countedIds_map hf] at hvalids hle
    refine ⟨hnodup.1 hroll, fun id hid key signature hkey hsignature => ?_, ?_⟩
    · rw [← hvalid]
      exact hvalids (f id) (Finset.mem_map_of_mem _ hid) _ _
        (List.mem_map_of_mem (f := Prod.map f g) hkey)
        (List.mem_map_of_mem (f := Prod.map f g') hsignature)
    · rwa [Finset.card_map] at hle
  · rintro ⟨hroll, hvalids, hle⟩
    refine ⟨hnodup.2 hroll, ?_, ?_⟩
    · rw [countedIds_map hf]
      rintro _ hid _ _ hkey hsignature
      -- A key and a signature in other words come from ones with the same id.
      obtain ⟨id, hcounted, rfl⟩ := Finset.mem_map.1 hid
      obtain ⟨⟨id₁, key⟩, hkey', heq⟩ := List.mem_map.1 hkey
      obtain ⟨⟨id₂, signature⟩, hsignature', heq'⟩ := List.mem_map.1 hsignature
      obtain ⟨hid₁, rfl⟩ := Prod.mk.inj heq
      obtain ⟨hid₂, rfl⟩ := Prod.mk.inj heq'
      obtain rfl := hf hid₁
      obtain rfl := hf hid₂
      exact (hvalid key signature).2 (hvalids _ hcounted key signature hkey' hsignature')
    · rwa [countedIds_map hf, Finset.card_map]

end Map

/-- Every id signed once. -/
theorem countedIds_of_nodup (hroll : (roll.map Prod.fst).Nodup)
    (hids : ballots.map Prod.fst = roll.map Prod.fst) :
    (countedIds roll ballots).card = roll.length := by
  have hall : countedIds roll ballots = (roll.map Prod.fst).toFinset := by
    ext id
    rw [mem_countedIds, hids, List.mem_toFinset]
    exact and_iff_left_of_imp fun hid => List.count_eq_one_of_mem hroll hid
  rw [hall, List.toFinset_card_of_nodup hroll, List.length_map]

end Carried

section Law

variable {I K S A B : Type} [DecidableEq I]

/-- What a verifier with a threshold guarantees, whatever lists of keys and signatures it is given. -/
structure ThresholdLaw (accepts : List A → List B → Prop) (entry : A → I × K) (ballot : B → I × S)
    (valid : K → S → Prop) (threshold : ℕ) : Prop where
  /-- Acceptance rests on the signatures of distinct ids. -/
  ids : ∀ keys signatures, accepts keys signatures →
    SignedByIds valid (keys.map entry) (signatures.map ballot) threshold
  /-- They are the signatures of distinct keys where no key has two ids. -/
  keys : ∀ keys signatures, accepts keys signatures → ((keys.map entry).map Prod.snd).Nodup →
    SignedByKeys valid (keys.map entry) (signatures.map ballot) threshold
  /-- A signature under an unknown id, or one already used, does not raise the count. -/
  further : ∀ keys signatures signature,
    (ballot signature).1 ∉ (keys.map entry).map Prod.fst ∨
      (ballot signature).1 ∈ (signatures.map ballot).map Prod.fst →
    accepts keys (signature :: signatures) →
      threshold ≤ (countedIds (keys.map entry) (signatures.map ballot)).card
  perm : ∀ keys keys' signatures signatures', keys.Perm keys' → signatures.Perm signatures' →
    (accepts keys signatures ↔ accepts keys' signatures')

/-- A verifier that accepts the carried polls, under a condition that order does not change. -/
theorem ThresholdLaw.of_carried {accepts : List A → List B → Prop} {entry : A → I × K}
    {ballot : B → I × S} {valid : K → S → Prop} {threshold : ℕ} (other : List A → List B → Prop)
    (haccepts : ∀ keys signatures, accepts keys signatures ↔ other keys signatures ∧
      Carried valid (keys.map entry) (signatures.map ballot) threshold)
    (hother : ∀ keys keys' signatures signatures', keys.Perm keys' →
      signatures.Perm signatures' → other keys signatures → other keys' signatures') :
    ThresholdLaw accepts entry ballot valid threshold where
  ids keys signatures h := ((haccepts keys signatures).1 h).2.signedByIds
  keys keys signatures h hkeys := ((haccepts keys signatures).1 h).2.signedByKeys hkeys
  further keys signatures signature hfurther h := by
    have hle := ((haccepts _ _).1 h).2.threshold_le
    rw [List.map_cons] at hle
    exact hle.trans (Finset.card_le_card (countedIds_cons_subset hfurther))
  perm keys keys' signatures signatures' hkeys hsignatures := by
    rw [haccepts, haccepts, carried_perm (hkeys.map entry) (hsignatures.map ballot)]
    exact and_congr_left fun _ => ⟨hother _ _ _ _ hkeys hsignatures,
      hother _ _ _ _ hkeys.symm hsignatures.symm⟩

end Law

section Passes

variable {I K K' S N ε : Type} [DecidableEq I]

/-- The map of the roll, every key read; an id that is in the map already is refused. -/
def index (read : K → Except ε K') (e : ε) :
    List (I × K) → List (I × K') → Except ε (List (I × K'))
  | [], byId => .ok byId
  | (id, key) :: roll, byId => do
    refuse ((byId.lookup id).isSome = true) e
    let key ← read key
    index read e roll ((id, key) :: byId)

/-- The ids that come a second time, by one pass with the set of those seen. -/
def repeated : List I → List I → List I → List I
  | [], _, duplicates => duplicates
  | id :: ids, seen, duplicates =>
    repeated ids (id :: seen) (if id ∈ seen then id :: duplicates else duplicates)

/-- Checks the ballots that count, and counts them with `next`. -/
def tally (check : K' → S → Except ε Unit) (next : N → Except ε N) (byId : List (I × K'))
    (duplicates : List I) : List (I × S) → N → Except ε N
  | [], accepted => .ok accepted
  | (id, signature) :: ballots, accepted =>
    if id ∈ duplicates then tally check next byId duplicates ballots accepted
    else
      match byId.lookup id with
      | none => tally check next byId duplicates ballots accepted
      | some key => do
        check key signature
        let accepted ← next accepted
        tally check next byId duplicates ballots accepted

/-- `n` steps of a counter. -/
def advance (next : N → Except ε N) : ℕ → N → Except ε N
  | 0, accepted => .ok accepted
  | n + 1, accepted => do
    let accepted ← next accepted
    advance next n accepted

variable {read : K → Except ε K'} {e : ε} {roll : List (I × K)} {byId m : List (I × K')}

theorem index_eq_ok_cons {id : I} {key : K} :
    index read e ((id, key) :: roll) byId = .ok m ↔ byId.lookup id = none ∧
      ∃ key', read key = .ok key' ∧ index read e roll ((id, key') :: byId) = .ok m := by
  simp only [index, bind_eq_ok, refuse_eq_ok, exists_const, Option.isSome_iff_ne_none, not_not]

/-- Indexing succeeds on a roll of new and distinct ids whose keys can be read. -/
theorem exists_index_iff : (∃ m, index read e roll byId = .ok m) ↔
    (roll.map Prod.fst).Nodup ∧ (∀ id ∈ roll.map Prod.fst, byId.lookup id = none) ∧
      ∀ key ∈ roll.map Prod.snd, ∃ key', read key = .ok key' := by
  induction roll generalizing byId with
  | nil => simp [index]
  | cons entry roll ih =>
    obtain ⟨id, key⟩ := entry
    simp only [index_eq_ok_cons, List.map_cons, List.nodup_cons, List.forall_mem_cons]
    constructor
    · rintro ⟨m, hnew, key', hread, hindex⟩
      obtain ⟨hnodup, hfresh, hreads⟩ := ih.1 ⟨m, hindex⟩
      refine ⟨⟨fun hid => ?_, hnodup⟩, ⟨hnew, fun id' hid' => ?_⟩, ⟨key', hread⟩, hreads⟩
      -- The entry that was just added would be found again.
      · have hlookup := hfresh id hid
        rw [List.lookup_cons_self] at hlookup
        exact absurd hlookup (by simp)
      · have hlookup := hfresh id' hid'
        rw [List.lookup_cons] at hlookup
        split at hlookup
        · exact absurd hlookup (by simp)
        · exact hlookup
    · rintro ⟨⟨hid, hnodup⟩, ⟨hnew, hfresh⟩, ⟨key', hread⟩, hreads⟩
      have hlookup : ∀ id' ∈ roll.map Prod.fst, ((id, key') :: byId).lookup id' = none := by
        intro id' hid'
        have hne : id' ≠ id := fun h => hid (h ▸ hid')
        rw [List.lookup_cons, beq_false_of_ne hne]
        exact hfresh id' hid'
      obtain ⟨m, hindex⟩ := ih.2 ⟨hnodup, hlookup, hreads⟩
      exact ⟨m, hnew, key', hread, hindex⟩

/-- The map of a roll gives each id the key it has there. -/
theorem lookup_index (h : index read e roll byId = .ok m) (id : I) (key' : K') :
    m.lookup id = some key' ↔ byId.lookup id = some key' ∨
      ∃ key, (id, key) ∈ roll ∧ read key = .ok key' := by
  induction roll generalizing byId with
  | nil =>
    obtain rfl := Except.ok.inj h
    simp
  | cons entry roll ih =>
    obtain ⟨id₀, key₀⟩ := entry
    obtain ⟨hnew, key₀', hread, hindex⟩ := index_eq_ok_cons.1 h
    rw [ih hindex, List.lookup_cons]
    by_cases hid : id = id₀
    · subst hid
      have hnot : ∀ key, (id, key) ∉ roll := fun key hkey => by
        have hfresh := (exists_index_iff.1 ⟨m, hindex⟩).2.1 id (List.mem_map_of_mem hkey)
        rw [List.lookup_cons_self] at hfresh
        exact absurd hfresh (by simp)
      simp [hnew, hnot, hread]
    · simp [hid, beq_false_of_ne hid]

theorem mem_repeated {ids seen duplicates : List I} {id : I} : id ∈ repeated ids seen duplicates ↔
    id ∈ duplicates ∨ 1 < ids.count id ∨ 0 < ids.count id ∧ id ∈ seen := by
  induction ids generalizing seen duplicates with
  | nil => simp [repeated]
  | cons id₀ ids ih =>
    rw [repeated, ih, List.count_cons]
    by_cases hid : id₀ = id
    · subst hid
      by_cases hseen : id₀ ∈ seen
      · simp [hseen]
      · have hmem : 1 < ids.count id₀ ∨ id₀ ∈ ids ↔ id₀ ∈ ids :=
          or_iff_right_of_imp fun h => List.count_pos_iff.1 (by omega)
        simp [hseen, hmem]
    · have hne : id ≠ id₀ := fun h => hid h.symm
      have hmem : (id ∈ if id₀ ∈ seen then id₀ :: duplicates else duplicates) ↔
          id ∈ duplicates := by
        split_ifs <;> simp [hne]
      simp [hid, hne, hmem]

/-- The duplicates of a list are what it has more than once. -/
theorem mem_repeated_nil {ids : List I} {id : I} :
    id ∈ repeated ids [] [] ↔ 1 < ids.count id := by
  simp [mem_repeated]

variable {check : K' → S → Except ε Unit} {next : N → Except ε N}

/-- The ids whose ballots `tally` counts. -/
def counts (byId : List (I × K')) (duplicates : List I) (id : I) : Bool :=
  decide (id ∉ duplicates) && (byId.lookup id).isSome

/-- The tally ends when the ballots that count are valid, with their number. -/
theorem tally_eq_ok {duplicates : List I} {ballots : List (I × S)} {n n' : N} :
    tally check next m duplicates ballots n = .ok n' ↔
      (∀ b ∈ ballots, b.1 ∉ duplicates → ∀ key, m.lookup b.1 = some key →
        check key b.2 = .ok ()) ∧
      advance next ((ballots.map Prod.fst).countP (counts m duplicates)) n = .ok n' := by
  induction ballots generalizing n with
  | nil => simp [tally, advance]
  | cons b ballots ih =>
    obtain ⟨id, signature⟩ := b
    rw [tally, List.forall_mem_cons, List.map_cons, List.countP_cons]
    by_cases hdup : id ∈ duplicates
    · rw [if_pos hdup, ih]
      simp [hdup, counts]
    · rw [if_neg hdup]
      cases hkey : m.lookup id with
      | none => simp [ih, hdup, counts, hkey]
      | some key =>
        have hcounts : counts m duplicates id = true := by simp [counts, hdup, hkey]
        simp only [bind_eq_ok, ih, hdup, hcounts, if_true, not_false_eq_true, forall_const,
          Option.some.injEq, forall_eq', advance]
        constructor
        · rintro ⟨_, hcheck, n₁, hnext, hvalid, hadvance⟩
          exact ⟨⟨hcheck, hvalid⟩, n₁, hnext, hadvance⟩
        · rintro ⟨⟨hcheck, hvalid⟩, n₁, hnext, hadvance⟩
          exact ⟨(), hcheck, n₁, hnext, hvalid, hadvance⟩

theorem isSome_lookup_index (h : index read e roll [] = .ok m) (id : I) :
    (m.lookup id).isSome = true ↔ id ∈ roll.map Prod.fst := by
  obtain ⟨-, -, hreads⟩ := exists_index_iff.1 ⟨m, h⟩
  rw [Option.isSome_iff_exists, List.mem_map]
  constructor
  · rintro ⟨key', hkey⟩
    obtain ⟨key, hmem, -⟩ := ((lookup_index h id key').1 hkey).resolve_left (by simp)
    exact ⟨(id, key), hmem, rfl⟩
  · rintro ⟨⟨id, key⟩, hmem, rfl⟩
    obtain ⟨key', hread⟩ := hreads key (List.mem_map_of_mem hmem)
    exact ⟨key', (lookup_index h id key').2 (.inr ⟨key, hmem, hread⟩)⟩

/-- The ids that `tally` counts are the counted ones. -/
theorem countP_counts {ballots : List (I × S)} (h : index read e roll [] = .ok m) :
    (ballots.map Prod.fst).countP (counts m (repeated (ballots.map Prod.fst) [] [])) =
      (countedIds roll ballots).card := by
  have hmem : ∀ id, counts m (repeated (ballots.map Prod.fst) [] []) id = true ↔
      (ballots.map Prod.fst).count id ≤ 1 ∧ id ∈ roll.map Prod.fst := by
    intro id
    rw [counts, Bool.and_eq_true, decide_eq_true_iff, mem_repeated_nil, not_lt,
      isSome_lookup_index h]
  generalize counts m (repeated (ballots.map Prod.fst) [] []) = p at hmem ⊢
  have hnodup : ((ballots.map Prod.fst).filter p).Nodup := by
    rw [List.nodup_iff_count_le_one]
    intro id
    by_cases hid : p id = true
    · rw [List.count_filter hid]
      exact ((hmem id).1 hid).1
    · rw [List.count_eq_zero_of_not_mem fun h => hid (List.mem_filter.1 h).2]
      exact Nat.zero_le 1
  have hset : ((ballots.map Prod.fst).filter p).toFinset = countedIds roll ballots := by
    ext id
    rw [List.mem_toFinset, List.mem_filter, hmem, mem_countedIds, ← List.count_pos_iff]
    constructor
    · rintro ⟨hpos, hle, hroll⟩
      exact ⟨hroll, by omega⟩
    · rintro ⟨hroll, hone⟩
      exact ⟨by omega, by omega, hroll⟩
  rw [List.countP_eq_length_filter, ← hset, List.toFinset_card_of_nodup hnodup]

/-- A signature of the ballots is valid under the reading of the key. -/
def Checks (read : K → Except ε K') (check : K' → S → Except ε Unit) (key : K) (signature : S) :
    Prop :=
  ∃ key', read key = .ok key' ∧ check key' signature = .ok ()

/-- What the three passes decide: the counted ballots are valid, and the counter ends at their
number. -/
theorem poll_eq_ok {ballots : List (I × S)} (h : index read e roll [] = .ok m) {n n' : N} :
    tally check next m (repeated (ballots.map Prod.fst) [] []) ballots n = .ok n' ↔
      (∀ id ∈ countedIds roll ballots, ∀ key signature, (id, key) ∈ roll →
        (id, signature) ∈ ballots → Checks read check key signature) ∧
      advance next (countedIds roll ballots).card n = .ok n' := by
  rw [tally_eq_ok, countP_counts h]
  refine and_congr_left fun _ => ⟨fun hvalid id hid key signature hkey hsignature => ?_,
    fun hvalid => ?_⟩
  · obtain ⟨hroll, hone⟩ := mem_countedIds.1 hid
    obtain ⟨-, -, hreads⟩ := exists_index_iff.1 ⟨m, h⟩
    obtain ⟨key', hread⟩ := hreads key (List.mem_map_of_mem hkey)
    refine ⟨key', hread, hvalid _ hsignature ?_ key' ?_⟩
    · rw [mem_repeated_nil, hone]
      exact lt_irrefl 1
    · exact (lookup_index h id key').2 (.inr ⟨key, hkey, hread⟩)
  · rintro ⟨id, signature⟩ hsignature hdup key' hlookup
    obtain ⟨key, hkey, hread⟩ := ((lookup_index h id key').1 hlookup).resolve_left (by simp)
    have hpos := List.count_pos_iff.2 (List.mem_map_of_mem (f := Prod.fst) hsignature)
    have hone : (ballots.map Prod.fst).count id = 1 :=
      le_antisymm (not_lt.1 fun h => hdup (mem_repeated_nil.2 h)) hpos
    have hid : id ∈ countedIds roll ballots := mem_countedIds.2 ⟨List.mem_map_of_mem hkey, hone⟩
    obtain ⟨key'', hread', hcheck⟩ := hvalid id hid key signature hkey hsignature
    rw [hread] at hread'
    obtain rfl := Except.ok.inj hread'
    exact hcheck

end Passes

end Quorum
