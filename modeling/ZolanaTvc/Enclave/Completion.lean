import ZolanaTvc.Enclave.Prove
import ZolanaTvc.Protocol.Binding

/-!
# Completing a prover request

Only the slots of the request that are `null`, none of them in a padding input, get the secret.

## Main results

* `Prove.fieldHex_eq`: a secret is written as the hex numeral of its big-endian integer.
* `Prove.complete_iff`: which requests are completed, and what they become.
-/

namespace ZolanaTvc.Enclave.Prove

open Except Json Protocol Serde

section FieldHex

/-- The big-endian integer of some bytes. -/
def bigEndian (bytes : Bytes) : ℕ := bytes.foldl (fun n b => 256 * n + b.toNat) 0

/-- The digits of some bytes in hex, two for each. -/
def nibbles (bytes : Bytes) : List ℕ := bytes.flatMap fun b => [b.toNat / 16, b.toNat % 16]

/-- The integer that hex digits denote. -/
def horner (ds : List ℕ) : ℕ := ds.foldl (fun n d => 16 * n + d) 0

theorem horner_nibbles (bytes : Bytes) : horner (nibbles bytes) = bigEndian bytes := by
  induction bytes using List.reverseRecOn with
  | nil => rfl
  | append_singleton bytes b ih =>
    have hb := Nat.div_add_mod b.toNat 16
    have happend : nibbles (bytes ++ [b]) = nibbles bytes ++ [b.toNat / 16, b.toNat % 16] := by
      simp [nibbles]
    rw [happend, horner, List.foldl_append, bigEndian, List.foldl_append]
    show 16 * (16 * horner (nibbles bytes) + b.toNat / 16) + b.toNat % 16 =
      256 * bigEndian bytes + b.toNat
    rw [ih]
    omega

theorem nibbles_lt {bytes : Bytes} {d : ℕ} (h : d ∈ nibbles bytes) : d < 16 := by
  obtain ⟨b, -, hd⟩ := List.mem_flatMap.1 h
  have hb := b.toNat_lt
  simp only [List.mem_cons, List.not_mem_nil, or_false] at hd
  omega

theorem hexEncode_eq (bytes : Bytes) : hexEncode bytes = (nibbles bytes).map Nat.digitChar := by
  have hchar : ∀ d : Fin 16, hexChar d = Nat.digitChar d.val := by decide
  induction bytes with
  | nil => rfl
  | cons b bytes ih =>
    show hexPair b ++ hexEncode bytes = _
    rw [ih]
    simp [hexPair, nibbles, hchar]

/-- Without their leading zeros, digits are the numeral of what they denote. -/
theorem dropWhile_eq_toDigits {ds : List ℕ} (hds : ∀ d ∈ ds, d < 16) :
    (ds.map Nat.digitChar).dropWhile (· = '0') =
      if horner ds = 0 then [] else Nat.toDigits 16 (horner ds) := by
  induction ds using List.reverseRecOn with
  | nil => rfl
  | append_singleton ds d ih =>
    have hd : d < 16 := hds d (by simp)
    have ih := ih fun c hc => hds c (List.mem_append_left _ hc)
    have hzero : ∀ c < 16, Nat.digitChar c = '0' ↔ c = 0 := by decide
    have hlast : horner (ds ++ [d]) = 16 * horner ds + d := List.foldl_append
    rw [List.map_append, List.dropWhile_append, ih, hlast]
    by_cases hds0 : horner ds = 0
    · by_cases hd0 : d = 0
      · simp [hds0, hd0, Nat.digitChar]
      · simp [hds0, hd0, hzero d hd, Nat.toDigits_of_lt_base hd]
    · have hpos : 0 < horner ds := Nat.pos_of_ne_zero hds0
      have hne : Nat.toDigits 16 (horner ds) ≠ [] := Nat.toDigits_ne_nil
      rw [if_neg hds0, if_neg (by simp [hne]), if_neg (by omega),
        ← Nat.toDigits_append_toDigits (by decide) hpos hd, Nat.toDigits_of_lt_base hd,
        List.map_singleton]

/-- A secret is written as its big-endian integer in lowercase hex without leading zeros. -/
theorem fieldHex_eq (secret : Bytes) :
    fieldHex secret = "0x" ++ String.ofList (Nat.toDigits 16 (bigEndian secret)) := by
  have hdigits : (encodeLowerHex secret).toList.dropWhile (· = '0') =
      if bigEndian secret = 0 then [] else Nat.toDigits 16 (bigEndian secret) := by
    rw [encodeLowerHex, String.toList_ofList, hexEncode_eq,
      dropWhile_eq_toDigits fun _ => nibbles_lt, horner_nibbles]
  rw [fieldHex, hdigits]
  by_cases hzero : bigEndian secret = 0
  · rw [hzero, if_pos rfl, if_pos rfl, Nat.toDigits_zero]
  · rw [if_neg hzero, if_neg Nat.toDigits_ne_nil]

end FieldHex

section Slots

/-- The slot of an input is to be filled. -/
def IsOpen (input : Value) : Prop := ∃ ms, input = .obj ms ∧ get ms "nullifierSecret" = some .null

/-- An input that only pads the request. -/
def IsDummy (input : Value) : Prop :=
  ∃ ms d, input = .obj ms ∧ get ms "isDummy" = some (.str d) ∧ d ≠ "0x0"

/-- An object with a text for `isDummy`, and a slot that is open or holds a text. -/
def Slotted (input : Value) : Prop :=
  ∃ ms d, input = .obj ms ∧ get ms "isDummy" = some (.str d) ∧
    (get ms "nullifierSecret" = some .null ∨ ∃ s, get ms "nullifierSecret" = some (.str s))

/-- What becomes of an input. -/
inductive Filled (hex : String) : Value → Value → Prop where
  | filled {ms : List (String × Value)} (real : ¬IsDummy (.obj ms))
      (opened : get ms "nullifierSecret" = some .null) :
      Filled hex (.obj ms) (.obj (replaceMember "nullifierSecret" (.str hex) ms))
  | kept {input : Value} (closed : ¬IsOpen input) : Filled hex input input

/-- The request is one that the wallet completes. -/
inductive Completable (body : List (String × Value)) : Prop where
  | transfer {circuit : String} {inputs : List Value}
      (known : circuit = "transfer-confidential" ∨ circuit = "transfer-ring")
      (type : get body "circuitType" = some (.str circuit))
      (array : get body "inputs" = some (.arr inputs))
      (count : 1 ≤ inputs.length ∧ inputs.length ≤ MAX_PROVE_INPUTS)
      (slotted : ∀ input ∈ inputs, Slotted input)
      (padding : ∀ input ∈ inputs, IsDummy input → ¬IsOpen input)
      (opened : ∃ input ∈ inputs, IsOpen input)
  | merge {circuit : String} {inputs : List Value}
      (known : circuit = "merge" ∨ circuit = "merge-ring")
      (type : get body "circuitType" = some (.str circuit))
      (array : get body "inputs" = some (.arr inputs))
      (count : 1 ≤ inputs.length ∧ inputs.length ≤ MAX_PROVE_INPUTS)
      (opened : get body "userNullifierSecret" = some .null)

/-- What becomes of the request. -/
inductive Completion (hex : String) (body : List (String × Value)) : Value → Prop where
  | transfer {circuit : String} {inputs inputs' : List Value}
      (known : circuit = "transfer-confidential" ∨ circuit = "transfer-ring")
      (type : get body "circuitType" = some (.str circuit))
      (array : get body "inputs" = some (.arr inputs))
      (filled : List.Forall₂ (Filled hex) inputs inputs') :
      Completion hex body (.obj (replaceMember "inputs" (.arr inputs') body))
  | merge {circuit : String} (known : circuit = "merge" ∨ circuit = "merge-ring")
      (type : get body "circuitType" = some (.str circuit)) :
      Completion hex body (.obj (replaceMember "userNullifierSecret" (.str hex) body))

variable {ms : List (String × Value)} {name hex : String} {v : Value}

theorem replaceMember_self (hms : (Json.obj ms : Value).Distinct) (h : get ms name = some v) :
    replaceMember name v ms = ms := by
  have hnodup := (distinct_obj.1 hms).1
  rw [replaceMember]
  refine (List.map_congr_left fun m hm => ?_).trans (List.map_id ms)
  by_cases hname : m.1 = name
  · have hmem : (m.1, m.2) ∈ ms := hm
    have hlookup := (lookup_eq_some_iff hnodup).2 hmem
    have hsame : some v = some m.2 := h.symm.trans (hname ▸ hlookup)
    rw [if_pos hname, Option.some.inj hsame, ← hname]
    rfl
  · rw [if_neg hname]
    rfl

theorem isOpen_obj : IsOpen (.obj ms) ↔ get ms "nullifierSecret" = some .null := by
  constructor
  · rintro ⟨ms', heq, h⟩
    obtain rfl := Json.obj.inj heq
    exact h
  · intro h
    exact ⟨ms, rfl, h⟩

theorem isDummy_obj {d : String} (h : get ms "isDummy" = some (.str d)) :
    IsDummy (.obj ms) ↔ d ≠ "0x0" := by
  constructor
  · rintro ⟨ms', d', heq, h', hd⟩
    obtain rfl := Json.obj.inj heq
    obtain rfl := Json.str.inj (Option.some.inj (h.symm.trans h'))
    exact hd
  · intro hd
    exact ⟨ms, d, rfl, h, hd⟩

theorem asStr_eq_some {o : Option Value} {s : String} : o.bind asStr = some s ↔ o = some (.str s) := by
  cases o with
  | none => simp
  | some v => cases v <;> simp [asStr]

theorem asArray_eq_some {o : Option Value} {vs : List Value} :
    o.bind asArray = some vs ↔ o = some (.arr vs) := by
  cases o with
  | none => simp
  | some v => cases v <;> simp [asArray]

theorem fill_eq_ok {v' : Value} {b : Bool} : fill hex v = .ok (v', b) ↔
    (v = .null ∧ v' = .str hex ∧ b = true) ∨ ∃ s, v = .str s ∧ v' = .str s ∧ b = false := by
  cases v <;> simp [fill, eq_comm]

theorem object_eq_ok : object v = .ok ms ↔ v = .obj ms := by
  cases v <;> simp [object]

/-- An input is taken when it has a slot that is not an open one of a padding input; the slot is then
filled if it is open. -/
theorem fillInput_eq_ok {input input' : Value} {b : Bool} (hinput : input.Distinct) :
    fillInput hex input = .ok (input', b) ↔ Slotted input ∧ (IsDummy input → ¬IsOpen input) ∧
      Filled hex input input' ∧ (b = true ↔ IsOpen input) := by
  simp only [fillInput, bind_eq_ok, ofOption_eq_ok, refuse_eq_ok, asStr_eq_some, object_eq_ok,
    pure_eq_ok, Prod.exists, Prod.mk.injEq, exists_const]
  constructor
  · rintro ⟨ms, rfl, d, hd, slot, hslot, hpadding, slot', filled, hfill, rfl, rfl⟩
    have hdummy := isDummy_obj hd
    -- `fill` writes to a null slot, and keeps a text.
    obtain ⟨rfl, rfl, rfl⟩ | ⟨s, rfl, rfl, rfl⟩ := fill_eq_ok.1 hfill
    · have hopen : IsOpen (.obj ms) := isOpen_obj.2 hslot
      have hreal : ¬IsDummy (.obj ms) := fun h => hpadding ⟨hdummy.1 h, rfl⟩
      exact ⟨⟨ms, d, rfl, hd, .inl hslot⟩, fun h => absurd h hreal, .filled hreal hslot,
        iff_of_true rfl hopen⟩
    · have hclosed : ¬IsOpen (.obj ms) := by
        rw [isOpen_obj, hslot]
        simp
      -- Writing back what was there changes nothing, as names are distinct.
      rw [replaceMember_self hinput hslot]
      exact ⟨⟨ms, d, rfl, hd, .inr ⟨s, hslot⟩⟩, fun _ => hclosed, .kept hclosed,
        iff_of_false (by simp) hclosed⟩
  · rintro ⟨⟨ms, d, rfl, hd, hslot⟩, hpadding, hfilled, hb⟩
    have hdummy := isDummy_obj hd
    rw [hdummy, isOpen_obj] at hpadding
    rw [isOpen_obj] at hb
    refine ⟨ms, rfl, d, hd, ?_⟩
    -- Back from the statement the slot decides which branch `fill` takes.
    obtain hnull | ⟨s, hstr⟩ := hslot
    · refine ⟨.null, hnull, fun h => hpadding h.1 hnull, .str hex, b, ?_, ?_, rfl⟩
      · exact fill_eq_ok.2 (.inl ⟨rfl, rfl, hb.2 hnull⟩)
      · cases hfilled with
        | filled => rfl
        | kept hclosed => exact absurd (isOpen_obj.2 hnull) hclosed
    · refine ⟨.str s, hstr, by simp, .str s, b, ?_, ?_, rfl⟩
      · refine fill_eq_ok.2 (.inr ⟨s, rfl, rfl, ?_⟩)
        rw [hstr] at hb
        simpa using hb
      · cases hfilled with
        | filled _ hopen =>
          rw [hstr] at hopen
          cases hopen
        | kept => rw [replaceMember_self hinput hstr]

theorem transfer_ne_merge {circuit : String}
    (h : circuit = "transfer-confidential" ∨ circuit = "transfer-ring") :
    ¬(circuit = "merge" ∨ circuit = "merge-ring") := by
  rintro (rfl | rfl) <;> simp at h

theorem exists_filled {input : Value} (slotted : Slotted input)
    (padding : IsDummy input → ¬IsOpen input) : ∃ input', Filled hex input input' := by
  by_cases hopen : IsOpen input
  · obtain ⟨ms, rfl, hnull⟩ := hopen
    exact ⟨_, .filled (fun hdummy => padding hdummy ⟨ms, rfl, hnull⟩) hnull⟩
  · exact ⟨input, .kept hopen⟩

theorem exists_forall₂ {A B : Type} {R : A → B → Prop} {as : List A}
    (h : ∀ a ∈ as, ∃ b, R a b) : ∃ bs, List.Forall₂ R as bs := by
  induction as with
  | nil => exact ⟨[], .nil⟩
  | cons a as ih =>
    obtain ⟨b, hb⟩ := h a (by simp)
    obtain ⟨bs, hbs⟩ := ih fun a ha => h a (List.mem_cons_of_mem _ ha)
    exact ⟨b :: bs, .cons hb hbs⟩

theorem exists_mem_iff_of_forall₂ {A B : Type} {P : A → Prop} {Q : B → Prop} {as : List A}
    {bs : List B} (h : List.Forall₂ (fun a b => Q b ↔ P a) as bs) :
    (∃ b ∈ bs, Q b) ↔ ∃ a ∈ as, P a := by
  induction h with
  | nil => simp
  | cons hab _ ih => simp [hab, ih]

variable {request result : Value} {secret : Bytes} {body : List (String × Value)}
  {inputs : List Value}

/-- What `fillInput` makes of the inputs of a transfer. -/
theorem fillInputs {results : List (Value × Bool)} (hinputs : ∀ input ∈ inputs, input.Distinct)
    (h : List.Forall₂ (fun input r => fillInput hex input = .ok r) inputs results) :
    (∀ input ∈ inputs, Slotted input ∧ (IsDummy input → ¬IsOpen input)) ∧
      List.Forall₂ (Filled hex) inputs (results.map Prod.fst) ∧
      ((∃ r ∈ results, r.2 = true) ↔ ∃ input ∈ inputs, IsOpen input) := by
  have hall : List.Forall₂ (fun input r => (Slotted input ∧ (IsDummy input → ¬IsOpen input)) ∧
      Filled hex input r.1 ∧ (r.2 = true ↔ IsOpen input)) inputs results := by
    refine ((List.forall₂_and_left _ _).2 ⟨hinputs, h⟩).imp ?_
    rintro input ⟨input', b⟩ ⟨hinput, hok⟩
    obtain ⟨slotted, padding, filled, hb⟩ := (fillInput_eq_ok hinput).1 hok
    exact ⟨⟨slotted, padding⟩, filled, hb⟩
  obtain ⟨hslotted, hrest⟩ := (List.forall₂_and_left _ _).1 hall
  exact ⟨hslotted, List.forall₂_map_right_iff.2 (hrest.imp fun _ _ h => h.1),
    exists_mem_iff_of_forall₂ (hrest.imp fun _ _ h => h.2)⟩

theorem completion_of_complete (hrequest : request.Distinct)
    (h : complete request secret = .ok result) : ∃ body, request = .obj body ∧ Completable body ∧
      Completion (fieldHex secret) body result := by
  simp only [complete, bind_eq_ok, object_eq_ok, ofOption_eq_ok, asStr_eq_some] at h
  obtain ⟨body, rfl, circuit, hcircuit, h⟩ := h
  refine ⟨body, rfl, ?_⟩
  split_ifs at h with htransfer hmerge
  · simp only [bind_eq_ok, ofOption_eq_ok, asArray_eq_some, refuse_eq_ok, pure_eq_ok, exists_const,
      mapM_eq_ok] at h
    obtain ⟨inputs, hinputs, hcount, results, hresults, hfilled, rfl⟩ := h
    have hdistinct := distinct_arr.1 (Fields.distinct_lookup hrequest _ _ hinputs)
    obtain ⟨hslotted, filled, hopen⟩ := fillInputs hdistinct hresults
    refine ⟨.transfer htransfer hcircuit hinputs ?_ (fun input h => (hslotted input h).1)
      (fun input h => (hslotted input h).2) (hopen.1 ?_), .transfer htransfer hcircuit hinputs filled⟩
    · rw [not_or, not_lt] at hcount
      exact ⟨List.length_pos_of_ne_nil hcount.1, hcount.2⟩
    · push Not at hfilled
      simpa using hfilled
  · simp only [bind_eq_ok, ofOption_eq_ok, asArray_eq_some, refuse_eq_ok, pure_eq_ok, exists_const]
      at h
    obtain ⟨inputs, hinputs, hcount, slot, hslot, ⟨slot', filled⟩, hfill, hfilled, rfl⟩ := h
    obtain ⟨rfl, rfl, -⟩ | ⟨s, -, -, rfl⟩ := fill_eq_ok.1 hfill
    · refine ⟨.merge hmerge hcircuit hinputs ?_ hslot, .merge hmerge hcircuit⟩
      rw [not_or, not_lt] at hcount
      exact ⟨List.length_pos_of_ne_nil hcount.1, hcount.2⟩
    · exact absurd rfl hfilled

theorem complete_of_completable (hrequest : (Json.obj body : Value).Distinct)
    (completable : Completable body) : ∃ result, complete (.obj body) secret = .ok result := by
  cases completable with
  | @transfer circuit inputs known type array count slotted padding opened =>
    have hdistinct := distinct_arr.1 (Fields.distinct_lookup hrequest _ _ array)
    -- Each input is taken by itself; what it becomes depends on whether its slot is open.
    obtain ⟨results, hresults⟩ : ∃ results, List.Forall₂
        (fun input r => fillInput (fieldHex secret) input = .ok r) inputs results := by
      refine exists_forall₂ fun input hinput => ?_
      obtain ⟨input', filled⟩ : ∃ input', Filled (fieldHex secret) input input' :=
        exists_filled (slotted input hinput) (padding input hinput)
      by_cases hopen : IsOpen input
      · exact ⟨(input', true), (fillInput_eq_ok (hdistinct input hinput)).2
          ⟨slotted input hinput, padding input hinput, filled, iff_of_true rfl hopen⟩⟩
      · exact ⟨(input', false), (fillInput_eq_ok (hdistinct input hinput)).2
          ⟨slotted input hinput, padding input hinput, filled, iff_of_false (by simp) hopen⟩⟩
    obtain ⟨-, -, hopen⟩ := fillInputs hdistinct hresults
    refine ⟨.obj (replaceMember "inputs" (.arr (results.map Prod.fst)) body), ?_⟩
    simp only [complete, bind_eq_ok, object_eq_ok, ofOption_eq_ok, asStr_eq_some]
    refine ⟨body, rfl, circuit, type, ?_⟩
    rw [if_pos known]
    simp only [bind_eq_ok, ofOption_eq_ok, asArray_eq_some, refuse_eq_ok, pure_eq_ok, exists_const,
      mapM_eq_ok]
    refine ⟨inputs, array, ?_, results, hresults, ?_, rfl⟩
    · rintro (rfl | hlong)
      · exact absurd count.1 (by simp)
      · exact absurd count.2 (by omega)
    -- Some slot was open, so not everything was skipped.
    · obtain ⟨r, hr, htrue⟩ := hopen.2 opened
      intro hall
      rw [hall r hr] at htrue
      cases htrue
  | @merge circuit inputs known type array count opened =>
    refine ⟨.obj (replaceMember "userNullifierSecret" (.str (fieldHex secret)) body), ?_⟩
    simp only [complete, bind_eq_ok, object_eq_ok, ofOption_eq_ok, asStr_eq_some]
    refine ⟨body, rfl, circuit, type, ?_⟩
    rw [if_neg fun h => transfer_ne_merge h known, if_pos known]
    simp only [bind_eq_ok, ofOption_eq_ok, asArray_eq_some, refuse_eq_ok, pure_eq_ok, exists_const]
    refine ⟨inputs, array, ?_, .null, opened, (.str (fieldHex secret), true), rfl, by simp, rfl⟩
    rintro (rfl | hlong)
    · exact absurd count.1 (by simp)
    · exact absurd count.2 (by omega)

/-- Which requests are completed, and what they become. -/
theorem complete_iff (request : Document) (secret : Bytes) :
    ((∃ result, complete request.val secret = .ok result) ↔
      ∃ body, request.val = .obj body ∧ Completable body) ∧
    (∀ result, complete request.val secret = .ok result → ∃ body, request.val = .obj body ∧
      Completion ("0x" ++ String.ofList (Nat.toDigits 16 (bigEndian secret))) body result) := by
  rw [← fieldHex_eq]
  refine ⟨⟨?_, ?_⟩, ?_⟩
  · rintro ⟨result, h⟩
    obtain ⟨body, hbody, completable, -⟩ := completion_of_complete request.property h
    exact ⟨body, hbody, completable⟩
  · rintro ⟨body, hbody, completable⟩
    rw [hbody]
    exact complete_of_completable (hbody ▸ request.property) completable
  · intro result h
    obtain ⟨body, hbody, -, completion⟩ := completion_of_complete request.property h
    exact ⟨body, hbody, completion⟩

end Slots

end ZolanaTvc.Enclave.Prove
