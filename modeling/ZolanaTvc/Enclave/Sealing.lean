import ZolanaTvc.Enclave.Completion

/-!
# What a sealing leaves behind

`seal` writes the secret into a copy of the request. `scrub` wipes the copy's slots before it is dropped.
Here the copy is followed to where `seal` drops it.

## Main results

* `Prove.wiped_iff`: the secret is wiped unless an input is refused after an earlier one was filled.
-/

namespace ZolanaTvc.Enclave.Prove

open Except Json Protocol Serde

section Copies

/-- The inputs as the loop leaves them, and how many slots were filled or why the loop ended. -/
def fillInputsInPlace (secret : String) : List Value → ℕ → List Value × Except Failure ℕ
  | [], filled => ([], .ok filled)
  | input :: inputs, filled =>
    match fillInput secret input with
    | .error failure => (input :: inputs, .error failure)
    | .ok (input', wrote) =>
      let (inputs', result) := fillInputsInPlace secret inputs (if wrote then filled + 1 else filled)
      (input' :: inputs', result)

/-- The copy as `complete` leaves it, also when it refuses. -/
def completeInPlace (request : Value) (nullifierSecret : Bytes) : Value × Except Failure Unit :=
  match object request with
  | .error failure => (request, .error failure)
  | .ok body =>
    match (get body "circuitType").bind asStr with
    | none => (request, .error .invalid)
    | some circuit =>
      let secret := fieldHex nullifierSecret
      if circuit = "transfer-confidential" ∨ circuit = "transfer-ring" then
        match (get body "inputs").bind asArray with
        | none => (request, .error .invalid)
        | some inputs =>
          if inputs = [] ∨ MAX_PROVE_INPUTS < inputs.length then (request, .error .invalid)
          else
            -- Slots filled before an input that is refused stay filled.
            let (inputs, result) := fillInputsInPlace secret inputs 0
            (.obj (replaceMember "inputs" (.arr inputs) body), do
              let filled ← result
              refuse (filled = 0) .invalid)
      else if circuit = "merge" ∨ circuit = "merge-ring" then
        match (get body "inputs").bind asArray with
        | none => (request, .error .invalid)
        | some inputs =>
          if inputs = [] ∨ MAX_PROVE_INPUTS < inputs.length then (request, .error .invalid)
          else
            match get body "userNullifierSecret" with
            | none => (request, .error .invalid)
            | some slot =>
              match fill secret slot with
              | .error failure => (request, .error failure)
              | .ok (slot, wrote) =>
                (.obj (replaceMember "userNullifierSecret" slot body), refuse (wrote = false) .invalid)
      else (request, .error .invalid)

/-- `zeroize` of the text in a slot. -/
def wipe : Value → Value
  | .str _ => .str ""
  | v => v

/-- A slot of an object, wiped. -/
def wipeMember (name : String) (ms : List (String × Value)) : List (String × Value) :=
  match get ms name with
  | some slot => replaceMember name (wipe slot) ms
  | none => ms

def wipeInput : Value → Value
  | .obj ms => .obj (wipeMember "nullifierSecret" ms)
  | v => v

/-- Wipes every nullifier secret slot of a completed request. -/
def scrub : Value → Value
  | .obj ms =>
    let ms := wipeMember "userNullifierSecret" ms
    match (get ms "inputs").bind asArray with
    | some inputs => .obj (replaceMember "inputs" (.arr (inputs.map wipeInput)) ms)
    | none => .obj ms
  | v => v

/-- What `seal` returns, and its copy of the request when it drops it, if it made one. -/
structure Exit where
  dropped : Option Value
  result : Except Failure SealedProverRequest

def sealInPlace (request : Document) (nullifierSecret : Bytes) (sealing : ProverSealing)
    (trust : ProverTrust) (entropy : Bytes) (nowMs : UInt64) : Exit :=
  match (do
    let key ← provingKey request.val
    checkTarget sealing.target key
    attestedKey sealing trust nowMs) with
  | .error failure => ⟨none, .error failure⟩
  | .ok proverKey =>
    match completeInPlace request.val nullifierSecret with
    -- The early return drops the copy as it is; only a completed one is scrubbed.
    | (copy, .error failure) => ⟨some copy, .error failure⟩
    | (copy, .ok _) =>
      { dropped := some (scrub copy)
        result := do
          let plaintext ← ofOption (serdeToString copy) .unavailable
          let (enc, ciphertext, responseKey) ←
            ofOption (trust.encrypt entropy proverKey "POST" sealing.target (utf8 plaintext)) .unavailable
          return ⟨sealing.target, enc, ciphertext, responseKey⟩ }

end Copies

section Agreement

variable {hex : String} {request : Value} {secret : Bytes}

theorem fillInputsInPlace_of_ok {inputs : List Value} {results : List (Value × Bool)} (n : ℕ)
    (h : inputs.mapM (fillInput hex) = .ok results) :
    fillInputsInPlace hex inputs n =
      (results.map Prod.fst, .ok (n + results.countP Prod.snd)) := by
  induction inputs generalizing results n with
  | nil =>
    obtain rfl := Except.ok.inj h
    rfl
  | cons input inputs ih =>
    rw [List.mapM_cons, bind_eq_ok] at h
    obtain ⟨⟨input', wrote⟩, hinput, h⟩ := h
    obtain ⟨rest, hrest, h⟩ := bind_eq_ok.1 h
    obtain rfl := Except.ok.inj h
    rw [fillInputsInPlace, hinput]
    dsimp only
    rw [ih _ hrest, List.map_cons, List.countP_cons]
    cases wrote <;> simp [Nat.add_assoc, Nat.add_comm]

theorem fillInputsInPlace_of_refused {before after : List Value} {bad : Value} {failure : Failure}
    {results : List (Value × Bool)} (n : ℕ) (h : before.mapM (fillInput hex) = .ok results)
    (hbad : fillInput hex bad = .error failure) :
    fillInputsInPlace hex (before ++ bad :: after) n =
      (results.map Prod.fst ++ bad :: after, .error failure) := by
  induction before generalizing results n with
  | nil =>
    obtain rfl := Except.ok.inj h
    rw [List.nil_append, fillInputsInPlace, hbad]
    rfl
  | cons input before ih =>
    rw [List.mapM_cons, bind_eq_ok] at h
    obtain ⟨⟨input', wrote⟩, hinput, h⟩ := h
    obtain ⟨rest, hrest, h⟩ := bind_eq_ok.1 h
    obtain rfl := Except.ok.inj h
    rw [List.cons_append, fillInputsInPlace, hinput]
    dsimp only
    rw [ih _ hrest]
    rfl

/-- A loop that fails takes some inputs first. -/
theorem exists_refused {inputs : List Value} {failure : Failure}
    (h : inputs.mapM (fillInput hex) = .error failure) : ∃ before bad after results,
      inputs = before ++ bad :: after ∧ before.mapM (fillInput hex) = .ok results ∧
        fillInput hex bad = .error failure := by
  induction inputs with
  | nil => cases h
  | cons input inputs ih =>
    rw [List.mapM_cons, bind_eq_error] at h
    obtain h | ⟨result, hinput, h⟩ := h
    · exact ⟨[], input, inputs, [], rfl, rfl, h⟩
    · obtain h | ⟨_, -, h⟩ := bind_eq_error.1 h
      · obtain ⟨before, bad, after, results, rfl, hresults, hbad⟩ := ih h
        refine ⟨input :: before, bad, after, result :: results, rfl, ?_, hbad⟩
        rw [List.mapM_cons, hinput, ok_bind, hresults]
        rfl
      · cases h

theorem fillInputsInPlace_of_error {inputs : List Value} {failure : Failure} (n : ℕ)
    (h : inputs.mapM (fillInput hex) = .error failure) :
    (fillInputsInPlace hex inputs n).2 = .error failure := by
  obtain ⟨before, bad, after, results, rfl, hresults, hbad⟩ := exists_refused h
  rw [fillInputsInPlace_of_refused n hresults hbad]

/-- The copy that `complete` returns is the one it leaves. -/
theorem complete_eq_inPlace : complete request secret =
    (completeInPlace request secret).2.map fun _ => (completeInPlace request secret).1 := by
  unfold complete completeInPlace
  cases object request with
  | error failure => rfl
  | ok body =>
    rw [ok_bind]
    dsimp only
    cases (get body "circuitType").bind asStr with
    | none => rfl
    | some circuit =>
      rw [ofOption_some, ok_bind]
      by_cases htransfer : circuit = "transfer-confidential" ∨ circuit = "transfer-ring"
      · simp only [if_pos htransfer]
        cases (get body "inputs").bind asArray with
        | none => rfl
        | some inputs =>
          rw [ofOption_some, ok_bind]
          by_cases hcount : inputs = [] ∨ MAX_PROVE_INPUTS < inputs.length
          · simp only [refuse, if_pos hcount]
            rfl
          · simp only [refuse, if_neg hcount]
            rw [ok_bind]
            -- Here the two differ: the run in place has written the slots before a refusal, which
            -- the other never returns.
            cases hresults : inputs.mapM (fillInput (fieldHex secret)) with
            | error failure =>
              rw [fillInputsInPlace_of_error 0 hresults]
              rfl
            | ok results =>
              rw [fillInputsInPlace_of_ok 0 hresults, ok_bind, ok_bind, zero_add]
              by_cases hfilled : results.countP Prod.snd = 0
              -- The source counts the filled slots, the function asks whether there is one.
              · have hall : ∀ r ∈ results, r.2 = false := by
                  simpa using List.countP_eq_zero.1 hfilled
                simp only [if_pos hall, if_pos hfilled]
                rfl
              · have hall : ¬∀ r ∈ results, r.2 = false := by
                  simpa using mt List.countP_eq_zero.2 hfilled
                simp only [if_neg hall, if_neg hfilled]
                rfl
      · simp only [if_neg htransfer]
        by_cases hmerge : circuit = "merge" ∨ circuit = "merge-ring"
        · simp only [if_pos hmerge]
          cases (get body "inputs").bind asArray with
          | none => rfl
          | some inputs =>
            rw [ofOption_some, ok_bind]
            by_cases hcount : inputs = [] ∨ MAX_PROVE_INPUTS < inputs.length
            · simp only [refuse, if_pos hcount]
              rfl
            · simp only [refuse, if_neg hcount]
              rw [ok_bind]
              cases get body "userNullifierSecret" with
              | none => rfl
              | some slot =>
                rw [ofOption_some, ok_bind]
                cases hfill : fill (fieldHex secret) slot with
                | error failure =>
                  simp only [hfill]
                  rfl
                | ok result =>
                  obtain ⟨slot', wrote⟩ := result
                  simp only [hfill]
                  cases wrote <;> rfl
        · simp only [if_neg hmerge]
          rfl

/-- `seal` returns what it does when its copy is not looked at. -/
theorem sealTo_eq_inPlace (request : Document) (secret : Bytes) (sealing : ProverSealing)
    (trust : ProverTrust) (entropy : Bytes) (nowMs : UInt64) :
    sealTo request secret sealing trust entropy nowMs =
      (sealInPlace request secret sealing trust entropy nowMs).result := by
  unfold sealTo sealInPlace
  cases hkey : provingKey request.val with
  | error failure => rfl
  | ok key =>
    cases htarget : checkTarget sealing.target key with
    | error failure =>
      simp only [ok_bind, htarget]
      rfl
    | ok u =>
      cases hattested : attestedKey sealing trust nowMs with
      | error failure =>
        simp only [ok_bind, htarget]
        rfl
      | ok proverKey =>
        simp only [ok_bind, htarget, complete_eq_inPlace]
        obtain ⟨copy, result⟩ := completeInPlace request.val secret
        cases result <;> rfl

end Agreement

section Slots

/-- A place of a request that may hold the secret. -/
inductive Slot where
  | userNullifierSecret
  | input (index : ℕ)

/-- The slot of an input. -/
def inputSlot : Value → Option Value
  | .obj ms => get ms "nullifierSecret"
  | _ => none

def inputsOf (ms : List (String × Value)) : Option (List Value) := (get ms "inputs").bind asArray

/-- What a slot of a request holds. -/
def slotAt : Slot → Value → Option Value
  | .userNullifierSecret, .obj ms => get ms "userNullifierSecret"
  | .input index, .obj ms => (inputsOf ms).bind fun inputs => (inputs[index]?).bind inputSlot
  | _, _ => none

variable {hex : String} {request copy : Value} {secret : Bytes} {ms : List (String × Value)}

theorem get_wipeMember (name k : String) : get (wipeMember name ms) k =
    if k = name then (get ms k).map wipe else get ms k := by
  rw [wipeMember]
  cases h : get ms name with
  | none =>
    by_cases hk : k = name
    · rw [if_pos hk, hk, h]
      rfl
    · rw [if_neg hk]
  | some slot =>
    show (replaceMember name (wipe slot) ms).lookup k = _
    rw [lookup_replaceMember]
    by_cases hk : k = name
    · have hlookup : ms.lookup k = some slot := hk ▸ h
      rw [if_pos hk, if_pos hk, hlookup]
      exact congrArg (Option.map wipe) hlookup.symm
    · rw [if_neg hk, if_neg hk]

theorem inputSlot_wipeInput (input : Value) :
    inputSlot (wipeInput input) = (inputSlot input).map wipe := by
  cases input with
  | obj ms => exact (get_wipeMember _ _).trans (if_pos rfl)
  | _ => rfl

/-- `scrub` wipes every slot. -/
theorem slotAt_scrub (slot : Slot) (v : Value) :
    slotAt slot (scrub v) = (slotAt slot v).map wipe := by
  cases v with
  | obj ms =>
    -- The wipe of the first slot leaves `inputs` as it was.
    have hinputs : (get (wipeMember "userNullifierSecret" ms) "inputs").bind asArray = inputsOf ms := by
      rw [get_wipeMember, if_neg (by decide), inputsOf]
    rw [scrub, hinputs]
    cases hlist : inputsOf ms with
    | none =>
      cases slot with
      | userNullifierSecret => exact (get_wipeMember _ _).trans (if_pos rfl)
      | input index =>
        have hnone : inputsOf (wipeMember "userNullifierSecret" ms) = none := hinputs.trans hlist
        simp only [slotAt, hlist, hnone]
        rfl
    | some inputs =>
      cases slot with
      | userNullifierSecret =>
        show (replaceMember "inputs" _ _).lookup "userNullifierSecret" = _
        rw [lookup_replaceMember, if_neg (by decide)]
        exact (get_wipeMember _ _).trans (if_pos rfl)
      | input index =>
        -- The list is replaced by its wiped inputs, whatever else the object holds.
        have hreplaced : inputsOf (replaceMember "inputs" (.arr (inputs.map wipeInput))
            (wipeMember "userNullifierSecret" ms)) = some (inputs.map wipeInput) := by
          have hsome := asArray_eq_some.1 (hinputs.trans hlist)
          have hlookup : (wipeMember "userNullifierSecret" ms).lookup "inputs" = some (.arr inputs) :=
            hsome
          rw [inputsOf, asArray_eq_some]
          show (replaceMember "inputs" _ _).lookup "inputs" = _
          rw [lookup_replaceMember, if_pos rfl, hlookup]
          rfl
        simp only [slotAt, hlist, hreplaced, Option.bind_some, List.getElem?_map]
        cases inputs[index]? with
        | none => rfl
        | some input => exact inputSlot_wipeInput input
  | _ => cases slot <;> rfl

/-- A slot that the secret was written to. -/
def Written (secret : Bytes) (request copy : Value) (slot : Slot) : Prop :=
  slotAt slot request = some .null ∧ slotAt slot copy = some (.str (fieldHex secret))

/-- An input that is not taken. -/
def Refused (input : Value) : Prop := ¬(Slotted input ∧ (IsDummy input → ¬IsOpen input))

/-- A transfer one of whose inputs is refused after an earlier one with an open slot. -/
def RefusedAfterOpen (request : Value) : Prop :=
  ∃ ms circuit before bad after, request = .obj ms ∧ get ms "circuitType" = some (.str circuit) ∧
    (circuit = "transfer-confidential" ∨ circuit = "transfer-ring") ∧
    get ms "inputs" = some (.arr (before ++ bad :: after)) ∧
    (before ++ bad :: after).length ≤ MAX_PROVE_INPUTS ∧ (∀ input ∈ before, ¬Refused input) ∧
    Refused bad ∧ ∃ input ∈ before, IsOpen input

theorem not_written_self {slot : Slot} : ¬Written secret request request slot := by
  rintro ⟨hnull, hstr⟩
  rw [hnull] at hstr
  cases hstr

theorem isOpen_iff {input : Value} : IsOpen input ↔ inputSlot input = some .null := by
  cases input with
  | obj ms => exact isOpen_obj
  | _ =>
    refine iff_of_false ?_ (by simp [inputSlot])
    rintro ⟨ms, h, -⟩
    cases h

theorem inputSlot_filled {input input' : Value} (h : Filled hex input input') :
    inputSlot input' = if inputSlot input = some .null then some (.str hex) else inputSlot input := by
  cases h with
  | @filled ms hreal hopen =>
    have hslot : inputSlot (.obj ms) = some .null := hopen
    have hlookup : ms.lookup "nullifierSecret" = some .null := hopen
    rw [if_pos hslot]
    show (replaceMember _ _ _).lookup "nullifierSecret" = _
    rw [lookup_replaceMember, if_pos rfl, hlookup]
    rfl
  | kept hclosed => rw [if_neg fun h => hclosed (isOpen_iff.2 h)]

/-- In a copy with other inputs, an input's slot was written if it was open and holds the secret. -/
theorem written_inputs {inputs inputs' : List Value} {slot : Slot}
    (harray : get ms "inputs" = some (.arr inputs)) :
    Written secret (.obj ms) (.obj (replaceMember "inputs" (.arr inputs') ms)) slot ↔
      ∃ index, slot = .input index ∧ (inputs[index]?).bind inputSlot = some .null ∧
        (inputs'[index]?).bind inputSlot = some (.str (fieldHex secret)) := by
  have hinputs : inputsOf ms = some inputs := asArray_eq_some.2 harray
  have hlookup : ms.lookup "inputs" = some (.arr inputs) := harray
  have hinputs' : inputsOf (replaceMember "inputs" (.arr inputs') ms) = some inputs' := by
    rw [inputsOf, asArray_eq_some]
    show (replaceMember "inputs" _ _).lookup "inputs" = _
    rw [lookup_replaceMember, if_pos rfl, hlookup]
    rfl
  cases slot with
  | userNullifierSecret =>
    have hsame : get (replaceMember "inputs" (.arr inputs') ms) "userNullifierSecret" =
        get ms "userNullifierSecret" := (lookup_replaceMember _).trans (if_neg (by decide))
    refine iff_of_false ?_ ?_
    · rintro ⟨hnull, hstr⟩
      rw [slotAt, hsame] at hstr
      cases hnull.symm.trans hstr
    · rintro ⟨index, h, -⟩
      cases h
  | input index =>
    simp only [Written, slotAt, hinputs, hinputs', Option.bind_some]
    exact ⟨fun h => ⟨index, rfl, h⟩, fun ⟨_, h, h'⟩ => (Slot.input.inj h) ▸ h'⟩

theorem refused_iff {input : Value} (hex : String) (hinput : input.Distinct) :
    Refused input ↔ ∃ failure, fillInput hex input = .error failure := by
  cases h : fillInput hex input with
  | ok result =>
    obtain ⟨slotted, padding, -, -⟩ := (fillInput_eq_ok (b := result.2) hinput).1 h
    exact iff_of_false (fun hrefused => hrefused ⟨slotted, padding⟩) (by simp)
  | error failure =>
    refine iff_of_true ?_ ⟨failure, rfl⟩
    rintro ⟨slotted, padding⟩
    obtain ⟨input', filled⟩ := exists_filled slotted padding
    by_cases hopen : IsOpen input
    · cases h.symm.trans ((fillInput_eq_ok hinput).2 ⟨slotted, padding, filled, iff_of_true rfl hopen⟩)
    · cases h.symm.trans ((fillInput_eq_ok hinput).2
        ⟨slotted, padding, filled, iff_of_false Bool.false_ne_true hopen⟩)

/-- Where the loop filled a slot, an open input was taken. -/
theorem written_of_filled {before before' : List Value} (rest : List Value) {index : ℕ}
    (h : List.Forall₂ (Filled hex) before before')
    (hnull : (((before ++ rest)[index]?).bind inputSlot) = some .null)
    (hstr : (((before' ++ rest)[index]?).bind inputSlot) = some (.str hex)) :
    ∃ input ∈ before, IsOpen input := by
  by_cases hindex : index < before.length
  · rw [List.getElem?_append_left hindex, List.getElem?_eq_getElem hindex] at hnull
    exact ⟨before[index], List.getElem_mem hindex, isOpen_iff.2 hnull⟩
  · have hlength := h.length_eq
    rw [List.getElem?_append_right (by omega)] at hnull hstr
    rw [hlength] at hnull
    cases hnull.symm.trans hstr

/-- What `complete` does to its copy: nothing, or it goes through the inputs, or it fills one slot. -/
theorem completeInPlace_cases (request : Value) (secret : Bytes) :
    (∃ failure, completeInPlace request secret = (request, .error failure)) ∨
      (∃ ms circuit inputs, request = .obj ms ∧ get ms "circuitType" = some (.str circuit) ∧
        (circuit = "transfer-confidential" ∨ circuit = "transfer-ring") ∧
        get ms "inputs" = some (.arr inputs) ∧ inputs.length ≤ MAX_PROVE_INPUTS ∧
        completeInPlace request secret =
          (.obj (replaceMember "inputs" (.arr (fillInputsInPlace (fieldHex secret) inputs 0).1) ms), do
            let filled ← (fillInputsInPlace (fieldHex secret) inputs 0).2
            refuse (filled = 0) .invalid)) ∨
      ∃ ms slot slot' wrote, request = .obj ms ∧ get ms "userNullifierSecret" = some slot ∧
        fill (fieldHex secret) slot = .ok (slot', wrote) ∧
        completeInPlace request secret =
          (.obj (replaceMember "userNullifierSecret" slot' ms), refuse (wrote = false) .invalid) := by
  unfold completeInPlace
  cases hobject : object request with
  | error failure => exact .inl ⟨failure, rfl⟩
  | ok ms =>
    obtain rfl := object_eq_ok.1 hobject
    dsimp only
    cases hcircuit : (get ms "circuitType").bind asStr with
    | none => exact .inl ⟨.invalid, rfl⟩
    | some circuit =>
      dsimp only
      -- The two families of circuits differ in where the slots are: in the inputs, or in the
      -- request.
      by_cases htransfer : circuit = "transfer-confidential" ∨ circuit = "transfer-ring"
      · rw [if_pos htransfer]
        cases harray : (get ms "inputs").bind asArray with
        | none => exact .inl ⟨.invalid, rfl⟩
        | some inputs =>
          dsimp only
          by_cases hcount : inputs = [] ∨ MAX_PROVE_INPUTS < inputs.length
          · rw [if_pos hcount]
            exact .inl ⟨.invalid, rfl⟩
          · rw [if_neg hcount]
            exact .inr (.inl ⟨ms, circuit, inputs, rfl, asStr_eq_some.1 hcircuit, htransfer,
              asArray_eq_some.1 harray, Nat.le_of_not_lt (not_or.1 hcount).2, rfl⟩)
      · rw [if_neg htransfer]
        by_cases hmerge : circuit = "merge" ∨ circuit = "merge-ring"
        · rw [if_pos hmerge]
          cases harray : (get ms "inputs").bind asArray with
          | none => exact .inl ⟨.invalid, rfl⟩
          | some inputs =>
            dsimp only
            by_cases hcount : inputs = [] ∨ MAX_PROVE_INPUTS < inputs.length
            · rw [if_pos hcount]
              exact .inl ⟨.invalid, rfl⟩
            · rw [if_neg hcount]
              cases hslot : get ms "userNullifierSecret" with
              | none => exact .inl ⟨.invalid, rfl⟩
              | some slot =>
                dsimp only
                cases hfill : fill (fieldHex secret) slot with
                | error failure => exact .inl ⟨failure, rfl⟩
                | ok result => exact .inr (.inr ⟨ms, slot, result.1, result.2, rfl, hslot, hfill, rfl⟩)
        · rw [if_neg hmerge]
          exact .inl ⟨.invalid, rfl⟩

/-- When `complete` refuses after it wrote to its copy, it refused an input after an open one. -/
theorem refusedAfterOpen_of_written (hrequest : request.Distinct) {failure : Failure} {slot : Slot}
    (h : completeInPlace request secret = (copy, .error failure))
    (hwritten : Written secret request copy slot) : RefusedAfterOpen request := by
  obtain ⟨failure', hcase⟩ | ⟨ms, circuit, inputs, rfl, hcircuit, hknown, harray, hcount, hcase⟩ |
      ⟨ms, v, v', wrote, rfl, hslot, hfill, hcase⟩ := completeInPlace_cases request secret
  -- Nothing was written before the refusal.
  · obtain ⟨rfl, -⟩ := Prod.mk.inj (h.symm.trans hcase)
    exact absurd hwritten not_written_self
  -- The inputs before the refused one were filled where they were open.
  · obtain ⟨rfl, herror⟩ := Prod.mk.inj (h.symm.trans hcase)
    obtain ⟨index, rfl, hnull, hstr⟩ := (written_inputs harray).1 hwritten
    have hdistinct := distinct_arr.1 (Fields.distinct_lookup hrequest _ _ harray)
    cases hresults : inputs.mapM (fillInput (fieldHex secret)) with
    | error failure' =>
      obtain ⟨before, bad, after, results, rfl, hbefore, hbad⟩ := exists_refused hresults
      rw [fillInputsInPlace_of_refused 0 hbefore hbad] at hstr
      have hdistinct' : ∀ input ∈ before, input.Distinct :=
        fun input hinput => hdistinct input (List.mem_append_left _ hinput)
      obtain ⟨haccepted, hfilled, -⟩ := fillInputs hdistinct' (mapM_eq_ok.1 hbefore)
      refine ⟨ms, circuit, before, bad, after, rfl, hcircuit, hknown, harray, hcount,
        fun input hinput hrefused => hrefused (haccepted input hinput),
        (refused_iff (fieldHex secret) (hdistinct bad (by simp))).2 ⟨failure', hbad⟩,
        written_of_filled (bad :: after) hfilled hnull hstr⟩
    | ok results =>
      -- No slot was filled.
      rw [fillInputsInPlace_of_ok 0 hresults] at hstr herror
      obtain ⟨-, hfilled, hopen⟩ := fillInputs hdistinct (mapM_eq_ok.1 hresults)
      have hzero : ∀ r ∈ results, r.2 = false := by
        have hcountP : 0 + results.countP Prod.snd = 0 := (refuse_eq_error.1 herror.symm).1
        simpa using hcountP
      obtain ⟨input, hinput, hinputOpen⟩ :=
        written_of_filled [] hfilled (by rwa [List.append_nil]) (by rwa [List.append_nil])
      obtain ⟨r, hr, htrue⟩ := hopen.2 ⟨input, hinput, hinputOpen⟩
      rw [hzero r hr] at htrue
      cases htrue
  · obtain ⟨rfl, herror⟩ := Prod.mk.inj (h.symm.trans hcase)
    obtain ⟨rfl, -⟩ := refuse_eq_error.1 herror.symm
    -- The one slot of a merge is refused only when it was set, so it holds what it held.
    obtain ⟨-, -, htrue⟩ | ⟨s, rfl, rfl, -⟩ := fill_eq_ok.1 hfill
    · cases htrue
    · rw [replaceMember_self hrequest hslot] at hwritten
      exact absurd hwritten not_written_self

/-- An input refused after an open one leaves the secret in the copy. -/
theorem written_of_refusedAfterOpen (hrequest : request.Distinct) (h : RefusedAfterOpen request)
    (secret : Bytes) : ∃ failure slot, (completeInPlace request secret).2 = .error failure ∧
      Written secret request (completeInPlace request secret).1 slot := by
  obtain ⟨ms, circuit, before, bad, after, rfl, hcircuit, hknown, harray, hcount, hbefore, hbad,
    input, hinput, hopen⟩ := h
  have hdistinct := distinct_arr.1 (Fields.distinct_lookup hrequest _ _ harray)
  obtain ⟨failure, hfailure⟩ :=
    (refused_iff (fieldHex secret) (hdistinct bad (by simp))).1 hbad
  -- None of the inputs before the refused one is refused.
  obtain ⟨results, hresults⟩ : ∃ results, List.Forall₂
      (fun input r => fillInput (fieldHex secret) input = .ok r) before results := by
    refine exists_forall₂ fun input hinput => ?_
    cases hfill : fillInput (fieldHex secret) input with
    | ok result => exact ⟨result, rfl⟩
    | error failure =>
      have hrefused := (refused_iff (fieldHex secret)
        (hdistinct input (List.mem_append_left _ hinput))).2 ⟨failure, hfill⟩
      exact absurd hrefused (hbefore input hinput)
  have hmapM := mapM_eq_ok.2 hresults
  -- The copy holds what they became, then the refused input and the rest as they were.
  have hcopy : completeInPlace (.obj ms) secret =
      (.obj (replaceMember "inputs" (.arr (results.map Prod.fst ++ bad :: after)) ms),
        .error failure) := by
    have hnil : ¬(before ++ bad :: after = [] ∨
        MAX_PROVE_INPUTS < (before ++ bad :: after).length) := by
      simp only [List.append_eq_nil_iff, reduceCtorEq, and_false, false_or]
      exact Nat.not_lt.2 hcount
    simp only [completeInPlace, object, asStr_eq_some.2 hcircuit, asArray_eq_some.2 harray,
      if_pos hknown, if_neg hnil, fillInputsInPlace_of_refused 0 hmapM hfailure]
    rfl
  rw [hcopy]
  obtain ⟨index, hindex, hget⟩ := List.getElem_of_mem hinput
  refine ⟨failure, .input index, rfl, (written_inputs harray).2 ⟨index, rfl, ?_, ?_⟩⟩
  · rw [List.getElem?_append_left hindex, List.getElem?_eq_getElem hindex, hget]
    exact isOpen_iff.1 hopen
  · have hfilled := (fillInputs (fun input hinput =>
      hdistinct input (List.mem_append_left _ hinput)) hresults).2.1
    have hindex' : index < (results.map Prod.fst).length := hfilled.length_eq ▸ hindex
    have hfill := inputSlot_filled (hfilled.get hindex hindex')
    rw [List.get_eq_getElem, List.get_eq_getElem, hget, if_pos (isOpen_iff.1 hopen)] at hfill
    rw [List.getElem?_append_left hindex', List.getElem?_eq_getElem hindex', Option.bind_some,
      hfill]

end Slots

section Wiping

/-- The request reaches `complete`. -/
def Attested (request : Value) (sealing : ProverSealing) (trust : ProverTrust) (nowMs : UInt64) :
    Prop :=
  ∃ key proverKey, provingKey request = .ok key ∧ checkTarget sealing.target key = .ok () ∧
    attestedKey sealing trust nowMs = .ok proverKey

/-- Every slot the secret was written to is empty when the copy is dropped. -/
def Wiped (request : Value) (secret : Bytes) (dropped : Option Value) : Prop :=
  ∀ copy, dropped = some copy → ∀ slot,
    Written secret request (completeInPlace request secret).1 slot →
      slotAt slot copy = some (.str "")

variable {request : Document} {secret : Bytes} {sealing : ProverSealing} {trust : ProverTrust}
  {entropy : Bytes} {nowMs : UInt64}

theorem fieldHex_ne_empty (secret : Bytes) : fieldHex secret ≠ "" := by
  intro h
  have hlength := congrArg String.length h
  rw [fieldHex, String.length_append] at hlength
  exact absurd hlength (by rw [show "0x".length = 2 from rfl, show "".length = 0 from rfl]; omega)

/-- A request refused before `complete` is not copied. -/
theorem dropped_of_not_attested (h : ¬Attested request.val sealing trust nowMs) :
    (sealInPlace request secret sealing trust entropy nowMs).dropped = none := by
  rw [sealInPlace]
  cases hkey : provingKey request.val with
  | error failure => rfl
  | ok key =>
    cases htarget : checkTarget sealing.target key with
    | error failure =>
      simp only [ok_bind, htarget]
      rfl
    | ok u =>
      cases hattested : attestedKey sealing trust nowMs with
      | error failure => simp only [ok_bind, htarget]
      | ok proverKey => exact absurd ⟨key, proverKey, hkey, htarget, hattested⟩ h

/-- Past the attestation the copy is dropped as `complete` left it, or scrubbed. -/
theorem dropped_of_attested (h : Attested request.val sealing trust nowMs) :
    (sealInPlace request secret sealing trust entropy nowMs).dropped =
      match completeInPlace request.val secret with
      | (copy, .error _) => some copy
      | (copy, .ok _) => some (scrub copy) := by
  obtain ⟨key, proverKey, hkey, htarget, hattested⟩ := h
  simp only [sealInPlace, hkey, ok_bind, htarget, hattested]
  obtain ⟨copy, result⟩ := completeInPlace request.val secret
  cases result <;> rfl

/-- The secret is wiped unless a request that passed its attestation has an input refused after an open
one. -/
theorem wiped_iff (request : Document) (secret : Bytes) (sealing : ProverSealing)
    (trust : ProverTrust) (entropy : Bytes) (nowMs : UInt64) :
    Wiped request.val secret (sealInPlace request secret sealing trust entropy nowMs).dropped ↔
      (Attested request.val sealing trust nowMs → ¬RefusedAfterOpen request.val) := by
  by_cases hattested : Attested request.val sealing trust nowMs
  · rw [dropped_of_attested hattested, imp_iff_right hattested]
    constructor
    -- On a refusal the copy is dropped as it is: the written slot would have to hold the wiped
    -- text.
    · intro hwiped hrefused
      obtain ⟨failure, slot, hfailure, hwritten⟩ :=
        written_of_refusedAfterOpen request.property hrefused secret
      rcases hcopy : completeInPlace request.val secret with ⟨copy, result⟩
      rw [hcopy] at hfailure hwritten hwiped
      obtain rfl : result = .error failure := hfailure
      have hempty := hwiped copy rfl slot (by rwa [hcopy])
      have hstr := Option.some.inj (hwritten.2.symm.trans hempty)
      injection hstr with hstr
      exact fieldHex_ne_empty secret hstr
    -- On success the copy is scrubbed before it is dropped.
    · intro hrefused copy hdropped slot hwritten
      rcases hcopy : completeInPlace request.val secret with ⟨left, result⟩
      rw [hcopy] at hwritten hdropped
      cases result with
      | error failure =>
        exact absurd (refusedAfterOpen_of_written request.property hcopy hwritten) hrefused
      | ok u =>
        obtain rfl := Option.some.inj hdropped
        rw [slotAt_scrub, hwritten.2]
        rfl
  · rw [dropped_of_not_attested hattested]
    -- Without an attestation no copy is made.
    exact iff_of_true (fun _ h => nomatch h) fun h => absurd h hattested

/-- A transfer whose second input is no object. -/
def brokenTransfer : Document :=
  ⟨.obj [("circuitType", .str "transfer-confidential"),
      ("inputs", .arr [.obj [("isDummy", .str "0x0"), ("nullifierSecret", .null)], .null]),
      ("outputs", .arr [.null])],
    by decide⟩

/-- The secret is left in the copy of a transfer that is refused at its second input. -/
theorem brokenTransfer_not_wiped : ∃ (secret : Bytes) (sealing : ProverSealing) (trust : ProverTrust)
    (entropy : Bytes) (nowMs : UInt64),
      ¬Wiped brokenTransfer.val secret
        (sealInPlace brokenTransfer secret sealing trust entropy nowMs).dropped := by
  refine ⟨[7], ⟨"/prove/transfer_confidential_2_1", ⟨List.replicate 32 7, by decide⟩,
    ⟨.null, by decide⟩, ⟨.null, by decide⟩⟩,
    ⟨fun _ _ => some ⟨List.replicate 32 8, by decide⟩, fun _ _ _ _ _ => none⟩, [], 0, ?_⟩
  intro hwiped
  have hempty := hwiped (.obj [("circuitType", .str "transfer-confidential"),
      ("inputs", .arr [.obj [("isDummy", .str "0x0"), ("nullifierSecret", .str "0x7")], .null]),
      ("outputs", .arr [.null])]) (by rfl) (.input 0) ⟨by rfl, by rfl⟩
  exact absurd hempty (by decide)

end Wiping

end ZolanaTvc.Enclave.Prove
