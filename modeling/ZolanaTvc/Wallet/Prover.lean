import ZolanaTvc.Enclave.ProvingKey
import ZolanaTvc.Wallet.AppProof

/-!
# The prover a client seals to

The client names the proving key of a request, and the enclave seals the completed request to the route
of the key that it names itself.

## Main results

* `Prover.provingKeyName_agree`: both name one key for a request, or both refuse it.
* `Prover.sealing_bound`: what the enclave seals, and to whom.
-/

namespace ZolanaTvc.Wallet.Prover

open Except Json Protocol Serde

/-- Mirrors the enclave's. -/
def MAX_PROVE_INPUTS : ℕ := 52

/-- The circuit types and their proving-key families. -/
def FAMILIES : List (String × String) :=
  [("transfer-confidential", "transfer_confidential"), ("transfer-ring", "transfer_ring"),
    ("merge", "merge"), ("merge-ring", "merge_ring")]

/-- The entry of `FAMILIES` under a value. -/
def familyOf : Option JsValue → Option (String × String)
  | some (.str s) => FAMILIES.find? fun f => utf16Units f.1 = s
  | _ => none

/-- Whether `value` is a circuit type the enclave proves. -/
def isProveCircuit (value : Option JsValue) : Bool := (familyOf value).isSome

def slotCount : Option JsValue → Except Thrown ℕ
  | some (.arr vs) => do
    refuse (vs = [] ∨ MAX_PROVE_INPUTS < vs.length) (spr "InvalidProverRequest")
    return vs.length
  | _ => .error (spr "InvalidProverRequest")

/-- The proving key file name, without `.key`; mirrors the enclave's `proving_key`. -/
def provingKeyName (request : JsValue) : Except Thrown JsString := do
  let (circuit, family) ← ofOption (familyOf (← property request "circuitType"))
    (spr "InvalidProverRequest")
  let inputs ← slotCount (← property request "inputs")
  let outputs ← if "merge".toList.isPrefixOf circuit.toList then .ok 1
    else slotCount (← property request "outputs")
  return utf16Units (family ++ "_" ++ inputs.repr ++ "_" ++ outputs.repr)

/-- The route a request for `key` is sealed to. -/
def proverTarget (key : JsString) : JsString := utf16Units "/prove/" ++ key

section Agreement

variable {ms : List (String × Value)} {field : String} {value : Option JsValue}

theorem toOption_bind {ε A B : Type} (x : Except ε A) (f : A → Except ε B) :
    (x >>= f).toOption = x.toOption.bind fun a => (f a).toOption := by
  cases x <;> rfl

theorem toOption_ofOption {ε A : Type} (x : Option A) (e : ε) : (ofOption x e).toOption = x := by
  cases x <;> rfl

/-- The circuit of a member, with its family. -/
theorem familyOf_agree (h : Option.Rel Reorder ((get ms field).map ofValue) value) :
    familyOf value = ((get ms field).bind Enclave.Prove.asStr).bind fun circuit =>
      (FAMILIES.lookup circuit).map fun family => (circuit, family) := by
  cases hget : get ms field with
  | none =>
    rw [hget] at h
    cases h
    rfl
  | some v =>
    rw [hget, Option.map_some] at h
    obtain ⟨w, rfl, hw⟩ := exists_of_rel_some h
    cases v with
    | str s =>
      cases hw
      show FAMILIES.find? (fun f => utf16Units f.1 = utf16Units s) = (FAMILIES.lookup s).map _
      -- The two tables have the same circuits, in the same order.
      simp only [utf16Units_injective.eq_iff]
      by_cases hs : s ∈ FAMILIES.map Prod.fst
      · simp only [FAMILIES, List.map_cons, List.map_nil, List.mem_cons, List.not_mem_nil,
          or_false] at hs
        obtain rfl | rfl | rfl | rfl := hs <;> rfl
      · have hne : ∀ f ∈ FAMILIES, f.1 ≠ s :=
          fun f hf heq => hs (heq ▸ List.mem_map_of_mem hf)
        have hnone : FAMILIES.lookup s = none :=
          List.lookup_eq_none_iff.2 fun f hf => by simpa using (hne f hf).symm
        rw [hnone, Option.map_none, List.find?_eq_none]
        simpa using hne
    | _ =>
      cases hw
      rfl

/-- Both count the slots of a member alike. -/
theorem slotCount_agree (h : Option.Rel Reorder ((get ms field).map ofValue) value) :
    (slotCount value).toOption = (Enclave.Prove.slotCount ms field).toOption := by
  rw [Enclave.Prove.slotCount, toOption_bind, toOption_ofOption]
  cases hget : get ms field with
  | none =>
    rw [hget] at h
    cases h
    rfl
  | some v =>
    rw [hget, Option.map_some] at h
    obtain ⟨w, rfl, hw⟩ := exists_of_rel_some h
    cases v with
    | arr vs =>
      have harr : ofValue (.arr vs) = .arr (vs.map ofValue) := map_arr _ _ vs
      rw [harr] at hw
      cases hw with
      | @arr _ ws hlength hzip =>
        rw [List.length_map] at hlength
        have hnil : ws = [] ↔ vs = [] := by
          rw [← List.length_eq_zero_iff, ← hlength, List.length_eq_zero_iff]
        simp only [slotCount, toOption_bind, hnil, ← hlength, Option.bind_some,
          Enclave.Prove.asArray]
        -- The bounds are the same number on both sides.
        by_cases hrefused : vs = [] ∨ MAX_PROVE_INPUTS < vs.length
        · have hrefused' : vs = [] ∨ Enclave.MAX_PROVE_INPUTS < vs.length := hrefused
          rw [refuse, refuse, if_pos hrefused, if_pos hrefused']
          rfl
        · have htaken : ¬(vs = [] ∨ Enclave.MAX_PROVE_INPUTS < vs.length) := hrefused
          rw [refuse, refuse, if_neg hrefused, if_neg htaken]
          rfl
    | _ =>
      cases hw
      rfl

/-- No circuit but the merges begins with the word. -/
theorem isPrefixOf_iff {circuit family : String} (h : FAMILIES.lookup circuit = some family) :
    "merge".toList.isPrefixOf circuit.toList = true ↔ circuit = "merge" ∨ circuit = "merge-ring" := by
  have hmem := (lookup_eq_some_iff (by decide)).1 h
  simp only [FAMILIES, List.mem_cons, List.not_mem_nil, or_false, Prod.mk.injEq] at hmem
  obtain ⟨rfl, -⟩ | ⟨rfl, -⟩ | ⟨rfl, -⟩ | ⟨rfl, -⟩ := hmem <;> decide

/-- Both sides name one proving key for a request, or both refuse it. -/
theorem provingKeyName_agree (request : Document) {w : JsValue}
    (hw : Reorder (ofValue request.val) w) :
    (provingKeyName w).toOption = (Enclave.Prove.provingKey request.val).toOption.map utf16Units := by
  obtain ⟨v, hdistinct⟩ := request
  cases v with
  | obj ms =>
    have hms := nodup_ofValue (distinct_obj.1 hdistinct).1
    rw [ofValue_obj] at hw
    obtain ⟨ns, rfl, -, hlookup⟩ := exists_of_reorder_obj hms hw
    have hrel : ∀ field, Option.Rel Reorder ((get ms field).map ofValue)
        (ns.lookup (utf16Units field)) := fun field => lookup_ofValue ms field ▸ hlookup _
    have hproperty : ∀ name, property (.obj ns) name = .ok (ns.lookup (utf16Units name)) :=
      fun _ => rfl
    simp only [provingKeyName, Enclave.Prove.provingKey, hproperty, Enclave.Prove.object, ok_bind,
      toOption_bind, toOption_ofOption, familyOf_agree (hrel "circuitType")]
    cases (get ms "circuitType").bind Enclave.Prove.asStr with
    | none => rfl
    | some circuit =>
      rw [Option.bind_some, Option.bind_some]
      show ((FAMILIES.lookup circuit).map _).bind _ = ((FAMILIES.lookup circuit).bind _).map _
      cases hfamily : FAMILIES.lookup circuit with
      | none => rfl
      | some family =>
        simp only [Option.map_some, Option.bind_some, slotCount_agree (hrel "inputs")]
        cases (Enclave.Prove.slotCount ms "inputs").toOption with
        | none => rfl
        | some inputs =>
          simp only [Option.bind_some, isPrefixOf_iff hfamily]
          -- Only a transfer names its outputs as well.
          by_cases hmerge : circuit = "merge" ∨ circuit = "merge-ring"
          · rw [if_pos hmerge, if_pos hmerge]
            rfl
          · rw [if_neg hmerge, if_neg hmerge, toOption_bind, toOption_bind,
              slotCount_agree (hrel "outputs")]
            cases (Enclave.Prove.slotCount ms "outputs").toOption <;> rfl
  | arr vs =>
    cases hw
    rfl
  | _ =>
    cases hw
    rfl

end Agreement

section Binding

open Enclave.Prove

/-- The client names the key of a request as the enclave does. -/
def NamedAlike (request : Document) (w : JsValue) : Prop :=
  (provingKeyName w).toOption = (provingKey request.val).toOption.map utf16Units

/-- The key of a request is named alike on both sides, tells its shape, outlasts its completion, and is
what a sealing is bound to. -/
theorem sealing_bound {Policy Attestation : Type} (verifier : Verifier Policy Attestation) :
    (∀ (request : Document) w, Reorder (ofValue request.val) w → NamedAlike request w) ∧
    (∀ request request' key, provingKey request = .ok key → provingKey request' = .ok key →
      ∃ circuit inputs outputs,
        HasShape request circuit inputs outputs ∧ HasShape request' circuit inputs outputs) ∧
    (∀ (request : Document) secret completed, complete request.val secret = .ok completed →
      provingKey completed = provingKey request.val) ∧
    ∀ (request : Document) secret sealing entropy nowMs,
      (∀ sealed, sealTo request secret sealing verifier.trust entropy nowMs = .ok sealed →
        SealedTo verifier request secret sealing entropy nowMs sealed) ∧
      (¬Attested request.val sealing verifier.trust nowMs →
        (sealInPlace request secret sealing verifier.trust entropy nowMs).dropped = none ∧
        ∃ failure, sealTo request secret sealing verifier.trust entropy nowMs = .error failure) :=
  ⟨fun request _ hw => provingKeyName_agree request hw,
    fun _ _ _ h h' => hasShape_of_provingKey_eq h h', fun _ _ _ h => provingKey_complete h,
    fun _ _ _ _ _ => ⟨fun _ h => sealedTo_of_sealTo h, refused_of_not_attested⟩⟩

end Binding

end ZolanaTvc.Wallet.Prover
