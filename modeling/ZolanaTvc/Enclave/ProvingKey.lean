import ZolanaTvc.Enclave.Sealing

/-!
# Proving keys

A proving key is named after the circuit family of a request and its slot counts. A sealing is bound to
the route of the key that the request has before it is completed, and completing it does not change its
key.

## Main results

* `Prove.shape_of_provingKey`: a name tells the circuit and the counts.
* `Prove.provingKey_complete`: a completed request has its own key.
-/

namespace ZolanaTvc.Enclave.Prove

open Except Json Protocol Serde

/-- The circuit types and the families of their keys. -/
def families : List (String × String) :=
  [("transfer-confidential", "transfer_confidential"), ("transfer-ring", "transfer_ring"),
    ("merge", "merge"), ("merge-ring", "merge_ring")]

/-- The circuit of a request, the number of its inputs, and the number of its outputs. -/
def HasShape (request : Value) (circuit : String) (inputs outputs : ℕ) : Prop :=
  ∃ ms, request = .obj ms ∧ get ms "circuitType" = some (.str circuit) ∧
    (∃ vs, get ms "inputs" = some (.arr vs) ∧ vs.length = inputs) ∧
    if circuit = "merge" ∨ circuit = "merge-ring" then outputs = 1
    else ∃ vs, get ms "outputs" = some (.arr vs) ∧ vs.length = outputs

def keyName (family : String) (inputs outputs : ℕ) : String :=
  family ++ "_" ++ inputs.repr ++ "_" ++ outputs.repr

section Names

variable {family family' : String} {inputs inputs' outputs outputs' : ℕ}

theorem repr_inj (h : Nat.toDigits 10 inputs = Nat.toDigits 10 inputs') : inputs = inputs' := by
  have hdigits := congrArg (Nat.ofDigitChars 10 · 0) h
  rwa [Nat.ofDigitChars_ten_toDigits, Nat.ofDigitChars_ten_toDigits] at hdigits

/-- Texts that end alike after their first mark end alike before it. -/
theorem takeWhile_mark {xs ys : List Char} (hxs : '_' ∉ xs) :
    (xs ++ '_' :: ys).takeWhile (· ≠ '_') = xs := by
  rw [List.takeWhile_append_of_pos fun c hc => by simpa using ne_of_mem_of_not_mem hc hxs]
  simp

/-- What follows the last mark of a name is a number, and tells it. -/
theorem append_mark_inj {xs ys : List Char} {m n : ℕ}
    (h : xs ++ '_' :: Nat.toDigits 10 m = ys ++ '_' :: Nat.toDigits 10 n) : xs = ys ∧ m = n := by
  have hdigits : ∀ (zs : List Char) (k : ℕ), ((zs ++ '_' :: Nat.toDigits 10 k).reverse).takeWhile
      (· ≠ '_') = (Nat.toDigits 10 k).reverse := by
    intro zs k
    rw [List.reverse_append, List.reverse_cons, List.append_assoc, List.singleton_append]
    exact takeWhile_mark fun hmem => Nat.underscore_not_in_toDigits (List.mem_reverse.1 hmem)
  obtain rfl : m = n := by
    refine repr_inj (List.reverse_injective ?_)
    rw [← hdigits xs m, h, hdigits]
  exact ⟨List.append_cancel_right h, rfl⟩

/-- A name tells its family and its counts. -/
theorem keyName_inj (h : keyName family inputs outputs = keyName family' inputs' outputs') :
    family = family' ∧ inputs = inputs' ∧ outputs = outputs' := by
  have hchars : ∀ (f : String) (i o : ℕ), (keyName f i o).toList =
      (f.toList ++ '_' :: Nat.toDigits 10 i) ++ '_' :: Nat.toDigits 10 o := by
    intro f i o
    simp only [keyName, String.toList_append, Nat.toList_repr, List.append_assoc]
    rfl
  have hlists := congrArg String.toList h
  rw [hchars, hchars] at hlists
  obtain ⟨hlists, houtputs⟩ := append_mark_inj hlists
  obtain ⟨hfamily, hinputs⟩ := append_mark_inj hlists
  exact ⟨String.toList_inj.1 hfamily, hinputs, houtputs⟩

end Names

section Shapes

variable {request completed : Value} {ms : List (String × Value)} {key field : String} {n : ℕ}

theorem slotCount_eq_ok : slotCount ms field = .ok n ↔
    ∃ vs, get ms field = some (.arr vs) ∧ vs.length = n ∧ 1 ≤ n ∧ n ≤ MAX_PROVE_INPUTS := by
  simp only [slotCount, bind_eq_ok, ofOption_eq_ok, asArray_eq_some, refuse_eq_ok, pure_eq_ok,
    exists_const, not_or, not_lt]
  constructor
  · rintro ⟨vs, hvs, ⟨hnil, hlength⟩, rfl⟩
    exact ⟨vs, hvs, rfl, List.length_pos_of_ne_nil hnil, hlength⟩
  · rintro ⟨vs, hvs, rfl, hpos, hlength⟩
    exact ⟨vs, hvs, ⟨List.ne_nil_of_length_pos hpos, hlength⟩, rfl⟩

/-- A key is named after the shape of its request. -/
theorem shape_of_provingKey (h : provingKey request = .ok key) : ∃ circuit family inputs outputs,
    families.lookup circuit = some family ∧ HasShape request circuit inputs outputs ∧
      key = keyName family inputs outputs := by
  simp only [provingKey, bind_eq_ok, object_eq_ok, ofOption_eq_ok, asStr_eq_some, slotCount_eq_ok]
    at h
  obtain ⟨ms, rfl, circuit, hcircuit, family, hfamily, inputs, ⟨vs, hvs, hlength, -⟩, h⟩ := h
  by_cases hmerge : circuit = "merge" ∨ circuit = "merge-ring"
  · rw [if_pos hmerge] at h
    obtain rfl := Except.ok.inj h
    exact ⟨circuit, family, inputs, 1, hfamily,
      ⟨ms, rfl, hcircuit, ⟨vs, hvs, hlength⟩, by rw [if_pos hmerge]⟩, rfl⟩
  · rw [if_neg hmerge] at h
    simp only [bind_eq_ok, slotCount_eq_ok, pure_eq_ok] at h
    obtain ⟨outputs, ⟨os, hos, hlength', -⟩, rfl⟩ := h
    exact ⟨circuit, family, inputs, outputs, hfamily,
      ⟨ms, rfl, hcircuit, ⟨vs, hvs, hlength⟩, by rw [if_neg hmerge]; exact ⟨os, hos, hlength'⟩⟩, rfl⟩

/-- Requests with one key have one shape. -/
theorem hasShape_of_provingKey_eq {request' : Value} (h : provingKey request = .ok key)
    (h' : provingKey request' = .ok key) : ∃ circuit inputs outputs,
      HasShape request circuit inputs outputs ∧ HasShape request' circuit inputs outputs := by
  obtain ⟨circuit, family, inputs, outputs, hfamily, hshape, rfl⟩ := shape_of_provingKey h
  obtain ⟨circuit', family', inputs', outputs', hfamily', hshape', heq⟩ := shape_of_provingKey h'
  obtain ⟨rfl, rfl, rfl⟩ := keyName_inj heq
  -- No two circuits share a family.
  have hinj : ∀ c c' f, families.lookup c = some f → families.lookup c' = some f → c = c' := by
    intro c c' f hc hc'
    have hmem := (lookup_eq_some_iff (by decide)).1 hc
    have hmem' := (lookup_eq_some_iff (by decide)).1 hc'
    simp only [families, List.mem_cons, List.not_mem_nil, or_false, Prod.mk.injEq] at hmem hmem'
    obtain ⟨rfl, rfl⟩ | ⟨rfl, rfl⟩ | ⟨rfl, rfl⟩ | ⟨rfl, rfl⟩ := hmem <;>
      simpa [eq_comm] using hmem'
  obtain rfl := hinj _ _ _ hfamily hfamily'
  exact ⟨circuit, inputs, outputs, hshape, hshape'⟩

theorem slotCount_congr {ms' : List (String × Value)} (h : get ms' field = get ms field) :
    slotCount ms' field = slotCount ms field := by
  rw [slotCount, slotCount, h]

theorem slotCount_replaceMember {inputs inputs' : List Value} (hinputs : get ms field = some (.arr inputs))
    (hlength : inputs'.length = inputs.length) :
    slotCount (replaceMember field (.arr inputs') ms) field = slotCount ms field := by
  have hlookup : ms.lookup field = some (.arr inputs) := hinputs
  have hinputs' : get (replaceMember field (.arr inputs') ms) field = some (.arr inputs') := by
    show (replaceMember field _ ms).lookup field = _
    rw [lookup_replaceMember, if_pos rfl, hlookup]
    rfl
  have hnil : inputs' = [] ↔ inputs = [] := by
    rw [← List.length_eq_zero_iff, hlength, List.length_eq_zero_iff]
  simp only [slotCount, hinputs, hinputs', Option.bind_some, asArray, ofOption_some, ok_bind, hnil,
    hlength]

/-- Completing a request does not change its key. -/
theorem provingKey_complete {request : Document} {secret : Bytes}
    (h : complete request.val secret = .ok completed) :
    provingKey completed = provingKey request.val := by
  obtain ⟨body, hbody, -, completion⟩ := completion_of_complete request.property h
  have hother : ∀ {name field : String} {v : Value}, field ≠ name →
      get (replaceMember name v body) field = get body field :=
    fun hne => (lookup_replaceMember _).trans (if_neg hne)
  rw [hbody]
  cases completion with
  | @transfer circuit inputs inputs' known type array filled =>
    simp only [provingKey, object, ok_bind, hother (show "circuitType" ≠ "inputs" by decide),
      slotCount_replaceMember array filled.length_eq.symm,
      slotCount_congr (hother (show "outputs" ≠ "inputs" by decide))]
  | merge known type =>
    simp only [provingKey, object, ok_bind,
      hother (show "circuitType" ≠ "userNullifierSecret" by decide),
      slotCount_congr (hother (show "inputs" ≠ "userNullifierSecret" by decide)),
      slotCount_congr (hother (show "outputs" ≠ "userNullifierSecret" by decide))]

end Shapes

section Provers

/-- How the enclave tells a prover: its policy signers, its vendor roots and the libraries it verifies
and encrypts with. -/
structure Verifier (Policy Attestation : Type) where
  MAX_SIGNED_POLICY_BYTES : ℕ
  /-- The policy of a file that enough of the signers signed, current at a time in seconds. -/
  verify : Bytes → UInt64 → Option Policy
  fromValue : Value → Option Attestation
  /-- The HPKE key of a prover that a policy takes, by its attestation for a nonce at a time. -/
  verifyWith : Attestation → Policy → ByteArrayOf 32 → UInt64 → Option (ByteArrayOf 32)
  encrypt : Bytes → ByteArrayOf 32 → String → String → Bytes →
    Option (ByteArrayOf 32 × Bytes × ByteArrayOf 32)

variable {Policy Attestation : Type} (verifier : Verifier Policy Attestation)

def Verifier.attestedKey (sealing : ProverSealing) (now : UInt64) : Option (ByteArrayOf 32) := do
  let file ← serdeToString sealing.policy.val
  guard ((utf8 file).length ≤ verifier.MAX_SIGNED_POLICY_BYTES)
  let policy ← verifier.verify (utf8 file) now
  let attestation ← verifier.fromValue sealing.attestation.val
  verifier.verifyWith attestation policy sealing.nonce now

def Verifier.trust : ProverTrust := ⟨verifier.attestedKey, verifier.encrypt⟩

/-- A prover whose policy and attestation pass for the nonce of a sealing. -/
def Verifier.Accepts (sealing : ProverSealing) (now : UInt64) (key : ByteArrayOf 32) : Prop :=
  ∃ file policy attestation, serdeToString sealing.policy.val = some file ∧
    (utf8 file).length ≤ verifier.MAX_SIGNED_POLICY_BYTES ∧
    verifier.verify (utf8 file) now = some policy ∧
    verifier.fromValue sealing.attestation.val = some attestation ∧
    verifier.verifyWith attestation policy sealing.nonce now = some key

variable {verifier} {request : Document} {secret : Bytes} {sealing : ProverSealing} {entropy : Bytes}
  {nowMs : UInt64}

theorem attestedKey_eq_some {now : UInt64} {key : ByteArrayOf 32} :
    verifier.attestedKey sealing now = some key ↔ verifier.Accepts sealing now key := by
  simp only [Verifier.attestedKey, Verifier.Accepts, Option.bind_eq_bind, Option.bind_eq_some_iff,
    Option.guard_eq_some']
  constructor
  · rintro ⟨file, hfile, -, hlength, policy, hpolicy, attestation, hattestation, hkey⟩
    exact ⟨file, policy, attestation, hfile, hlength, hpolicy, hattestation, hkey⟩
  · rintro ⟨file, policy, attestation, hfile, hlength, hpolicy, hattestation, hkey⟩
    exact ⟨file, hfile, (), hlength, policy, hpolicy, attestation, hattestation, hkey⟩

/-- What a sealing is: the completed request under its own key's route, encrypted to an accepted
prover. -/
def SealedTo (verifier : Verifier Policy Attestation) (request : Document) (secret : Bytes)
    (sealing : ProverSealing) (entropy : Bytes) (nowMs : UInt64) (sealed : SealedProverRequest) :
    Prop :=
  ∃ completed key proverKey plaintext, complete request.val secret = .ok completed ∧
    provingKey completed = .ok key ∧ sealed.target = PROVE_PATH ++ key ∧
    sealed.target = sealing.target ∧ verifier.Accepts sealing (nowMs / 1000) proverKey ∧
    serdeToString completed = some plaintext ∧
    verifier.encrypt entropy proverKey "POST" sealed.target (utf8 plaintext) =
      some (sealed.enc, sealed.ciphertext, sealed.responseKey)

theorem sealedTo_of_sealTo {sealed : SealedProverRequest}
    (h : sealTo request secret sealing verifier.trust entropy nowMs = .ok sealed) :
    SealedTo verifier request secret sealing entropy nowMs sealed := by
  simp only [sealTo, bind_eq_ok, pure_eq_ok, ofOption_eq_ok] at h
  obtain ⟨key, hkey, ⟨⟩, htarget, proverKey, hprover, completed, hcompleted, plaintext, hplaintext,
    ⟨enc, ciphertext, responseKey⟩, hencrypt, rfl⟩ := h
  refine ⟨completed, key, proverKey, plaintext, hcompleted,
    (provingKey_complete hcompleted).trans hkey, ?_, rfl, ?_, hplaintext, hencrypt⟩
  · rw [checkTarget, refuse_eq_ok, not_or, not_not] at htarget
    exact htarget.2
  · exact attestedKey_eq_some.1 (ofOption_eq_ok.1 hprover)

/-- A refused key, target, policy or attestation is refused before the request is copied. -/
theorem refused_of_not_attested (h : ¬Attested request.val sealing verifier.trust nowMs) :
    (sealInPlace request secret sealing verifier.trust entropy nowMs).dropped = none ∧
      ∃ failure, sealTo request secret sealing verifier.trust entropy nowMs = .error failure := by
  refine ⟨dropped_of_not_attested h, ?_⟩
  cases hsealed : sealTo request secret sealing verifier.trust entropy nowMs with
  | error failure => exact ⟨failure, rfl⟩
  | ok sealed =>
    simp only [sealTo, bind_eq_ok] at hsealed
    obtain ⟨key, hkey, ⟨⟩, htarget, proverKey, hprover, -⟩ := hsealed
    exact absurd ⟨key, proverKey, hkey, htarget, hprover⟩ h

end Provers

end ZolanaTvc.Enclave.Prove
