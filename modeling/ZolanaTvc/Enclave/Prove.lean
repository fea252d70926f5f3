import ZolanaTvc.Enclave.Sealed

/-!
# Proving

The client assembles the whole prover request, with `null` in every nullifier secret slot that is this
wallet's to fill. The enclave fills those slots and seals the request to an attested prover.
-/

namespace ZolanaTvc.Enclave

open Protocol Except Serde

def MAX_PROVE_INPUTS : ℕ := 52

def MAX_PROVER_TARGET_LEN : ℕ := 256

/-- A proving key's route. -/
def PROVE_PATH : String := "/prove/"

namespace Prove

/-- The secret as the big-endian integer in lowercase hex without leading zeros. -/
def fieldHex (secret : Bytes) : String :=
  let digits := (encodeLowerHex secret).toList.dropWhile (· = '0')
  "0x" ++ if digits = [] then "0" else String.ofList digits

/-- The slot with the secret in it if it is open, and whether it was. -/
def fill (secret : String) : Value → Except Failure (Value × Bool)
  | .null => .ok (.str secret, true)
  | .str s => .ok (.str s, false)
  | _ => .error .invalid

def object : Value → Except Failure (List (String × Value))
  | .obj ms => .ok ms
  | _ => .error .invalid

def asStr : Value → Option String
  | .str s => some s
  | _ => none

def asArray : Value → Option (List Value)
  | .arr vs => some vs
  | _ => none

/-- One input of a transfer with its slot filled. -/
def fillInput (secret : String) (input : Value) : Except Failure (Value × Bool) := do
  let input ← object input
  let isDummy ← ofOption ((get input "isDummy").bind asStr) .invalid
  let slot ← ofOption (get input "nullifierSecret") .invalid
  refuse (isDummy ≠ "0x0" ∧ slot = .null) .invalid
  let (slot, filled) ← fill secret slot
  return (.obj (replaceMember "nullifierSecret" slot input), filled)

/-- The request with this wallet's secret in every open slot. -/
def complete (request : Value) (nullifierSecret : Bytes) : Except Failure Value := do
  let body ← object request
  let circuit ← ofOption ((get body "circuitType").bind asStr) .invalid
  let secret := fieldHex nullifierSecret
  if circuit = "transfer-confidential" ∨ circuit = "transfer-ring" then do
    let inputs ← ofOption ((get body "inputs").bind asArray) .invalid
    refuse (inputs = [] ∨ MAX_PROVE_INPUTS < inputs.length) .invalid
    let inputs ← inputs.mapM (fillInput secret)
    refuse (∀ input ∈ inputs, input.2 = false) .invalid
    return .obj (replaceMember "inputs" (.arr (inputs.map Prod.fst)) body)
  else if circuit = "merge" ∨ circuit = "merge-ring" then do
    -- A merge has one slot for all its inputs, which are only counted.
    let inputs ← ofOption ((get body "inputs").bind asArray) .invalid
    refuse (inputs = [] ∨ MAX_PROVE_INPUTS < inputs.length) .invalid
    let slot ← ofOption (get body "userNullifierSecret") .invalid
    let (slot, filled) ← fill secret slot
    refuse (filled = false) .invalid
    return .obj (replaceMember "userNullifierSecret" slot body)
  else .error .invalid

def slotCount (body : List (String × Value)) (field : String) : Except Failure ℕ := do
  let slots ← ofOption ((get body field).bind asArray) .invalid
  refuse (slots = [] ∨ MAX_PROVE_INPUTS < slots.length) .invalid
  return slots.length

/-- The proving key file name, without `.key`, that proves `request`. -/
def provingKey (request : Value) : Except Failure String := do
  let body ← object request
  let circuit ← ofOption ((get body "circuitType").bind asStr) .invalid
  let family ← ofOption (List.lookup circuit
    [("transfer-confidential", "transfer_confidential"), ("transfer-ring", "transfer_ring"),
      ("merge", "merge"), ("merge-ring", "merge_ring")]) .invalid
  let inputs ← slotCount body "inputs"
  let outputs ← if circuit = "merge" ∨ circuit = "merge-ring" then .ok 1 else slotCount body "outputs"
  return family ++ "_" ++ inputs.repr ++ "_" ++ outputs.repr

/-- `target` must be `key`'s route, with no prefix or query. -/
def checkTarget (target key : String) : Except Failure Unit :=
  refuse (MAX_PROVER_TARGET_LEN < (utf8 target).length ∨ target ≠ PROVE_PATH ++ key) .invalid

/-- The HPKE key of a prover whose attestation, for the client's nonce, passes a current policy. -/
def attestedKey (sealing : ProverSealing) (trust : ProverTrust) (nowMs : UInt64) :
    Except Failure (ByteArrayOf 32) :=
  ofOption (trust.attestedKey sealing (nowMs / 1000)) (.stage .prover)

/-- Seals the completed request to the prover `sealing` attests. -/
def sealTo (request : Document) (nullifierSecret : Bytes) (sealing : ProverSealing)
    (trust : ProverTrust) (entropy : Bytes) (nowMs : UInt64) :
    Except Failure SealedProverRequest := do
  let key ← provingKey request.val
  checkTarget sealing.target key
  let proverKey ← attestedKey sealing trust nowMs
  let completed ← complete request.val nullifierSecret
  let plaintext ← ofOption (serdeToString completed) .unavailable
  let (enc, ciphertext, responseKey) ←
    ofOption (trust.encrypt entropy proverKey "POST" sealing.target (utf8 plaintext)) .unavailable
  return ⟨sealing.target, enc, ciphertext, responseKey⟩

end Prove

end ZolanaTvc.Enclave
