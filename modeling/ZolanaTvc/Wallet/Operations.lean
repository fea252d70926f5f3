import ZolanaTvc.Wallet.Prover
import ZolanaTvc.Wallet.ProverPolicy

/-!
# What the client checks of operations and of their results

Before an operation is signed, the client checks its bounds and encodings as the enclave will. It checks
the result that comes back against the operation.

## Main results

* `requireHex_bytesToHex`, `checkHexList_of_forall`: what the client takes of hex.
-/

namespace ZolanaTvc.Wallet

open Except Json Protocol

/-- Mirrors the enclave's. -/
def MAX_ITEMS_PER_BATCH : ℕ := 256

def U32_MAX : ℤ := 0xffffffff

def U8_MAX : ℤ := 0xff

def SALT_BYTES : ℕ := 16

/-- A tagged X25519 viewing key. -/
def VIEWING_PUBLIC_KEY_BYTES : ℕ := 33

section Types

def SignedProverPolicyPart.value (part : SignedProverPolicyPart) : JsValue :=
  object [("payload", .str part.payload), ("signatures", .arr part.signatures)]

def SignedProverPolicyFile.value (file : SignedProverPolicyFile) : JsValue :=
  object [("release", file.release.value), ("freshness", file.freshness.value)]

@[ext]
structure DecryptItem where
  ciphertext : JsString
  viewingPublicKey : JsString
  transactionViewingPublicKey : JsString
  salt : JsString
  slotIndex : JsString
  label : JsString

def DecryptItem.value (item : DecryptItem) : JsValue :=
  object [("ciphertext", .str item.ciphertext), ("viewing_public_key", .str item.viewingPublicKey),
    ("transaction_viewing_public_key", .str item.transactionViewingPublicKey),
    ("salt", .str item.salt), ("slot_index", .str item.slotIndex), ("label", .str item.label)]

inductive DeriveItem where
  | nullifier (utxoHash blinding : JsString)
  | mergeDummyNullifier (firstNullifier slotIndex : JsString)
  | mergeOutputBlinding (firstNullifier : JsString)
  | mergePrivateTxBlinding (firstNullifier : JsString)
  | mergeOutputKey (firstNullifier : JsString)

def DeriveItem.value : DeriveItem → JsValue
  | .nullifier utxoHash blinding => object [("kind", .str (utf16Units "Nullifier")),
    ("utxo_hash", .str utxoHash), ("blinding", .str blinding)]
  | .mergeDummyNullifier firstNullifier slotIndex => object
    [("kind", .str (utf16Units "MergeDummyNullifier")), ("first_nullifier", .str firstNullifier),
      ("slot_index", .str slotIndex)]
  | .mergeOutputBlinding firstNullifier => object
    [("kind", .str (utf16Units "MergeOutputBlinding")), ("first_nullifier", .str firstNullifier)]
  | .mergePrivateTxBlinding firstNullifier => object
    [("kind", .str (utf16Units "MergePrivateTxBlinding")), ("first_nullifier", .str firstNullifier)]
  | .mergeOutputKey firstNullifier => object
    [("kind", .str (utf16Units "MergeOutputKey")), ("first_nullifier", .str firstNullifier)]

@[ext]
structure TransactionKeyItem where
  viewingPublicKey : JsString
  firstNullifier : JsString

def TransactionKeyItem.value (item : TransactionKeyItem) : JsValue :=
  object [("viewing_public_key", .str item.viewingPublicKey),
    ("first_nullifier", .str item.firstNullifier)]

structure ProverSealing where
  target : JsString
  nonce : JsString
  attestation : JsValue
  policy : JsValue

def ProverSealing.value (sealing : ProverSealing) : JsValue :=
  object [("target", .str sealing.target), ("nonce", .str sealing.nonce),
    ("attestation", sealing.attestation), ("policy", sealing.policy)]

structure DecryptOperation where
  items : List DecryptItem

structure DeriveOperation where
  items : List DeriveItem

structure TransactionKeysOperation where
  items : List TransactionKeyItem

structure ProveOperation where
  request : List (JsString × JsValue)
  prover : ProverSealing

inductive Operation where
  | bootstrap
  | decrypt (operation : DecryptOperation)
  | derive (operation : DeriveOperation)
  | transactionKeys (operation : TransactionKeysOperation)
  | prove (operation : ProveOperation)

/-- `operation.type` -/
def Operation.type : Operation → String
  | .bootstrap => "Bootstrap"
  | .decrypt _ => "Decrypt"
  | .derive _ => "Derive"
  | .transactionKeys _ => "TransactionKeys"
  | .prove _ => "Prove"

def Operation.fields : Operation → List (String × JsValue)
  | .bootstrap => []
  | .decrypt operation => [("items", .arr (operation.items.map DecryptItem.value))]
  | .derive operation => [("items", .arr (operation.items.map DeriveItem.value))]
  | .transactionKeys operation => [("items", .arr (operation.items.map TransactionKeyItem.value))]
  | .prove operation => [("request", .obj operation.request), ("prover", operation.prover.value)]

def Operation.value (operation : Operation) : JsValue :=
  object (("type", .str (utf16Units operation.type)) :: operation.fields)

end Types

section Checks

def checkBatch {A : Type} (items : List A) : Except Thrown Unit := do
  refuse (items.length = 0) (spr "EmptyBatch")
  refuse (MAX_ITEMS_PER_BATCH < items.length) (spr "BatchTooLarge")

/-- `requireHex` of a field of an operation. -/
def requireHexText (text : JsString) (length : Option ℕ) : Except Thrown Unit := do
  let _ ← requireHex (some (.str text)) length

def checkDecryptItem (item : DecryptItem) : Except Thrown Unit := do
  requireHexText item.ciphertext none
  requireHexText item.viewingPublicKey (some VIEWING_PUBLIC_KEY_BYTES)
  requireHexText item.transactionViewingPublicKey (some VIEWING_PUBLIC_KEY_BYTES)
  requireHexText item.salt (some SALT_BYTES)
  let slot ← decodeDecimalU64 item.slotIndex
  refuse (U32_MAX < slot ∨ item.label = utf16Units "RingDeposit" ∧ slot ≠ 0) (spr "InvalidSlotIndex")
  refuse (item.label ≠ utf16Units "Transfer" ∧ item.label ≠ utf16Units "RingDeposit")
    (spr "InvalidCanonicalJson")

/-- Checks a `Decrypt` request's bounds and encodings before it is signed. -/
def checkDecrypt (operation : DecryptOperation) : Except Thrown DecryptOperation := do
  checkBatch operation.items
  operation.items.forM checkDecryptItem
  return operation

def checkDeriveItem : DeriveItem → Except Thrown Unit
  | .nullifier utxoHash blinding => do
    requireHexText utxoHash (some 32)
    requireHexText blinding (some 32)
  | .mergeDummyNullifier firstNullifier slotIndex => do
    requireHexText firstNullifier (some 32)
    let slot ← decodeDecimalU64 slotIndex
    refuse (U8_MAX < slot) (spr "InvalidSlotIndex")
  | .mergeOutputBlinding firstNullifier => requireHexText firstNullifier (some 32)
  | .mergePrivateTxBlinding firstNullifier => requireHexText firstNullifier (some 32)
  | .mergeOutputKey firstNullifier => requireHexText firstNullifier (some 32)

/-- Checks a `Derive` request's bounds and encodings before it is signed. -/
def checkDerive (operation : DeriveOperation) : Except Thrown DeriveOperation := do
  checkBatch operation.items
  operation.items.forM checkDeriveItem
  return operation

def checkTransactionKeyItem (item : TransactionKeyItem) : Except Thrown Unit := do
  requireHexText item.viewingPublicKey (some VIEWING_PUBLIC_KEY_BYTES)
  requireHexText item.firstNullifier (some 32)

/-- Checks a `TransactionKeys` request's bounds and encodings before it is signed. -/
def checkTransactionKeys (operation : TransactionKeysOperation) :
    Except Thrown TransactionKeysOperation := do
  checkBatch operation.items
  operation.items.forM checkTransactionKeyItem
  return operation

def SEALING_KEYS : List String := ["target", "nonce", "attestation", "policy"]

def SIGNED_POLICY_KEYS : List String := ["release", "freshness"]

def SIGNED_PART_KEYS : List String := ["payload", "signatures"]

def SEALED_KEYS : List String := ["target", "enc", "ciphertext", "response_key"]

def InvalidProverRequest : Thrown := spr "InvalidProverRequest"

def isObject : JsValue → Bool
  | .obj _ => true
  | _ => false

def isArray : Option JsValue → Bool
  | some (.arr _) => true
  | _ => false

def isString : Option JsValue → Bool
  | some (.str _) => true
  | _ => false

def checkSignedPart (part : Option JsValue) : Except Thrown Unit := do
  assertExactObjectKeys part SIGNED_PART_KEYS "InvalidProverRequest"
  refuse (isString (← propertyOf part "payload") = false ∨
    isArray (← propertyOf part "signatures") = false) InvalidProverRequest

/-- The property is `null`; one of `undefined` or of `null` itself is not reached. -/
def isOpen (name : String) : JsValue → Bool
  | .obj members => decide (members.lookup (utf16Units name) = some .null)
  | _ => false

/-- Checks that a `Prove` request names a circuit the enclave completes and leaves at least one slot for
it to fill, and that it seals to its proving key's route; the body's shape is otherwise the prover's. -/
def checkProve (operation : ProveOperation) : Except Thrown ProveOperation := do
  let sealing := operation.prover
  assertExactObjectKeys (some sealing.value) SEALING_KEYS "InvalidProverRequest"
  assertExactObjectKeys (some sealing.policy) SIGNED_POLICY_KEYS "InvalidProverRequest"
  checkSignedPart (← property sealing.policy "release")
  checkSignedPart (← property sealing.policy "freshness")
  requireHexText sealing.nonce (some 32)
  refuse (isObject sealing.attestation = false) InvalidProverRequest
  let body : JsValue := .obj operation.request
  let circuit ← property body "circuitType"
  refuse (Prover.isProveCircuit circuit = false) InvalidProverRequest
  match ← property body "inputs" with
  | some (.arr inputs) =>
    refuse (inputs.length = 0 ∨ Prover.MAX_PROVE_INPUTS < inputs.length) InvalidProverRequest
    let opened := if circuit = some (.str (utf16Units "merge")) ∨
        circuit = some (.str (utf16Units "merge-ring")) then isOpen "userNullifierSecret" body
      else inputs.any (isOpen "nullifierSecret")
    refuse (opened = false) InvalidProverRequest
    let key ← Prover.provingKeyName body
    refuse (sealing.target ≠ Prover.proverTarget key) InvalidProverRequest
    return operation
  | _ => throw InvalidProverRequest

end Checks

section Results

/-- The keys of a result of each type. -/
def RESULT_KEYS : List (String × List String) :=
  [("Bootstrap", ["type", "solana_address", "shielded_owner_hash", "shielded_nullifier_public_key",
      "shielded_viewing_public_key", "sealed_seed", "turnkey_activity_id"]),
    ("Decrypt", ["type", "plaintexts"]),
    ("Derive", ["type", "values"]),
    ("TransactionKeys", ["type", "secrets"]),
    ("Prove", ["type", "sealed"]),
    ("Failure", ["type", "operation", "stage"])]

mutual

/-- The text that a value is converted to, or none where a number is a part of it, whose text is no part of
a name here. An object has the text of `Object.prototype.toString`, unless a member hides it. -/
def toText : JsValue → Except Thrown (Option JsString)
  | .null => return utf16Units "null"
  | .bool b => return utf16Units (if b then "true" else "false")
  | .num _ => return none
  | .str s => return s
  | .arr items => join items
  | .obj members => do
    refuse ((members.lookup (utf16Units "toString")).isSome = true) .platform
    return utf16Units "[object Object]"

/-- `Array.prototype.join` -/
def join : List JsValue → Except Thrown (Option JsString)
  | [] => return some []
  | item :: items => do
    let first ← if item = .null then return some [] else toText item
    let rest ← join items
    return if items.isEmpty then first
      else do return (← first) ++ utf16Units "," ++ (← rest)

end

/-- The text of what may be `undefined`. -/
def toTextOf : Option JsValue → Except Thrown (Option JsString)
  | none => return utf16Units "undefined"
  | some value => toText value

/-- The keys of a result of a type. An array of one name names the same property as the name. -/
def resultKeys (type : Option JsValue) : Except Thrown (List String) := do
  let name ← toTextOf type
  let entry := RESULT_KEYS.find? fun entry => some (utf16Units entry.1) = name
  ofOption (entry.map Prod.snd) (spr "UnsupportedVersion")

def mismatch : Thrown := spr "ReleaseBindingMismatch"

def FAILURE_STAGES : List String := ["Prover", "TurnkeySigning"]

def checkHexList (values : Option JsValue) (count : ℕ) (bytes : Option ℕ) : Except Thrown Unit :=
  match values with
  | some (.arr values) => do
    refuse (values.length ≠ count) mismatch
    values.forM fun value => do
      let _ ← requireHex (some value) bytes
  | _ => throw mismatch

/-- A string that is not empty; what is not a string counts by its truth. -/
def isTruthy : Option JsValue → Bool
  | some (.str s) => decide (s ≠ [])
  | some (.bool b) => b
  | some (.num (.finite x)) => decide (x.value ≠ 0)
  | some .null | none => false
  | _ => true

/-- A failure is of the operation that was asked for. -/
def checkFailed (operation : Operation) (named : Option JsValue) : Except Thrown Unit :=
  if named = some (.str (utf16Units operation.type)) then return
  else do
    -- The message holds the text of what is named.
    let _ ← toTextOf named
    throw mismatch

/-- The result is one of the operation's type, of its shape and for its items. `proofSeedDigest` is the
sealed seed's digest in the App Proof. -/
def checkResult (sha256 : Bytes → ByteArrayOf 32) (result : JsValue) (operation : Operation)
    (proofSeedDigest : Option JsValue) : Except Thrown Unit := do
  let type ← property result "type"
  let keys ← resultKeys type
  assertExactObjectKeys (some result) keys "InvalidCanonicalJson"
  if type = some (.str (utf16Units "Failure")) then do
    checkFailed operation (← property result "operation")
    let stage ← property result "stage"
    refuse ((FAILURE_STAGES.any fun name => stage = some (.str (utf16Units name))) = false)
      (spr "UnsupportedVersion")
    throw (spr "OperationFailed")
  else do
    refuse (type ≠ some (.str (utf16Units operation.type))) mismatch
    match operation with
    | .bootstrap =>
      let _ ← requireHex (← property result "shielded_owner_hash") (some 32)
      let _ ← requireHex (← property result "shielded_nullifier_public_key") (some 32)
      let _ ← requireHex (← property result "shielded_viewing_public_key")
        (some VIEWING_PUBLIC_KEY_BYTES)
      refuse (isTruthy (← property result "solana_address") = false) mismatch
      let sealedSeed ← requireHex (← property result "sealed_seed") none
      refuse (some (.str (bytesToHex (sealedSeedDigest sha256 sealedSeed).val)) ≠ proofSeedDigest)
        mismatch
    | .decrypt operation =>
      checkHexList (← property result "plaintexts") operation.items.length none
    | .derive operation =>
      checkHexList (← property result "values") operation.items.length (some 32)
    | .transactionKeys operation =>
      checkHexList (← property result "secrets") operation.items.length (some 32)
    | .prove operation =>
      let sealed ← property result "sealed"
      assertExactObjectKeys sealed SEALED_KEYS "InvalidCanonicalJson"
      refuse ((← propertyOf sealed "target") ≠ some (.str operation.prover.target)) mismatch
      let _ ← requireHex (← propertyOf sealed "enc") (some 32)
      let _ ← requireHex (← propertyOf sealed "response_key") (some 32)
      let ciphertext ← requireHex (← propertyOf sealed "ciphertext") none
      refuse (ciphertext.length = 0) mismatch

end Results

section Hex

/-- An object passes with the expected keys, in whatever order. -/
theorem assertExactObjectKeys_of_perm {ns : List (JsString × JsValue)} {expected : List String}
    {code : String} (h : (ns.map Prod.fst).Perm (expected.map utf16Units)) :
    assertExactObjectKeys (some (.obj ns)) expected code = .ok () := by
  simp only [assertExactObjectKeys, bind_eq_ok, refuse_eq_ok, exists_const, Bool.not_eq_true, not_not,
    List.any_eq_false, Bool.not_eq_false']
  refine ⟨fun m hm => ?_, ?_⟩
  · have hmem := h.subset (List.mem_map_of_mem (f := Prod.fst) hm)
    simpa using hmem
  · simpa using h.length_eq

theorem assertExactObjectKeys_object {members : List (String × JsValue)} {code : String} :
    assertExactObjectKeys (some (object members)) (members.map Prod.fst) code = .ok () := by
  apply assertExactObjectKeys_of_perm
  rw [List.map_map, List.map_map]
  exact .refl _

variable {n : ℕ}

theorem requireHex_bytesToHex {bytes : Bytes} {length : Option ℕ} (h : ∀ n ∈ length, bytes.length = n) :
    requireHex (some (.str (bytesToHex bytes))) length = .ok bytes :=
  requireHex_eq_ok.2 ⟨_, rfl, decodeLowerHex_eq_ok.2 rfl, h⟩

theorem requireHexText_bytesToHex {bytes : Bytes} {length : Option ℕ}
    (h : ∀ n ∈ length, bytes.length = n) : requireHexText (bytesToHex bytes) length = .ok () := by
  rw [requireHexText, requireHex_bytesToHex h]
  rfl

theorem requireHexText_array (b : ByteArrayOf n) : requireHexText (bytesToHex b.val) (some n) = .ok () := by
  apply requireHexText_bytesToHex
  rintro m hm
  obtain rfl := Option.some.inj hm
  exact b.property

theorem checkHexList_of_forall {values : List Bytes} {count : ℕ} {bytes : Option ℕ}
    (hcount : values.length = count) (h : ∀ b ∈ values, ∀ n ∈ bytes, b.length = n) :
    checkHexList (some (.arr (values.map fun b => .str (bytesToHex b)))) count bytes = .ok () := by
  simp only [checkHexList, bind_eq_ok, refuse_eq_ok, exists_const, forM_eq_ok, List.forall_mem_map,
    List.length_map, not_not]
  refine ⟨hcount, fun b hb => ?_⟩
  rw [requireHex_bytesToHex (h b hb)]
  exact ⟨b, rfl, rfl⟩

end Hex

end ZolanaTvc.Wallet
