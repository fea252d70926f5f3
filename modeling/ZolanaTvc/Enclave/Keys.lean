import ZolanaTvc.Enclave.Sealed

/-!
# The wallet's privacy roles as batched functions
-/

namespace ZolanaTvc.Enclave

open Protocol Except

variable {N V A B : Type}

def checkBatch (items : List A) : Except Failure Unit :=
  refuse (items = [] ∨ MAX_ITEMS_PER_BATCH < items.length) .invalid

/-- The answers to the items of a batch, all or none. -/
def batch (f : A → Except Failure B) (items : List A) : Except Failure (List B) := do
  checkBatch items
  items.mapM f

/-- A byte string of a given length. -/
def toArray (n : ℕ) (b : Bytes) : Option (ByteArrayOf n) :=
  if h : b.length = n then some ⟨b, h⟩ else none

variable (k : Keypair N V) (roles : Roles N V)

/-- The viewing key `publicKey` names. -/
def viewingKey (publicKey : Bytes) : Except Failure V := do
  refuse (k.viewingPubkey roles.viewingKey ≠ publicKey) .invalid
  return roles.viewingKey

/-- A tagged X25519 public key. -/
def x25519 (bytes : Bytes) : Except Failure (ByteArrayOf 33) := do
  let key ← ofOption (toArray 33 bytes) .invalid
  refuse (k.isX25519 key = false) .invalid
  return key

def decryptOne (item : DecryptItem) : Except Failure Bytes := do
  let viewing ← viewingKey k roles item.viewingPublicKey
  let transactionKey ← x25519 k item.transactionViewingPublicKey
  let salt ← ofOption (toArray 16 item.salt) .invalid
  match item.label with
  | .transfer =>
    refuse (2 ^ 32 ≤ item.slotIndex.toNat) .invalid
    ofOption (k.decryptUtxo viewing item.ciphertext transactionKey salt item.slotIndex.toUInt32)
      .invalid
  | .ringDeposit =>
    refuse (item.slotIndex ≠ 0) .invalid
    ofOption (k.decryptRingDeposit viewing item.ciphertext transactionKey salt) .invalid

def deriveOne : DeriveItem → Except Failure (ByteArrayOf 32)
  | .nullifier utxoHash blinding =>
    ofOption (k.nullifier roles.nullifierKey utxoHash blinding) .invalid
  | .mergeDummyNullifier firstNullifier slotIndex => do
    refuse (2 ^ 8 ≤ slotIndex.toNat) .invalid
    ofOption (k.mergeDummyNullifier roles.nullifierKey firstNullifier slotIndex.toUInt8) .invalid
  | .mergeOutputBlinding firstNullifier =>
    ofOption (k.mergeOutputBlinding roles.nullifierKey firstNullifier) .invalid
  | .mergePrivateTxBlinding firstNullifier =>
    ofOption (k.mergePrivateTxBlinding roles.nullifierKey firstNullifier) .invalid
  | .mergeOutputKey firstNullifier =>
    ofOption (k.mergeOutputKey roles.nullifierKey firstNullifier) .invalid

def transactionKeyOne (item : TransactionKeyItem) : Except Failure (ByteArrayOf 32) := do
  let viewing ← viewingKey k roles item.viewingPublicKey
  ofOption (k.transactionViewingKey viewing item.firstNullifier) .invalid

def Keys.decrypt (items : List DecryptItem) : Except Failure OperationResult := do
  return .decrypt (← batch (decryptOne k roles) items)

def Keys.derive (items : List DeriveItem) : Except Failure OperationResult := do
  return .derive (← batch (deriveOne k roles) items)

def Keys.transactionKeys (items : List TransactionKeyItem) : Except Failure OperationResult := do
  return .transactionKeys (← batch (transactionKeyOne k roles) items)

section Batches

variable {k : Keypair N V} {roles : Roles N V} {f : A → Except Failure B} {items : List A}
  {answers : List B}

/-- A batch has one answer for each of its items, in their order. -/
theorem batch_eq_ok : batch f items = .ok answers ↔ items ≠ [] ∧
    items.length ≤ MAX_ITEMS_PER_BATCH ∧
      List.Forall₂ (fun item answer => f item = .ok answer) items answers := by
  simp only [batch, checkBatch, bind_eq_ok, refuse_eq_ok, exists_const, mapM_eq_ok, not_or, not_lt,
    and_assoc, ne_eq]

/-- The items of a batch that is answered are answered. -/
theorem ok_of_batch (h : batch f items = .ok answers) : ∀ item ∈ items, ∃ answer, f item = .ok answer := by
  obtain ⟨-, -, hanswers⟩ := batch_eq_ok.1 h
  intro item hmem
  clear h
  induction hanswers with
  | nil => cases hmem
  | cons hanswer _ ih =>
    obtain rfl | hmem := List.mem_cons.1 hmem
    · exact ⟨_, hanswer⟩
    · exact ih hmem

theorem failsWith_batch (hf : ∀ item, FailsWith .invalid (f item)) (items : List A) :
    FailsWith .invalid (batch f items) :=
  failsWith_refuse.bind fun _ => .mapM hf items

/-- One item without an answer, or a wrong count, fails the batch. -/
theorem batch_invalid (hf : ∀ item, FailsWith .invalid (f item))
    (h : items = [] ∨ MAX_ITEMS_PER_BATCH < items.length ∨ ∃ item ∈ items, ∀ answer, f item ≠ .ok answer) :
    batch f items = .error .invalid := by
  cases hbatch : batch f items with
  | ok answers =>
    obtain ⟨hne, hlength, -⟩ := batch_eq_ok.1 hbatch
    obtain rfl | hcount | ⟨item, hmem, hanswer⟩ := h
    · exact absurd rfl hne
    · omega
    · obtain ⟨answer, hok⟩ := ok_of_batch hbatch item hmem
      exact absurd hok (hanswer answer)
  | error e => rw [failsWith_batch hf items e hbatch]

/-- What the enclave requires of an item to decrypt. -/
structure Decryptable (k : Keypair N V) (roles : Roles N V) (item : DecryptItem) : Prop where
  viewing : item.viewingPublicKey = k.viewingPubkey roles.viewingKey
  transaction : ∃ key : ByteArrayOf 33, item.transactionViewingPublicKey = key.val ∧ k.isX25519 key = true
  salt : item.salt.length = 16
  transferSlot : item.label = .transfer → item.slotIndex.toNat < 2 ^ 32
  ringDepositSlot : item.label = .ringDeposit → item.slotIndex = 0

theorem toArray_eq_some {n : ℕ} {b : Bytes} {x : ByteArrayOf n} : toArray n b = some x ↔ b = x.val := by
  unfold toArray
  split_ifs with h
  · rw [Option.some.injEq]
    exact ⟨fun hx => by rw [← hx], fun hx => Subtype.ext hx⟩
  · simp only [false_iff]
    rintro rfl
    exact h x.property

theorem decryptable_of_ok {item : DecryptItem} {plaintext : Bytes}
    (h : decryptOne k roles item = .ok plaintext) : Decryptable k roles item := by
  simp only [decryptOne, viewingKey, x25519, bind_eq_ok, refuse_eq_ok, ofOption_eq_ok, pure_eq_ok,
    exists_const, not_not, toArray_eq_some] at h
  obtain ⟨viewing, ⟨hviewing, -⟩, _, ⟨key, htransaction, hkey, rfl⟩, salt, hsalt, h⟩ := h
  have hlength : item.salt.length = 16 := by rw [hsalt]; exact salt.property
  have hx25519 : k.isX25519 key = true := by simpa using hkey
  cases hlabel : item.label with
  | transfer =>
    simp only [hlabel, bind_eq_ok, refuse_eq_ok, exists_const, not_le] at h
    refine ⟨hviewing.symm, ⟨key, htransaction, hx25519⟩, hlength, fun _ => h.1, fun hring => ?_⟩
    rw [hlabel] at hring
    cases hring
  | ringDeposit =>
    simp only [hlabel, bind_eq_ok, refuse_eq_ok, exists_const, not_not] at h
    refine ⟨hviewing.symm, ⟨key, htransaction, hx25519⟩, hlength, fun htransfer => ?_, fun _ => h.1⟩
    rw [hlabel] at htransfer
    cases htransfer

theorem failsWith_viewingKey {publicKey : Bytes} : FailsWith .invalid (viewingKey k roles publicKey) :=
  failsWith_refuse.bind fun _ => failsWith_pure

theorem failsWith_decryptOne (item : DecryptItem) : FailsWith .invalid (decryptOne k roles item) := by
  refine failsWith_viewingKey.bind fun viewing => .bind ?_ fun key => failsWith_ofOption.bind fun salt => ?_
  · exact failsWith_ofOption.bind fun key => failsWith_refuse.bind fun _ => failsWith_pure
  · cases item.label with
    | transfer => exact failsWith_refuse.bind fun _ => failsWith_ofOption
    | ringDeposit => exact failsWith_refuse.bind fun _ => failsWith_ofOption

theorem failsWith_deriveOne (item : DeriveItem) : FailsWith .invalid (deriveOne k roles item) := by
  cases item with
  | mergeDummyNullifier => exact failsWith_refuse.bind fun _ => failsWith_ofOption
  | _ => exact failsWith_ofOption

theorem failsWith_transactionKeyOne (item : TransactionKeyItem) :
    FailsWith .invalid (transactionKeyOne k roles item) :=
  failsWith_viewingKey.bind fun _ => failsWith_ofOption

theorem slot_of_deriveOne {firstNullifier value : ByteArrayOf 32} {slotIndex : UInt64}
    (h : deriveOne k roles (.mergeDummyNullifier firstNullifier slotIndex) = .ok value) :
    slotIndex.toNat < 2 ^ 8 := by
  simp only [deriveOne, bind_eq_ok, refuse_eq_ok, exists_const, not_le] at h
  exact h.1

theorem viewing_of_transactionKeyOne {item : TransactionKeyItem} {secret : ByteArrayOf 32}
    (h : transactionKeyOne k roles item = .ok secret) :
    item.viewingPublicKey = k.viewingPubkey roles.viewingKey := by
  simp only [transactionKeyOne, viewingKey, bind_eq_ok, refuse_eq_ok, exists_const, not_not] at h
  obtain ⟨viewing, ⟨hviewing, -⟩, -⟩ := h
  exact hviewing.symm

end Batches

end ZolanaTvc.Enclave
