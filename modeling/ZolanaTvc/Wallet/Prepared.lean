import ZolanaTvc.Wallet.Execution
import ZolanaTvc.Wallet.Legible
import ZolanaTvc.Wallet.OperationChecks

/-!
# What the enclave's types are to the client

A value of the client is one of a wire type when its image is the encoding of a value of the type. The
client checks the parts of an operation before it signs, but takes the descriptor and the release as the
backend gave them.

## Main results

* `exists_encode_operation`: an operation that passes the client's check is one of the enclave's type.
* `exists_encode_request`, `readable_of_decode`: when a prepared request is.
-/

namespace ZolanaTvc.Wallet.OperationExecutor

open Except Effectful Json Protocol Serde

section Contexts

/-- The entry of a client, as the enclave's type reads it. -/
structure ClientGrant.Readable (g : ClientGrant) : Prop where
  clientPublicKey : ∃ key, g.clientPublicKey = bytesToHex key
  allowedOperations : ∀ name ∈ g.allowedOperations, ∃ k : OperationKind, name = utf16Units k.asStr

/-- The encodings that the enclave's type of a descriptor reads. -/
structure WalletDescriptor.Readable (d : WalletDescriptor) : Prop where
  securityDomainId : ∃ b : ByteArrayOf 32, d.securityDomainId = bytesToHex b.val
  network : ∃ n : Network, d.network = utf16Units n.asStr
  allowedClients : ∀ g ∈ d.allowedClients, g.Readable
  expiresAtMs : ∃ n, d.expiresAtMs = utf16Units (Protocol.encodeDecimalU64 n)
  provisioningSignature : ∃ bytes, d.provisioningSignature = bytesToHex bytes

/-- The encodings that the enclave's types of a descriptor and of a release read. -/
structure OperationExecutionContext.Readable (context : OperationExecutionContext) : Prop where
  descriptor : context.descriptor.Readable
  manifestDigest : ∃ b : ByteArrayOf 32, context.info.manifestDigest = bytesToHex b.val
  executableDigest : ∃ b : ByteArrayOf 32, context.info.executableDigest = bytesToHex b.val
  quorumKeyEpoch : ∃ n, context.info.quorumKeyEpoch = utf16Units (Protocol.encodeDecimalU64 n)

theorem numeral_one : (ofNumeral (.ofInt 1)).numeral = some (.ofInt 1) := by decide +kernel

theorem legible_apiVersion : Legible apiVersion := .num ⟨1, numeral_one, by decide⟩

theorem encode_version : u8.encode API_VERSION = image apiVersion := by
  obtain ⟨k, hk, htoNumber, hnumeral⟩ := (all_num.1 legible_apiVersion).toNumber
  obtain rfl := Numeral.ofInt_injective (Option.some.inj (hnumeral.symm.trans numeral_one))
  exact congrArg Json.num htoNumber.symm

theorem image_hex (bytes : Bytes) : image (.str (bytesToHex bytes)) = Protocol.hex.encode bytes :=
  congrArg Json.str (lossy_units _)

theorem encode_hexArray {n : ℕ} (b : ByteArrayOf n) :
    (hexArray n).encode b = Protocol.hex.encode b.val := rfl

theorem image_units (t : String) : image (.str (utf16Units t)) = .str t := congrArg Json.str (lossy_units t)

theorem encode_decimal (n : UInt64) : decimalU64.encode n = .str (Protocol.encodeDecimalU64 n) := rfl

theorem string_lossy (s : JsString) : Codec.string.encode (lossy s) = image (.str s) := rfl

theorem exists_encode_client {g : ClientGrant} (h : g.Readable) :
    ∃ x, ClientGrant.codec.encode x = image g.value := by
  obtain ⟨key, hkey⟩ := h.clientPublicKey
  obtain ⟨kinds, hkinds⟩ : ∃ kinds, OperationKind.codec.list.encode kinds =
      image (.arr (g.allowedOperations.map .str)) := by
    apply exists_encode_list
    intro name hname
    obtain ⟨k, rfl⟩ := h.allowedOperations name hname
    exact ⟨k, (image_units _).symm⟩
  refine ⟨⟨key, kinds⟩, ?_⟩
  have hobject : ClientGrant.codec.encode ⟨key, kinds⟩ = .obj
      [("client_public_key", Protocol.hex.encode key),
        ("allowed_operations", OperationKind.codec.list.encode kinds)] := rfl
  rw [hobject, hkinds, ClientGrant.value, image_object, hkey]
  simp only [List.map_cons, List.map_nil, Prod.map, id, image_hex]

theorem readable_client {g : ClientGrant} {source : Source} {x : Protocol.ClientGrant}
    (h : ClientGrant.codec.decode source ((image g.value).sortBy String.toList) = some x) :
    g.Readable := by
  have hnamed := decodeNamed_of_image rfl h
  simp only [Fields.decodeNamed_field] at hnamed
  obtain ⟨⟨v, hv, hkey⟩, ⟨w, hw, hkinds⟩, -⟩ := hnamed
  obtain rfl := Option.some.inj hv
  obtain rfl := Option.some.inj hw
  constructor
  · exact ⟨_, decode_hex.1 hkey⟩
  · intro name hname
    obtain ⟨k, hk⟩ := forall_of_decode_list hkinds (.str name) (List.mem_map_of_mem hname)
    exact ⟨k, decode_operationKind.1 hk⟩

theorem exists_encode_descriptor {d : WalletDescriptor} (h : d.Readable) :
    ∃ x, WalletDescriptor.codec.encode x = image d.value := by
  obtain ⟨domain, hdomain⟩ := h.securityDomainId
  obtain ⟨network, hnetwork⟩ := h.network
  obtain ⟨expires, hexpires⟩ := h.expiresAtMs
  obtain ⟨signature, hsignature⟩ := h.provisioningSignature
  obtain ⟨clients, hclients⟩ := exists_encode_list (f := ClientGrant.value) fun g hg =>
    exists_encode_client (h.allowedClients g hg)
  refine ⟨⟨API_VERSION, domain, network, lossy d.turnkeyOrganizationId, lossy d.turnkeyWalletId,
    lossy d.address, clients, expires, signature⟩, ?_⟩
  have hobject : ∀ x : Protocol.WalletDescriptor, WalletDescriptor.codec.encode x = .obj
      [("version", u8.encode x.version), ("security_domain_id", (hexArray 32).encode x.securityDomainId),
        ("network", .str x.network.asStr),
        ("turnkey_organization_id", Codec.string.encode x.turnkeyOrganizationId),
        ("turnkey_wallet_id", Codec.string.encode x.turnkeyWalletId),
        ("address", Codec.string.encode x.address),
        ("allowed_clients", ClientGrant.codec.list.encode x.allowedClients),
        ("expires_at_ms", decimalU64.encode x.expiresAtMs),
        ("provisioning_signature", Protocol.hex.encode x.provisioningSignature)] := fun _ => rfl
  rw [hobject, WalletDescriptor.value, image_object, hdomain, hnetwork, hexpires, hsignature,
    encode_hexArray, encode_decimal, string_lossy, string_lossy, string_lossy]
  simp only [List.map_cons, List.map_nil, Prod.map, id, hclients, encode_version, image_hex, image_units]

theorem readable_descriptor {d : WalletDescriptor} {source : Source} {x : Protocol.WalletDescriptor}
    (h : WalletDescriptor.codec.decode source ((image d.value).sortBy String.toList) = some x) :
    d.Readable := by
  have hnamed := decodeNamed_of_image rfl h
  simp only [Fields.decodeNamed_field] at hnamed
  obtain ⟨-, ⟨v, hv, hdomain⟩, ⟨w, hw, hnetwork⟩, -, -, -, ⟨u, hu, hclients⟩, ⟨e, he, hexpires⟩,
    ⟨p, hp, hsignature⟩, -⟩ := hnamed
  obtain rfl := Option.some.inj hv
  obtain rfl := Option.some.inj hw
  obtain rfl := Option.some.inj hu
  obtain rfl := Option.some.inj he
  obtain rfl := Option.some.inj hp
  constructor
  · exact ⟨_, decode_hexArray.1 hdomain⟩
  · exact ⟨_, decode_network.1 hnetwork⟩
  · intro g hg
    obtain ⟨y, hy⟩ := forall_of_decode_list hclients g.value (List.mem_map_of_mem hg)
    exact readable_client hy
  · exact ⟨_, decode_decimalU64.1 hexpires⟩
  · exact ⟨_, decode_hex.1 hsignature⟩

end Contexts

section Operations

open OperationChecks

/-- The client's own check of an operation passes. -/
def PassesCheck : Operation → Prop
  | .bootstrap => True
  | .decrypt operation => checkDecrypt operation = .ok operation
  | .derive operation => checkDerive operation = .ok operation
  | .transactionKeys operation => checkTransactionKeys operation = .ok operation
  | .prove operation => checkProve operation = .ok operation

theorem exists_bytes {text : JsString} {length : Option ℕ} (h : requireHexText text length = .ok ()) :
    ∃ bytes, text = bytesToHex bytes ∧ ∀ n ∈ length, bytes.length = n := by
  obtain ⟨bytes, hbytes, -⟩ := bind_eq_ok.1 h
  obtain ⟨s, heq, hs, hlength⟩ := requireHex_eq_ok.1 hbytes
  obtain rfl := Json.str.inj (Option.some.inj heq)
  exact ⟨bytes, decodeLowerHex_eq_ok.1 hs, hlength⟩

theorem exists_array {text : JsString} {n : ℕ} (h : requireHexText text (some n) = .ok ()) :
    ∃ b : ByteArrayOf n, text = bytesToHex b.val := by
  obtain ⟨bytes, hbytes, hlength⟩ := exists_bytes h
  exact ⟨⟨bytes, hlength n rfl⟩, hbytes⟩

theorem exists_decimal {text : JsString} {value : ℤ} (h : decodeDecimalU64 text = .ok value) :
    ∃ n : UInt64, text = utf16Units (Protocol.encodeDecimalU64 n) := by
  obtain ⟨k, -, h⟩ := bind_eq_ok.1 h
  obtain ⟨_, hrange, -⟩ := bind_eq_ok.1 h
  simp only [refuse_eq_ok, not_or, not_not, not_lt] at hrange
  obtain ⟨hnonneg, hle, hdigits⟩ := hrange
  refine ⟨UInt64.ofNat k.toNat, ?_⟩
  have hvalue : (UInt64.ofNat k.toNat).toNat = k.toNat := by
    rw [UInt64.toNat_ofNat', Nat.mod_eq_of_lt]
    omega
  rw [utf16Units_encodeDecimalU64, hvalue]
  exact hdigits.symm

theorem exists_decryptItem {item : DecryptItem} (h : checkDecryptItem item = .ok ()) :
    ∃ x, item = decryptItem x := by
  simp only [checkDecryptItem, bind_eq_ok, refuse_eq_ok, exists_const] at h
  obtain ⟨_, hciphertext, _, hviewing, _, htransaction, _, hsalt, slot, hslot, -, hlabel⟩ := h
  obtain ⟨ciphertext, hciphertext, -⟩ := exists_bytes hciphertext
  obtain ⟨viewing, hviewing, -⟩ := exists_bytes hviewing
  obtain ⟨transaction, htransaction, -⟩ := exists_bytes htransaction
  obtain ⟨salt, hsalt, -⟩ := exists_bytes hsalt
  obtain ⟨index, hindex⟩ := exists_decimal hslot
  obtain ⟨label, hlabel⟩ : ∃ label : DecryptLabel, item.label = utf16Units label.asStr := by
    rw [not_and_or, not_not, not_not] at hlabel
    obtain hlabel | hlabel := hlabel
    · exact ⟨.transfer, hlabel⟩
    · exact ⟨.ringDeposit, hlabel⟩
  refine ⟨⟨ciphertext, viewing, transaction, salt, index, label⟩, ?_⟩
  apply DecryptItem.ext
  all_goals assumption

theorem image_decryptItem (x : Protocol.DecryptItem) :
    DecryptItem.codec.encode x = image (decryptItem x).value := by
  have hobject : DecryptItem.codec.encode x = .obj
      [("ciphertext", Protocol.hex.encode x.ciphertext),
        ("viewing_public_key", Protocol.hex.encode x.viewingPublicKey),
        ("transaction_viewing_public_key", Protocol.hex.encode x.transactionViewingPublicKey),
        ("salt", Protocol.hex.encode x.salt), ("slot_index", decimalU64.encode x.slotIndex),
        ("label", .str x.label.asStr)] := rfl
  rw [hobject, DecryptItem.value, image_object]
  simp only [decryptItem, List.map_cons, List.map_nil, Prod.map, id, image_hex, image_units, encode_decimal]

theorem exists_deriveItem {item : DeriveItem} (h : checkDeriveItem item = .ok ()) :
    ∃ x, item = deriveItem x := by
  cases item with
  | nullifier utxoHash blinding =>
    obtain ⟨_, hutxo, hblinding⟩ := bind_eq_ok.1 h
    obtain ⟨utxo, rfl⟩ := exists_array hutxo
    obtain ⟨blind, rfl⟩ := exists_array hblinding
    exact ⟨.nullifier utxo blind, rfl⟩
  | mergeDummyNullifier firstNullifier slotIndex =>
    simp only [checkDeriveItem, bind_eq_ok] at h
    obtain ⟨_, hfirst, slot, hslot, -⟩ := h
    obtain ⟨first, rfl⟩ := exists_array hfirst
    obtain ⟨index, rfl⟩ := exists_decimal hslot
    exact ⟨.mergeDummyNullifier first index, rfl⟩
  | mergeOutputBlinding firstNullifier =>
    obtain ⟨first, rfl⟩ := exists_array h
    exact ⟨.mergeOutputBlinding first, rfl⟩
  | mergePrivateTxBlinding firstNullifier =>
    obtain ⟨first, rfl⟩ := exists_array h
    exact ⟨.mergePrivateTxBlinding first, rfl⟩
  | mergeOutputKey firstNullifier =>
    obtain ⟨first, rfl⟩ := exists_array h
    exact ⟨.mergeOutputKey first, rfl⟩

theorem image_deriveItem (x : Protocol.DeriveItem) :
    DeriveItem.codec.encode x = image (deriveItem x).value := by
  cases x with
  | nullifier utxoHash blinding =>
    have hobject : DeriveItem.codec.encode (.nullifier utxoHash blinding) = .obj
        [("kind", .str "Nullifier"), ("utxo_hash", Protocol.hex.encode utxoHash.val),
          ("blinding", Protocol.hex.encode blinding.val)] := rfl
    rw [hobject, deriveItem, DeriveItem.value, image_object]
    simp only [List.map_cons, List.map_nil, Prod.map, id, image_hex, image_units]
  | mergeDummyNullifier firstNullifier slotIndex =>
    have hobject : DeriveItem.codec.encode (.mergeDummyNullifier firstNullifier slotIndex) = .obj
        [("kind", .str "MergeDummyNullifier"), ("first_nullifier", Protocol.hex.encode firstNullifier.val),
          ("slot_index", decimalU64.encode slotIndex)] := rfl
    rw [hobject, deriveItem, DeriveItem.value, image_object]
    simp only [List.map_cons, List.map_nil, Prod.map, id, image_hex, image_units,
      encode_decimal]
  | mergeOutputBlinding firstNullifier =>
    have hobject : DeriveItem.codec.encode (.mergeOutputBlinding firstNullifier) = .obj
        [("kind", .str "MergeOutputBlinding"), ("first_nullifier", Protocol.hex.encode firstNullifier.val)] :=
      rfl
    rw [hobject, deriveItem, DeriveItem.value, image_object]
    simp only [List.map_cons, List.map_nil, Prod.map, id, image_hex, image_units]
  | mergePrivateTxBlinding firstNullifier =>
    have hobject : DeriveItem.codec.encode (.mergePrivateTxBlinding firstNullifier) = .obj
        [("kind", .str "MergePrivateTxBlinding"),
          ("first_nullifier", Protocol.hex.encode firstNullifier.val)] := rfl
    rw [hobject, deriveItem, DeriveItem.value, image_object]
    simp only [List.map_cons, List.map_nil, Prod.map, id, image_hex, image_units]
  | mergeOutputKey firstNullifier =>
    have hobject : DeriveItem.codec.encode (.mergeOutputKey firstNullifier) = .obj
        [("kind", .str "MergeOutputKey"), ("first_nullifier", Protocol.hex.encode firstNullifier.val)] := rfl
    rw [hobject, deriveItem, DeriveItem.value, image_object]
    simp only [List.map_cons, List.map_nil, Prod.map, id, image_hex, image_units]

theorem exists_transactionKeyItem {item : TransactionKeyItem} (h : checkTransactionKeyItem item = .ok ()) :
    ∃ x, item = transactionKeyItem x := by
  obtain ⟨_, hviewing, hnullifier⟩ := bind_eq_ok.1 h
  obtain ⟨viewing, hviewing, -⟩ := exists_bytes hviewing
  obtain ⟨first, hfirst⟩ := exists_array hnullifier
  exact ⟨⟨viewing, first⟩, TransactionKeyItem.ext hviewing hfirst⟩

theorem image_transactionKeyItem (x : Protocol.TransactionKeyItem) :
    TransactionKeyItem.codec.encode x = image (transactionKeyItem x).value := by
  have hobject : TransactionKeyItem.codec.encode x = .obj
      [("viewing_public_key", Protocol.hex.encode x.viewingPublicKey),
        ("first_nullifier", Protocol.hex.encode x.firstNullifier.val)] := rfl
  rw [hobject, TransactionKeyItem.value, image_object]
  simp only [transactionKeyItem, List.map_cons, List.map_nil, Prod.map, id, image_hex]

theorem exists_encode_items {A T : Type} {c : Codec T} {value : A → JsValue}
    {check : A → Except Thrown Unit} {form : T → A} {items : List A}
    (hform : ∀ a, check a = .ok () → ∃ x, a = form x) (himage : ∀ x, c.encode x = image (value (form x)))
    (h : ∀ a ∈ items, check a = .ok ()) : ∃ xs, c.list.encode xs = image (.arr (items.map value)) := by
  apply exists_encode_list
  intro a ha
  obtain ⟨x, rfl⟩ := hform a (h a ha)
  exact ⟨x, himage x⟩

/-- The free-form parts of a request to the prover are documents of the enclave. -/
theorem exists_encode_prove {operation : ProveOperation} (h : checkProve operation = .ok operation)
    (hdistinct : (Operation.prove operation).value.Distinct)
    (hlegible : Legible (Operation.prove operation).value) :
    ∃ x, Operation.codec.encode x = image (Operation.prove operation).value := by
  obtain ⟨nonce, hnonce⟩ : ∃ b : ByteArrayOf 32, operation.prover.nonce = bytesToHex b.val := by
    simp only [checkProve, bind_eq_ok] at h
    obtain ⟨_, -, _, -, _, -, _, -, _, -, _, -, _, hnonce, -⟩ := h
    exact exists_array hnonce
  have hparts := distinct_of_object hdistinct
  have hlegibles := legible_object.1 hlegible
  simp only [Operation.fields, List.forall_mem_cons] at hparts hlegibles
  have hprover := distinct_of_object hparts.2.2.1
  have hprover' := legible_object.1 hlegibles.2.2.1
  simp only [List.forall_mem_cons] at hprover hprover'
  -- Three parts are free JSON: distinct and legible values are documents of the enclave.
  let request : Document := ⟨image (.obj operation.request), distinct_image hparts.2.1 hlegibles.2.1⟩
  let attestation : Document :=
    ⟨image operation.prover.attestation, distinct_image hprover.2.2.1 hprover'.2.2.1⟩
  let policy : Document :=
    ⟨image operation.prover.policy, distinct_image hprover.2.2.2.1 hprover'.2.2.2.1⟩
  refine ⟨.prove request ⟨lossy operation.prover.target, nonce, attestation, policy⟩, ?_⟩
  have hsealing : ProverSealing.codec.encode ⟨lossy operation.prover.target, nonce, attestation, policy⟩ =
      image operation.prover.value := by
    rw [ProverSealing.value, image_object, hnonce]
    simp only [List.map_cons, List.map_nil, Prod.map, id, image_hex]
    rfl
  have hobject : Operation.codec.encode
      (.prove request ⟨lossy operation.prover.target, nonce, attestation, policy⟩) = .obj
        [("type", .str "Prove"), ("request", request.val),
          ("prover", ProverSealing.codec.encode ⟨lossy operation.prover.target, nonce, attestation, policy⟩)] :=
    rfl
  rw [hobject, hsealing, Operation.value, image_object]
  simp only [Operation.type, Operation.fields, List.map_cons, List.map_nil, Prod.map, id, image_units]
  rfl

/-- An operation that passes the client's check is one of the enclave. -/
theorem exists_encode_operation {operation : Operation} (hcheck : PassesCheck operation)
    (hdistinct : operation.value.Distinct) (hlegible : Legible operation.value) :
    ∃ x, Operation.codec.encode x = image operation.value := by
  -- Per kind: the items that passed the check are items of the enclave, written alike.
  cases operation with
  | bootstrap =>
    refine ⟨.bootstrap, ?_⟩
    have hobject : Operation.codec.encode .bootstrap = .obj [("type", .str "Bootstrap")] := rfl
    rw [hobject, Operation.value, image_object]
    simp only [Operation.type, Operation.fields, List.map_cons, List.map_nil, Prod.map, id, image_units]
  | decrypt operation =>
    simp only [PassesCheck, checkDecrypt, bind_eq_ok, forM_eq_ok] at hcheck
    obtain ⟨_, -, _, hforM, -⟩ := hcheck
    obtain ⟨items, hitems⟩ :=
      exists_encode_items (fun _ => exists_decryptItem) image_decryptItem hforM
    refine ⟨.decrypt items, ?_⟩
    have hobject : Operation.codec.encode (.decrypt items) = .obj
        [("type", .str "Decrypt"), ("items", DecryptItem.codec.list.encode items)] := rfl
    rw [hobject, hitems, Operation.value, image_object]
    simp only [Operation.type, Operation.fields, List.map_cons, List.map_nil, Prod.map, id, image_units]
  | derive operation =>
    simp only [PassesCheck, checkDerive, bind_eq_ok, forM_eq_ok] at hcheck
    obtain ⟨_, -, _, hforM, -⟩ := hcheck
    obtain ⟨items, hitems⟩ := exists_encode_items (fun _ => exists_deriveItem) image_deriveItem hforM
    refine ⟨.derive items, ?_⟩
    have hobject : Operation.codec.encode (.derive items) = .obj
        [("type", .str "Derive"), ("items", DeriveItem.codec.list.encode items)] := rfl
    rw [hobject, hitems, Operation.value, image_object]
    simp only [Operation.type, Operation.fields, List.map_cons, List.map_nil, Prod.map, id, image_units]
  | transactionKeys operation =>
    simp only [PassesCheck, checkTransactionKeys, bind_eq_ok, forM_eq_ok] at hcheck
    obtain ⟨_, -, _, hforM, -⟩ := hcheck
    obtain ⟨items, hitems⟩ :=
      exists_encode_items (fun _ => exists_transactionKeyItem) image_transactionKeyItem hforM
    refine ⟨.transactionKeys items, ?_⟩
    have hobject : Operation.codec.encode (.transactionKeys items) = .obj
        [("type", .str "TransactionKeys"), ("items", TransactionKeyItem.codec.list.encode items)] := rfl
    rw [hobject, hitems, Operation.value, image_object]
    simp only [Operation.type, Operation.fields, List.map_cons, List.map_nil, Prod.map, id, image_units]
  | prove operation => exact exists_encode_prove hcheck hdistinct hlegible

end Operations

section Requests

/-- What the client writes into a request. -/
structure Prepared (context : OperationExecutionContext) (operation : JsValue)
    (request : OperationRequest) : Prop where
  requestId : ∃ b : ByteArrayOf 32, request.requestId = bytesToHex b.val
  issuedAtMs : ∃ n, request.issuedAtMs = utf16Units (Protocol.encodeDecimalU64 n)
  expiresAtMs : ∃ n, request.expiresAtMs = utf16Units (Protocol.encodeDecimalU64 n)
  targetManifestDigest : request.targetManifestDigest = context.info.manifestDigest
  targetExecutableDigest : request.targetExecutableDigest = context.info.executableDigest
  quorumKeyEpoch : request.quorumKeyEpoch = context.info.quorumKeyEpoch
  walletDescriptor : request.walletDescriptor = context.descriptor
  sealedSeed : request.sealedSeed = .null ∨ ∃ bytes, request.sealedSeed = .str (bytesToHex bytes)
  clientResponsePublicKey : ∃ key, request.clientResponsePublicKey = bytesToHex key
  operation : request.operation = operation
  signature : ∃ bytes, request.signature = bytesToHex bytes

theorem encodeDecimalU64_ok {value : ℤ} {text : JsString} (h : encodeDecimalU64 value = .ok text) :
    ∃ n : UInt64, text = utf16Units (Protocol.encodeDecimalU64 n) := by
  simp only [encodeDecimalU64, bind_eq_ok, refuse_eq_ok, exists_const, not_or, not_lt, pure_eq_ok] at h
  obtain ⟨⟨hnonneg, hle⟩, rfl⟩ := h
  refine ⟨UInt64.ofNat value.toNat, ?_⟩
  have hvalue : (UInt64.ofNat value.toNat).toNat = value.natAbs := by
    rw [UInt64.toNat_ofNat', Nat.mod_eq_of_lt] <;> omega
  rw [utf16Units_encodeDecimalU64, hvalue, Numeral.ofInt, Numeral.print]
  simp [hnonneg, printFrac, printExp, digitsEquiv]

theorem sealedSeedFields_ok {sealedSeed : Option JsString} {value : JsValue}
    (h : sealedSeedFields sealedSeed = .ok value) :
    value = .null ∨ ∃ bytes, value = .str (bytesToHex bytes) := by
  cases sealedSeed with
  | none => exact .inl (Except.ok.inj h).symm
  | some seed =>
    obtain ⟨bytes, hbytes, h⟩ := bind_eq_ok.1 h
    obtain rfl := Except.ok.inj h
    obtain ⟨s, heq, hs, -⟩ := requireHex_eq_ok.1 hbytes
    obtain rfl := Json.str.inj (Option.some.inj heq)
    exact .inr ⟨bytes, congrArg Json.str (decodeLowerHex_eq_ok.1 hs)⟩

theorem prepared_of_ok {BootProof : Type} {c : QosCrypto} {context : OperationExecutionContext}
    {operation : JsValue} {sealedSeed : Option JsString} {r : Readings BootProof}
    {request : OperationRequest} {grant : Option JsValue}
    (h : (prepareRequest c context operation sealedSeed r).result = .ok (request, grant)) :
    Prepared context operation request := by
  obtain ⟨unsigned, client, n, signature, hunsigned, -, -, rfl⟩ := prepareRequest_ok h
  simp only [unsignedRequest, bind_eq_ok, pure_eq_ok, Prod.mk.injEq] at hunsigned
  obtain ⟨_, -, kind, -, _, -, _, -, _, -, _, -, _, -, responsePublic, -, issuedAtMs, hissued, expiresAtMs,
    hexpires, seed, hseed, rfl, -⟩ := hunsigned
  exact
    { requestId := ⟨r.requestId, rfl⟩
      issuedAtMs := encodeDecimalU64_ok hissued
      expiresAtMs := encodeDecimalU64_ok hexpires
      targetManifestDigest := rfl
      targetExecutableDigest := rfl
      quorumKeyEpoch := rfl
      walletDescriptor := rfl
      sealedSeed := sealedSeedFields_ok hseed
      clientResponsePublicKey := ⟨responsePublic.val, rfl⟩
      operation := rfl
      signature := ⟨signature, rfl⟩ }

variable {context : OperationExecutionContext} {operation : JsValue} {request : OperationRequest}

theorem legible_str (s : JsString) : Legible (.str s) := .str trivial

theorem legible_client (g : ClientGrant) : Legible g.value := by
  rw [ClientGrant.value, legible_object]
  simp only [List.forall_mem_cons, List.not_mem_nil, false_imp_iff, implies_true, and_true]
  refine ⟨legible_str _, .arr ?_⟩
  rw [List.forall_mem_map]
  exact fun name _ => legible_str name

theorem legible_descriptor (d : WalletDescriptor) : Legible d.value := by
  rw [WalletDescriptor.value, legible_object]
  simp only [List.forall_mem_cons, List.not_mem_nil, false_imp_iff, implies_true, and_true, legible_str,
    legible_apiVersion, true_and]
  refine .arr ?_
  rw [List.forall_mem_map]
  exact fun g _ => legible_client g

theorem Prepared.legible_sealedSeed (h : Prepared context operation request) : Legible request.sealedSeed := by
  obtain hseed | ⟨_, hseed⟩ := h.sealedSeed
  · rw [hseed]
    exact .null
  · rw [hseed]
    exact legible_str _

theorem Prepared.legible_iff (h : Prepared context operation request) :
    Legible request.value ↔ Legible operation := by
  have hauthorization : Legible (object
      [("client_key_id", .str request.clientKeyId), ("signature", .str request.signature)]) := by
    rw [legible_object]
    simp only [List.forall_mem_cons, List.not_mem_nil, false_imp_iff, implies_true, and_true, legible_str]
  rw [OperationRequest.value, legible_object]
  simp only [List.forall_mem_cons, List.not_mem_nil, false_imp_iff, implies_true, and_true, legible_str,
    legible_apiVersion, legible_descriptor, h.legible_sealedSeed, hauthorization, h.operation, true_and]

theorem distinct_str (s : JsString) : (Json.str s : JsValue).Distinct := .str trivial

theorem distinct_client (g : ClientGrant) : g.value.Distinct := by
  refine distinct_object (by simp) ?_
  simp only [List.forall_mem_cons, List.not_mem_nil, false_imp_iff, implies_true, and_true]
  refine ⟨distinct_str _, distinct_arr.2 ?_⟩
  rw [List.forall_mem_map]
  exact fun name _ => distinct_str name

theorem distinct_descriptor (d : WalletDescriptor) : d.value.Distinct := by
  refine distinct_object (by simp) ?_
  have hversion : apiVersion.Distinct := .num trivial
  simp only [List.forall_mem_cons, List.not_mem_nil, false_imp_iff, implies_true, and_true, distinct_str,
    hversion, true_and]
  refine distinct_arr.2 ?_
  rw [List.forall_mem_map]
  exact fun g _ => distinct_client g

theorem Prepared.distinct (h : Prepared context operation request) (hdistinct : operation.Distinct) :
    request.value.Distinct := by
  refine distinct_object (by simp) ?_
  have hversion : apiVersion.Distinct := .num trivial
  have hseed : request.sealedSeed.Distinct := by
    obtain hseed | ⟨_, hseed⟩ := h.sealedSeed
    · rw [hseed]
      exact .null
    · rw [hseed]
      exact distinct_str _
  have hauthorization : (object
      [("client_key_id", .str request.clientKeyId), ("signature", .str request.signature)]).Distinct := by
    refine distinct_object (by simp) ?_
    simp only [List.forall_mem_cons, List.not_mem_nil, false_imp_iff, implies_true, and_true, distinct_str]
  simp only [List.forall_mem_cons, List.not_mem_nil, false_imp_iff, implies_true, and_true, distinct_str,
    hversion, distinct_descriptor, hseed, hauthorization, h.operation, hdistinct]

theorem depth_client (g : ClientGrant) : g.value.depth ≤ 2 := by
  rw [ClientGrant.value, depth_object]
  simp only [List.forall_mem_cons, List.not_mem_nil, false_imp_iff, implies_true, and_true]
  refine ⟨Nat.zero_le 1, depth_arr_le.2 ?_⟩
  rw [List.forall_mem_map]
  exact fun _ _ => le_rfl

theorem depth_descriptor (d : WalletDescriptor) : d.value.depth ≤ 4 := by
  rw [WalletDescriptor.value, depth_object]
  have hleaf : ∀ s : JsString, (Json.str s : JsValue).depth ≤ 3 := fun _ => Nat.zero_le 3
  have hversion : apiVersion.depth ≤ 3 := Nat.zero_le 3
  simp only [List.forall_mem_cons, List.not_mem_nil, false_imp_iff, implies_true, and_true, hleaf, hversion,
    true_and]
  refine depth_arr_le.2 ?_
  rw [List.forall_mem_map]
  exact fun g _ => depth_client g

theorem Prepared.depth_iff (h : Prepared context operation request) :
    request.value.depth ≤ recursionLimit ↔ operation.depth < recursionLimit := by
  have hlimit : recursionLimit = 126 + 1 := rfl
  have hleaf : ∀ s : JsString, (Json.str s : JsValue).depth ≤ 126 := fun _ => Nat.zero_le 126
  have hversion : apiVersion.depth ≤ 126 := Nat.zero_le 126
  have hdescriptor : request.walletDescriptor.value.depth ≤ 126 :=
    (depth_descriptor _).trans (by decide)
  have hseed : request.sealedSeed.depth ≤ 126 := by
    obtain hseed | ⟨_, hseed⟩ := h.sealedSeed <;> rw [hseed] <;> exact Nat.zero_le 126
  have hauthorization : (object
      [("client_key_id", .str request.clientKeyId), ("signature", .str request.signature)]).depth ≤ 126 := by
    rw [depth_object]
    simp only [List.forall_mem_cons, List.not_mem_nil, false_imp_iff, implies_true, and_true]
    exact ⟨Nat.zero_le 125, Nat.zero_le 125⟩
  rw [hlimit, Nat.lt_succ_iff, OperationRequest.value, depth_object]
  simp only [List.forall_mem_cons, List.not_mem_nil, false_imp_iff, implies_true, and_true, hleaf, hversion,
    hdescriptor, hseed, hauthorization, h.operation, true_and]

theorem exists_encode_request (h : Prepared context operation request) (hcontext : context.Readable)
    {x : Protocol.Operation} (hx : Operation.codec.encode x = image operation) :
    ∃ y, OperationRequest.codec.encode y = image request.value := by
  obtain ⟨requestId, hrequestId⟩ := h.requestId
  obtain ⟨issued, hissued⟩ := h.issuedAtMs
  obtain ⟨expires, hexpires⟩ := h.expiresAtMs
  obtain ⟨manifest, hmanifest⟩ := hcontext.manifestDigest
  obtain ⟨executable, hexecutable⟩ := hcontext.executableDigest
  obtain ⟨epoch, hepoch⟩ := hcontext.quorumKeyEpoch
  obtain ⟨descriptor, hdescriptor⟩ := exists_encode_descriptor hcontext.descriptor
  -- A seed that is absent is written as `null` on both sides.
  obtain ⟨seed, hseed⟩ : ∃ seed, (Protocol.hex.option hex_decode_null).encode seed =
      image request.sealedSeed := by
    obtain hseed | ⟨bytes, hseed⟩ := h.sealedSeed
    · exact ⟨none, by rw [hseed]; rfl⟩
    · exact ⟨some bytes, by rw [hseed, image_hex]; rfl⟩
  obtain ⟨key, hkey⟩ := h.clientResponsePublicKey
  obtain ⟨signature, hsignature⟩ := h.signature
  have hauthorization : ClientAuthorization.codec.encode ⟨lossy request.clientKeyId, signature⟩ =
      image (object [("client_key_id", .str request.clientKeyId), ("signature", .str request.signature)]) := by
    rw [image_object, hsignature]
    simp only [List.map_cons, List.map_nil, Prod.map, id, image_hex]
    rfl
  refine ⟨⟨API_VERSION, requestId, issued, expires, lossy request.targetReleaseId, manifest, executable,
    lossy request.quorumKeyId, epoch, descriptor, seed, key, x,
    ⟨lossy request.clientKeyId, signature⟩⟩, ?_⟩
  have hobject : ∀ y : Protocol.OperationRequest, OperationRequest.codec.encode y = .obj
      [("version", u8.encode y.version), ("request_id", (hexArray 32).encode y.requestId),
        ("issued_at_ms", decimalU64.encode y.issuedAtMs),
        ("expires_at_ms", decimalU64.encode y.expiresAtMs),
        ("target_release_id", Codec.string.encode y.targetReleaseId),
        ("target_manifest_digest", (hexArray 32).encode y.targetManifestDigest),
        ("target_executable_digest", (hexArray 32).encode y.targetExecutableDigest),
        ("quorum_key_id", Codec.string.encode y.quorumKeyId),
        ("quorum_key_epoch", decimalU64.encode y.quorumKeyEpoch),
        ("wallet_descriptor", WalletDescriptor.codec.encode y.walletDescriptor),
        ("sealed_seed", (Protocol.hex.option hex_decode_null).encode y.sealedSeed),
        ("client_response_public_key", Protocol.hex.encode y.clientResponsePublicKey),
        ("operation", Operation.codec.encode y.operation),
        ("authorization", ClientAuthorization.codec.encode y.authorization)] := fun _ => rfl
  rw [hobject, OperationRequest.value, image_object, hrequestId, hissued, hexpires, h.targetManifestDigest,
    hmanifest, h.targetExecutableDigest, hexecutable, h.quorumKeyEpoch, hepoch, h.walletDescriptor, hkey,
    h.operation]
  simp only [List.map_cons, List.map_nil, Prod.map, id, hdescriptor, hseed, hx, hauthorization,
    encode_version, image_hex, encode_hexArray, image_units, encode_decimal, string_lossy]

theorem readable_of_decode (h : Prepared context operation request) {source : Source}
    {y : Protocol.OperationRequest}
    (hy : OperationRequest.codec.decode source ((image request.value).sortBy String.toList) = some y) :
    context.Readable := by
  have hnamed := decodeNamed_of_image rfl hy
  simp only [Fields.decodeNamed_field] at hnamed
  obtain ⟨-, -, -, -, -, ⟨v, hv, hmanifest⟩, ⟨w, hw, hexecutable⟩, -, ⟨u, hu, hepoch⟩,
    ⟨e, he, hdescriptor⟩, -⟩ := hnamed
  obtain rfl := Option.some.inj hv
  obtain rfl := Option.some.inj hw
  obtain rfl := Option.some.inj hu
  obtain rfl := Option.some.inj he
  exact
    { descriptor := h.walletDescriptor ▸ readable_descriptor hdescriptor
      manifestDigest := h.targetManifestDigest ▸ ⟨_, decode_hexArray.1 hmanifest⟩
      executableDigest := h.targetExecutableDigest ▸ ⟨_, decode_hexArray.1 hexecutable⟩
      quorumKeyEpoch := h.quorumKeyEpoch ▸ ⟨_, decode_decimalU64.1 hepoch⟩ }

end Requests

end ZolanaTvc.Wallet.OperationExecutor
