import ZolanaTvc.Protocol.Types

/-!
# The serde encodings of the wire types

Each definition lists the fields of a type in the order of declaration, under their serde names and
with their adapters.
-/

namespace ZolanaTvc.Protocol

open Serde

/-- `#[serde(with = "hex")]` on `Vec<u8>` -/
def hex : Codec Bytes :=
  .ofText encodeLowerHex decodeLowerHex decodeLowerHex_encodeLowerHex fun _ _ =>
    encodeLowerHex_of_decode

/-- `#[serde(with = "hex")]` on `[u8; N]` -/
def hexArray (n : ℕ) : Codec (ByteArrayOf n) :=
  .ofText (fun b => encodeLowerHex b.val) (decodeLowerHexArray n) decodeLowerHexArray_encode
    fun _ _ => encodeLowerHex_of_decodeArray

/-- `#[serde(with = "decimal_u64")]` -/
def decimalU64 : Codec UInt64 :=
  .ofText encodeDecimalU64 decodeDecimalU64 decodeDecimalU64_encode fun _ _ =>
    encodeDecimalU64_of_decode

def u8 : Codec UInt8 :=
  .unsigned UInt8.size (by decide) ⟨UInt8.toFin, UInt8.ofFin, UInt8.ofFin_toFin, UInt8.toFin_ofFin⟩

def u32 : Codec UInt32 :=
  .unsigned UInt32.size (by decide)
    ⟨UInt32.toFin, UInt32.ofFin, UInt32.ofFin_toFin, UInt32.toFin_ofFin⟩

theorem string_decode_eq_some {s : Source} {v : Value} {x : String}
    (h : Codec.string.decode s v = some x) : v = .str x := by
  cases v with
  | str t => exact congrArg _ (Option.some.inj h)
  | _ => simp [Codec.string, Codec.ofText] at h

theorem hexArray_decode_eq_some {n : ℕ} {s : Source} {v : Value} {x : ByteArrayOf n}
    (h : (hexArray n).decode s v = some x) : v = .str (encodeLowerHex x.val) := by
  cases v with
  | str t => exact congrArg _ (encodeLowerHex_of_decodeArray h).symm
  | _ => simp [hexArray, Codec.ofText] at h

theorem u8_decode_eq_some {s : Source} {v : Value} {x : UInt8} (h : u8.decode s v = some x) :
    ∃ hx, v = .num (.int x.toNat hx) := by
  match v with
  | .num (.int n hn) =>
    obtain ⟨⟨hlt, hpos⟩, hx⟩ := Option.dite_none_right_eq_some.1 h
    have hn' : n = x.toNat := by
      rw [← Option.some.inj hx]
      exact (Int.toNat_of_nonneg hpos).symm
    subst hn'
    exact ⟨hn, rfl⟩
  | .num (.float y) | .null | .bool b | .str t | .arr vs | .obj ms => simp [u8, Codec.unsigned] at h

def Network.asStr : Network → String
  | .devnet => "devnet"
  | .mainnet => "mainnet"

def Network.codec : Codec Network :=
  .unitEnum asStr [.devnet, .mainnet] (by rintro (_ | _) <;> decide)
    (by rintro (_ | _) (_ | _) h <;> first | rfl | exact absurd h (by decide))

def OperationKind.asStr : OperationKind → String
  | .bootstrap => "Bootstrap"
  | .decrypt => "Decrypt"
  | .derive => "Derive"
  | .transactionKeys => "TransactionKeys"
  | .prove => "Prove"

/-- Every operation kind, as the enclave serves them. -/
def OPERATIONS : List OperationKind := [.bootstrap, .decrypt, .derive, .transactionKeys, .prove]

def OperationKind.codec : Codec OperationKind :=
  .unitEnum asStr OPERATIONS (by rintro (_ | _) <;> decide)
    (by rintro (_ | _) (_ | _) h <;> first | rfl | exact absurd h (by decide))

def DecryptLabel.asStr : DecryptLabel → String
  | .transfer => "Transfer"
  | .ringDeposit => "RingDeposit"

def DecryptLabel.codec : Codec DecryptLabel :=
  .unitEnum asStr [.transfer, .ringDeposit] (by rintro (_ | _) <;> decide)
    (by rintro (_ | _) (_ | _) h <;> first | rfl | exact absurd h (by decide))

def FailureStage.asStr : FailureStage → String
  | .prover => "Prover"
  | .turnkeySigning => "TurnkeySigning"

def FailureStage.codec : Codec FailureStage :=
  .unitEnum asStr [.prover, .turnkeySigning] (by rintro (_ | _) <;> decide)
    (by rintro (_ | _) (_ | _) h <;> first | rfl | exact absurd h (by decide))

def ClientGrant.codec : Codec ClientGrant :=
  Fields.struct
    (.field "client_public_key" hex <|
      .field "allowed_operations" OperationKind.codec.list .done)
    ⟨fun x => (x.1, x.2, ()), fun (a, b, _) => ⟨a, b⟩, fun _ => rfl, fun _ => rfl⟩

def WalletDescriptor.codec : Codec WalletDescriptor :=
  Fields.struct
    (.field "version" u8 <|
      .field "security_domain_id" (hexArray 32) <|
      .field "network" Network.codec <|
      .field "turnkey_organization_id" .string <|
      .field "turnkey_wallet_id" .string <|
      .field "address" .string <|
      .field "allowed_clients" ClientGrant.codec.list <|
      .field "expires_at_ms" decimalU64 <|
      .field "provisioning_signature" hex .done)
    ⟨fun x => (x.1, x.2, x.3, x.4, x.5, x.6, x.7, x.8, x.9, ()),
      fun (a, b, c, d, e, f, g, h, i, _) => ⟨a, b, c, d, e, f, g, h, i⟩,
      fun _ => rfl, fun _ => rfl⟩

def ClientAuthorization.codec : Codec ClientAuthorization :=
  Fields.struct (.field "client_key_id" .string <| .field "signature" hex .done)
    ⟨fun x => (x.1, x.2, ()), fun (a, b, _) => ⟨a, b⟩, fun _ => rfl, fun _ => rfl⟩

def DecryptItem.codec : Codec DecryptItem :=
  Fields.struct
    (.field "ciphertext" hex <|
      .field "viewing_public_key" hex <|
      .field "transaction_viewing_public_key" hex <|
      .field "salt" hex <|
      .field "slot_index" decimalU64 <|
      .field "label" DecryptLabel.codec .done)
    ⟨fun x => (x.1, x.2, x.3, x.4, x.5, x.6, ()), fun (a, b, c, d, e, f, _) => ⟨a, b, c, d, e, f⟩,
      fun _ => rfl, fun _ => rfl⟩

/-- `#[serde(tag = "kind")]` -/
def DeriveItem.codec : Codec DeriveItem :=
  Variants.tagged "kind"
    (.variant "Nullifier"
        (.field "utxo_hash" (hexArray 32) <| .field "blinding" (hexArray 32) .done) <|
      .variant "MergeDummyNullifier"
        (.field "first_nullifier" (hexArray 32) <| .field "slot_index" decimalU64 .done) <|
      .variant "MergeOutputBlinding" (.field "first_nullifier" (hexArray 32) .done) <|
      .variant "MergePrivateTxBlinding" (.field "first_nullifier" (hexArray 32) .done) <|
      .variant "MergeOutputKey" (.field "first_nullifier" (hexArray 32) .done) .done)
    { toFun
        | .nullifier u b => .inl (u, b, ())
        | .mergeDummyNullifier f s => .inr (.inl (f, s, ()))
        | .mergeOutputBlinding f => .inr (.inr (.inl (f, ())))
        | .mergePrivateTxBlinding f => .inr (.inr (.inr (.inl (f, ()))))
        | .mergeOutputKey f => .inr (.inr (.inr (.inr (.inl (f, ())))))
      invFun
        | .inl (u, b, _) => .nullifier u b
        | .inr (.inl (f, s, _)) => .mergeDummyNullifier f s
        | .inr (.inr (.inl (f, _))) => .mergeOutputBlinding f
        | .inr (.inr (.inr (.inl (f, _)))) => .mergePrivateTxBlinding f
        | .inr (.inr (.inr (.inr (.inl (f, _))))) => .mergeOutputKey f
      left_inv := by rintro (_ | _) <;> rfl
      right_inv := by rintro (_ | _ | _ | _ | _ | ⟨⟨⟩⟩) <;> rfl }

def TransactionKeyItem.codec : Codec TransactionKeyItem :=
  Fields.struct
    (.field "viewing_public_key" hex <| .field "first_nullifier" (hexArray 32) .done)
    ⟨fun x => (x.1, x.2, ()), fun (a, b, _) => ⟨a, b⟩, fun _ => rfl, fun _ => rfl⟩

def ProverSealing.codec : Codec ProverSealing :=
  Fields.struct
    (.field "target" .string <|
      .field "nonce" (hexArray 32) <|
      .field "attestation" .document <|
      .field "policy" .document .done)
    ⟨fun x => (x.1, x.2, x.3, x.4, ()), fun (a, b, c, d, _) => ⟨a, b, c, d⟩,
      fun _ => rfl, fun _ => rfl⟩

/-- `#[serde(tag = "type")]` -/
def Operation.codec : Codec Operation :=
  Variants.tagged "type"
    (.unit "Bootstrap" <|
      .variant "Decrypt" (.field "items" DecryptItem.codec.list .done) <|
      .variant "Derive" (.field "items" DeriveItem.codec.list .done) <|
      .variant "TransactionKeys" (.field "items" TransactionKeyItem.codec.list .done) <|
      .variant "Prove"
        (.field "request" .document <| .field "prover" ProverSealing.codec .done) .done)
    { toFun
        | .bootstrap => .inl ()
        | .decrypt items => .inr (.inl (items, ()))
        | .derive items => .inr (.inr (.inl (items, ())))
        | .transactionKeys items => .inr (.inr (.inr (.inl (items, ()))))
        | .prove request prover => .inr (.inr (.inr (.inr (.inl (request, prover, ())))))
      invFun
        | .inl _ => .bootstrap
        | .inr (.inl (items, _)) => .decrypt items
        | .inr (.inr (.inl (items, _))) => .derive items
        | .inr (.inr (.inr (.inl (items, _)))) => .transactionKeys items
        | .inr (.inr (.inr (.inr (.inl (request, prover, _))))) => .prove request prover
      left_inv := by rintro (_ | _) <;> rfl
      right_inv := by rintro (_ | _ | _ | _ | _ | ⟨⟨⟩⟩) <;> rfl }

theorem hex_decode_null (s : Source) : hex.decode s .null = none := rfl

def OperationRequest.codec : Codec OperationRequest :=
  Fields.struct
    (.field "version" u8 <|
      .field "request_id" (hexArray 32) <|
      .field "issued_at_ms" decimalU64 <|
      .field "expires_at_ms" decimalU64 <|
      .field "target_release_id" .string <|
      .field "target_manifest_digest" (hexArray 32) <|
      .field "target_executable_digest" (hexArray 32) <|
      .field "quorum_key_id" .string <|
      .field "quorum_key_epoch" decimalU64 <|
      .field "wallet_descriptor" WalletDescriptor.codec <|
      .field "sealed_seed" (hex.option hex_decode_null) <|
      .field "client_response_public_key" hex <|
      .field "operation" Operation.codec <|
      .field "authorization" ClientAuthorization.codec .done)
    ⟨fun x => (x.1, x.2, x.3, x.4, x.5, x.6, x.7, x.8, x.9, x.10, x.11, x.12, x.13, x.14, ()),
      fun (a, b, c, d, e, f, g, h, i, j, k, l, m, n, _) =>
        ⟨a, b, c, d, e, f, g, h, i, j, k, l, m, n⟩,
      fun _ => rfl, fun _ => rfl⟩

def WalletGrant.codec : Codec WalletGrant :=
  Fields.struct
    (.field "version" u8 <|
      .field "descriptor_digest" (hexArray 32) <|
      .field "client_key_id" .string <|
      .field "project_id" .string <|
      .field "issued_at_ms" decimalU64 <|
      .field "expires_at_ms" decimalU64 <|
      .field "signature" hex .done)
    ⟨fun x => (x.1, x.2, x.3, x.4, x.5, x.6, x.7, ()),
      fun (a, b, c, d, e, f, g, _) => ⟨a, b, c, d, e, f, g⟩, fun _ => rfl, fun _ => rfl⟩

theorem WalletGrant.decode_null (s : Source) : codec.decode s .null = none := rfl

def EncryptedRequest.codec : Codec EncryptedRequest :=
  Fields.struct
    (.field "version" u8 <|
      .field "quorum_key_id" .string <|
      .field "quorum_key_epoch" decimalU64 <|
      .field "ciphertext" hex <|
      .optional "wallet_grant" WalletGrant.codec WalletGrant.decode_null .done)
    ⟨fun x => (x.1, x.2, x.3, x.4, x.5, ()), fun (a, b, c, d, e, _) => ⟨a, b, c, d, e⟩,
      fun _ => rfl, fun _ => rfl⟩

def AppProof.codec : Codec AppProof :=
  Fields.struct
    (.field "scheme" .string <|
      .field "public_key" hex <|
      .field "proof_payload" .string <|
      .field "signature" hex .done)
    ⟨fun x => (x.1, x.2, x.3, x.4, ()), fun (a, b, c, d, _) => ⟨a, b, c, d⟩,
      fun _ => rfl, fun _ => rfl⟩

def QosPingChallenge.codec : Codec QosPingChallenge :=
  Fields.struct
    (.field "type" .string <| .field "version" u8 <| .field "challenge" (hexArray 32) .done)
    ⟨fun x => (x.1, x.2, x.3, ()), fun (a, b, c, _) => ⟨a, b, c⟩, fun _ => rfl, fun _ => rfl⟩

def QosPingRequest.codec : Codec QosPingRequest :=
  Fields.struct (.field "version" u8 <| .field "encrypted_challenge" hex .done)
    ⟨fun x => (x.1, x.2, ()), fun (a, b, _) => ⟨a, b⟩, fun _ => rfl, fun _ => rfl⟩

def QosPingResponse.codec : Codec QosPingResponse :=
  Fields.struct (.field "version" u8 <| .field "tvc_app_proof" AppProof.codec .done)
    ⟨fun x => (x.1, x.2, ()), fun (a, b, _) => ⟨a, b⟩, fun _ => rfl, fun _ => rfl⟩

def EncryptedResponse.codec : Codec EncryptedResponse :=
  Fields.struct
    (.field "version" u8 <|
      .field "request_id" (hexArray 32) <|
      .field "encrypted_result" hex <|
      .field "tvc_app_proof" AppProof.codec .done)
    ⟨fun x => (x.1, x.2, x.3, x.4, ()), fun (a, b, c, d, _) => ⟨a, b, c, d⟩,
      fun _ => rfl, fun _ => rfl⟩

def SealedProverRequest.codec : Codec SealedProverRequest :=
  Fields.struct
    (.field "target" .string <|
      .field "enc" (hexArray 32) <|
      .field "ciphertext" hex <|
      .field "response_key" (hexArray 32) .done)
    ⟨fun x => (x.1, x.2, x.3, x.4, ()), fun (a, b, c, d, _) => ⟨a, b, c, d⟩,
      fun _ => rfl, fun _ => rfl⟩

/-- `#[serde(tag = "type")]` -/
def OperationResult.codec : Codec OperationResult :=
  Variants.tagged "type"
    (.variant "Bootstrap"
        (.field "solana_address" .string <|
          .field "shielded_owner_hash" (hexArray 32) <|
          .field "shielded_nullifier_public_key" (hexArray 32) <|
          .field "shielded_viewing_public_key" hex <|
          .field "sealed_seed" hex <|
          .field "turnkey_activity_id" .string .done) <|
      .variant "Decrypt" (.field "plaintexts" hex.list .done) <|
      .variant "Derive" (.field "values" (hexArray 32).list .done) <|
      .variant "TransactionKeys" (.field "secrets" (hexArray 32).list .done) <|
      .variant "Prove" (.field "sealed" SealedProverRequest.codec .done) <|
      .variant "Failure"
        (.field "operation" OperationKind.codec <| .field "stage" FailureStage.codec .done) .done)
    { toFun
        | .bootstrap a b c d e f => .inl (a, b, c, d, e, f, ())
        | .decrypt plaintexts => .inr (.inl (plaintexts, ()))
        | .derive values => .inr (.inr (.inl (values, ())))
        | .transactionKeys secrets => .inr (.inr (.inr (.inl (secrets, ()))))
        | .prove sealed => .inr (.inr (.inr (.inr (.inl (sealed, ())))))
        | .failure operation stage => .inr (.inr (.inr (.inr (.inr (.inl (operation, stage, ()))))))
      invFun
        | .inl (a, b, c, d, e, f, _) => .bootstrap a b c d e f
        | .inr (.inl (plaintexts, _)) => .decrypt plaintexts
        | .inr (.inr (.inl (values, _))) => .derive values
        | .inr (.inr (.inr (.inl (secrets, _)))) => .transactionKeys secrets
        | .inr (.inr (.inr (.inr (.inl (sealed, _))))) => .prove sealed
        | .inr (.inr (.inr (.inr (.inr (.inl (operation, stage, _)))))) => .failure operation stage
      left_inv := by rintro (_ | _) <;> rfl
      right_inv := by rintro (_ | _ | _ | _ | _ | _ | ⟨⟨⟩⟩) <;> rfl }

def OperationProofPayload.codec : Codec OperationProofPayload :=
  Fields.struct
    (.field "type" .string <|
      .field "version" u8 <|
      .field "request_id" (hexArray 32) <|
      .field "request_digest" (hexArray 32) <|
      .field "result_digest" (hexArray 32) <|
      .field "operation" OperationKind.codec <|
      .field "sealed_seed_digest" (hexArray 32) .done)
    ⟨fun x => (x.1, x.2, x.3, x.4, x.5, x.6, x.7, ()),
      fun (a, b, c, d, e, f, g, _) => ⟨a, b, c, d, e, f, g⟩, fun _ => rfl, fun _ => rfl⟩

/-- `#[serde(rename_all = "camelCase")]` -/
def ReleasePolicy.codec : Codec ReleasePolicy :=
  Fields.struct
    (.field "version" u8 <|
      .field "releaseId" .string <|
      .field "network" Network.codec <|
      .field "tvcApplicationId" .string <|
      .field "securityDomainId" (hexArray 32) <|
      .field "acceptedManifestDigests" (.list .string) <|
      .field "acceptedExecutableDigests" (.list .string) <|
      .field "quorumKeyId" .string <|
      .field "quorumKeyEpoch" decimalU64 <|
      .field "quorumPublicKey" hex <|
      .field "allowedOperations" OperationKind.codec.list <|
      .field "maxEncryptedRequestBytes" u32 <|
      .field "maxEncryptedResponseBytes" u32 <|
      .field "turnkeyTrustRootId" .string <|
      .field "turnkeyProofSchemaVersions" (.list .string) <|
      .field "validFromMs" decimalU64 <|
      .field "expiresAtMs" decimalU64 <|
      .field "revocationEpoch" decimalU64 .done)
    ⟨fun x => (x.1, x.2, x.3, x.4, x.5, x.6, x.7, x.8, x.9, x.10, x.11, x.12, x.13, x.14, x.15,
        x.16, x.17, x.18, ()),
      fun (a, b, c, d, e, f, g, h, i, j, k, l, m, n, o, p, q, r, _) =>
        ⟨a, b, c, d, e, f, g, h, i, j, k, l, m, n, o, p, q, r⟩,
      fun _ => rfl, fun _ => rfl⟩

def ReleaseAuthoritySignature.codec : Codec ReleaseAuthoritySignature :=
  Fields.struct (.field "keyId" .string <| .field "signature" hex .done)
    ⟨fun x => (x.1, x.2, ()), fun (a, b, _) => ⟨a, b⟩, fun _ => rfl, fun _ => rfl⟩

def SignedReleasePolicy.codec : Codec SignedReleasePolicy :=
  Fields.struct
    (.field "policy" ReleasePolicy.codec <|
      .field "authoritySetId" .string <|
      .field "signatures" ReleaseAuthoritySignature.codec.list .done)
    ⟨fun x => (x.1, x.2, x.3, ()), fun (a, b, c, _) => ⟨a, b, c⟩, fun _ => rfl, fun _ => rfl⟩

def parseOperationRequest (json : String) : Option OperationRequest :=
  parseStrictJson OperationRequest.codec json

def parseEncryptedRequest (json : String) : Option EncryptedRequest :=
  parseStrictJson EncryptedRequest.codec json

def parseQosPingRequest (json : String) : Option QosPingRequest :=
  parseStrictJson QosPingRequest.codec json

def parseQosPingChallenge (json : String) : Option QosPingChallenge :=
  parseStrictJson QosPingChallenge.codec json

end ZolanaTvc.Protocol
