import ZolanaTvc.Protocol.Binding
import ZolanaTvc.Serde.RoundTrip

/-!
# The wire types round trip

What `jcs_serialize` writes for a value of a wire type is canonical, and `parse_strict_json` reads the
value back from it.
-/

namespace ZolanaTvc.Protocol

open Json Serde

variable {T : Type}

/-- A value that nests no deeper than the reader goes is written, canonically, and read back. -/
theorem jcsSerialize_roundTrip {c : Codec T} (hc : c.Exact) {x : T} (hx : c.Fits recursionLimit x) :
    ∃ t, jcsSerialize c x = some t ∧ isRfc8785 t = true ∧ parseStrictJson c t = some (c.norm x) := by
  have hdistinct := c.distinct_encode x
  obtain ⟨t, ht⟩ := exists_canonicalize_iff.2 hx.integral
  refine ⟨t, ht, isRfc8785_iff.2 ⟨_, hdistinct, hx.integral, hx.depth_le, ht⟩, ?_⟩
  rw [parseStrictJson, strictValue_of_canonicalize hdistinct hx.depth_le ht, Option.bind_some,
    hc .value x]

section Fits

theorem hex_fits (n : ℕ) (b : Bytes) : hex.Fits n b := Codec.fits_ofText

theorem hexArray_fits (n k : ℕ) (b : ByteArrayOf k) : (hexArray k).Fits n b := Codec.fits_ofText

theorem decimalU64_fits (n : ℕ) (x : UInt64) : decimalU64.Fits n x := Codec.fits_ofText

theorem Network.fits (n : ℕ) (x : Network) : codec.Fits n x := Codec.fits_unitEnum

theorem OperationKind.fits (n : ℕ) (x : OperationKind) : codec.Fits n x := Codec.fits_unitEnum

theorem DecryptLabel.fits (n : ℕ) (x : DecryptLabel) : codec.Fits n x := Codec.fits_unitEnum

theorem FailureStage.fits (n : ℕ) (x : FailureStage) : codec.Fits n x := Codec.fits_unitEnum

attribute [local simp] hex_fits hexArray_fits decimalU64_fits Network.fits OperationKind.fits
  DecryptLabel.fits FailureStage.fits u8 u32

theorem ClientGrant.fits (n : ℕ) (x : ClientGrant) : codec.Fits (n + 2) x := by
  simp [codec]

theorem WalletDescriptor.fits (n : ℕ) (x : WalletDescriptor) : codec.Fits (n + 4) x := by
  simp [codec, ClientGrant.fits]

theorem ClientAuthorization.fits (n : ℕ) (x : ClientAuthorization) : codec.Fits (n + 1) x := by
  simp [codec]

theorem DecryptItem.fits (n : ℕ) (x : DecryptItem) : codec.Fits (n + 1) x := by
  simp [codec]

theorem DeriveItem.fits (n : ℕ) (x : DeriveItem) : codec.Fits (n + 1) x := by
  cases x <;> simp [codec]

theorem TransactionKeyItem.fits (n : ℕ) (x : TransactionKeyItem) : codec.Fits (n + 1) x := by
  simp [codec]

/-- The documents of an operation hold no binary64 number, and the request that embeds them stays
within the nesting limit of the reader. -/
def Operation.WithinReader : Operation → Prop
  | .prove request prover =>
    Within (recursionLimit - 2) request.val ∧ Within (recursionLimit - 3) prover.attestation.val ∧
      Within (recursionLimit - 3) prover.policy.val
  | _ => True

theorem Operation.fits_iff {x : Operation} :
    codec.Fits (recursionLimit - 1) x ↔ x.WithinReader := by
  have hlimit : recursionLimit - 1 = 123 + 3 := rfl
  rw [hlimit]
  cases x with
  | bootstrap => simp [codec, WithinReader]
  | decrypt items => simp [codec, WithinReader, DecryptItem.fits]
  | derive items => simp [codec, WithinReader, DeriveItem.fits]
  | transactionKeys items => simp [codec, WithinReader, TransactionKeyItem.fits]
  | prove request prover =>
    simp [codec, WithinReader, ProverSealing.codec, Codec.fits_document, recursionLimit]

theorem OperationRequest.fits_iff {x : OperationRequest} :
    codec.Fits recursionLimit x ↔ x.operation.WithinReader := by
  rw [← Operation.fits_iff]
  have hlimit : recursionLimit = 122 + 4 + 1 := rfl
  rw [hlimit]
  simp [codec, WalletDescriptor.fits, ClientAuthorization.fits]

theorem WalletGrant.fits (n : ℕ) (x : WalletGrant) : codec.Fits (n + 1) x := by
  simp [codec]

theorem EncryptedRequest.fits (n : ℕ) (x : EncryptedRequest) : codec.Fits (n + 2) x := by
  simp [codec, WalletGrant.fits]

theorem QosPingRequest.fits (n : ℕ) (x : QosPingRequest) : codec.Fits (n + 1) x := by
  simp [codec]

theorem EncryptedResponse.fits (n : ℕ) (x : EncryptedResponse) : codec.Fits (n + 2) x := by
  simp [codec, AppProof.codec]

theorem OperationResult.fits (n : ℕ) (x : OperationResult) : codec.Fits (n + 2) x := by
  cases x <;> simp [codec, SealedProverRequest.codec]

theorem ReleasePolicy.fits (n : ℕ) (x : ReleasePolicy) : codec.Fits (n + 2) x := by
  simp [codec]

theorem SignedReleasePolicy.fits (n : ℕ) (x : SignedReleasePolicy) : codec.Fits (n + 3) x := by
  simp [codec, ReleasePolicy.fits, ReleaseAuthoritySignature.codec]

end Fits

section Norm

theorem WalletGrant.norm_eq (x : WalletGrant) : codec.norm x = x := rfl

theorem EncryptedRequest.norm_eq (x : EncryptedRequest) : codec.norm x = x := by
  show ({ x with walletGrant := x.walletGrant.map WalletGrant.codec.norm } : EncryptedRequest) = x
  rw [funext WalletGrant.norm_eq, Option.map_id']

theorem EncryptedResponse.norm_eq (x : EncryptedResponse) : codec.norm x = x := rfl

theorem OperationResult.norm_eq (x : OperationResult) : codec.norm x = x := by
  cases x with
  | decrypt plaintexts =>
    show OperationResult.decrypt (plaintexts.map id) = .decrypt plaintexts
    rw [List.map_id]
  | derive values =>
    show OperationResult.derive (values.map id) = .derive values
    rw [List.map_id]
  | transactionKeys secrets =>
    show OperationResult.transactionKeys (secrets.map id) = .transactionKeys secrets
    rw [List.map_id]
  | _ => rfl

theorem SignedReleasePolicy.norm_eq (x : SignedReleasePolicy) : codec.norm x = x := by
  show ({ x with
    policy := ReleasePolicy.codec.norm x.policy
    signatures := x.signatures.map id } : SignedReleasePolicy) = x
  rw [ReleasePolicy.norm_eq, List.map_id]

end Norm

section Exact

open Codec Fields Variants

theorem ProverSealing.exact : codec.Exact :=
  .struct (.field (exact_of_norm_eq fun _ => rfl) <|
    .field (exact_of_norm_eq fun _ => rfl) <|
    .field exact_document <| .field exact_document exact_done) _

theorem Operation.exact : codec.Exact := by
  have hlist : ∀ {A : Type} {c : Codec A}, (∀ x, c.norm x = x) → c.list.Exact := by
    intro A c hc
    refine exact_of_norm_eq fun xs => ?_
    show xs.map c.norm = xs
    rw [funext hc, List.map_id']
  exact .tagged (.unit <|
    .variant (.field (hlist fun _ => rfl) Fields.exact_done) <|
    .variant (.field (hlist DeriveItem.norm_eq) Fields.exact_done) <|
    .variant (.field (hlist fun _ => rfl) Fields.exact_done) <|
    .variant (.field exact_document <| .field ProverSealing.exact Fields.exact_done)
      Variants.exact_done) _

theorem OperationRequest.exact : codec.Exact := by
  have hleaf : ∀ {A : Type} {c : Codec A}, (∀ x, c.norm x = x) → c.Exact := exact_of_norm_eq
  exact .struct (.field (hleaf fun _ => rfl) <|
    .field (hleaf fun _ => rfl) <|
    .field (hleaf fun _ => rfl) <|
    .field (hleaf fun _ => rfl) <|
    .field (hleaf fun _ => rfl) <|
    .field (hleaf fun _ => rfl) <|
    .field (hleaf fun _ => rfl) <|
    .field (hleaf fun _ => rfl) <|
    .field (hleaf fun _ => rfl) <|
    .field (hleaf WalletDescriptor.norm_eq) <|
    .field (hleaf fun x => congrFun Option.map_id x) <|
    .field (hleaf fun _ => rfl) <|
    .field Operation.exact <|
    .field (hleaf fun _ => rfl) Fields.exact_done) _

end Exact

/-- A value is written canonically and read back as it was. -/
def RoundTrips (c : Codec T) (x y : T) : Prop :=
  ∃ t, jcsSerialize c x = some t ∧ isRfc8785 t = true ∧ parseStrictJson c t = some y

theorem roundTrips_of_norm_eq {c : Codec T} (hc : ∀ x, c.norm x = x) {x : T}
    (hx : c.Fits recursionLimit x) : RoundTrips c x x := by
  obtain ⟨t, ht, hcanonical, hparse⟩ := jcsSerialize_roundTrip (Codec.exact_of_norm_eq hc) hx
  rw [hc x] at hparse
  exact ⟨t, ht, hcanonical, hparse⟩

/-- Every wire type round trips. A request comes back with its free-form documents as a map keeps
them. -/
theorem wire_roundTrip :
    (∀ x : OperationRequest, x.operation.WithinReader →
      RoundTrips OperationRequest.codec x { x with operation := x.operation.sorted }) ∧
    (∀ x : OperationResult, RoundTrips OperationResult.codec x x) ∧
    (∀ x : EncryptedRequest, RoundTrips EncryptedRequest.codec x x) ∧
    (∀ x : EncryptedResponse, RoundTrips EncryptedResponse.codec x x) ∧
    (∀ x : WalletDescriptor, RoundTrips WalletDescriptor.codec x x) ∧
    (∀ x : WalletGrant, RoundTrips WalletGrant.codec x x) ∧
    (∀ x : SignedReleasePolicy, RoundTrips SignedReleasePolicy.codec x x) := by
  refine ⟨fun x hx => ?_, fun x => ?_, fun x => ?_, fun x => ?_, fun x => ?_, fun x => ?_,
    fun x => ?_⟩
  · have hround := jcsSerialize_roundTrip OperationRequest.exact (OperationRequest.fits_iff.2 hx)
    rwa [OperationRequest.norm_eq] at hround
  · exact roundTrips_of_norm_eq OperationResult.norm_eq (OperationResult.fits 125 x)
  · exact roundTrips_of_norm_eq EncryptedRequest.norm_eq (EncryptedRequest.fits 125 x)
  · exact roundTrips_of_norm_eq EncryptedResponse.norm_eq (EncryptedResponse.fits 125 x)
  · exact roundTrips_of_norm_eq WalletDescriptor.norm_eq (WalletDescriptor.fits 123 x)
  · exact roundTrips_of_norm_eq WalletGrant.norm_eq (WalletGrant.fits 126 x)
  · exact roundTrips_of_norm_eq SignedReleasePolicy.norm_eq (SignedReleasePolicy.fits 124 x)

end ZolanaTvc.Protocol
