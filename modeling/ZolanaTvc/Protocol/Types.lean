import ZolanaTvc.Protocol.Encoding

/-!
# Wire types

Discovery, requests, results, the sealed seed and the release policy.
-/

namespace ZolanaTvc.Protocol

open Serde

/-- The Solana network a release, a descriptor and a running enclave serve. -/
inductive Network where
  | devnet
  | mainnet
deriving DecidableEq

/-- What a request asks for. -/
inductive OperationKind where
  | bootstrap
  | decrypt
  | derive
  | transactionKeys
  | prove
deriving DecidableEq

structure ServiceInfo where
  version : UInt8
  network : Network
  securityDomainId : ByteArrayOf 32
  releaseId : String
  manifestDigest : ByteArrayOf 32
  executableDigest : ByteArrayOf 32
  quorumPublicKey : Bytes
  quorumKeyId : String
  quorumKeyEpoch : UInt64
  ephemeralPublicKey : Bytes
  supportedOperations : List OperationKind
  maxEncryptedRequestBytes : UInt64
  maxEncryptedResponseBytes : UInt64
  proofType : String
deriving DecidableEq

structure ClientGrant where
  clientPublicKey : Bytes
  allowedOperations : List OperationKind
deriving DecidableEq

structure WalletDescriptor where
  version : UInt8
  securityDomainId : ByteArrayOf 32
  network : Network
  turnkeyOrganizationId : String
  turnkeyWalletId : String
  address : String
  allowedClients : List ClientGrant
  /-- When the descriptor stops admitting its client key, in Unix ms. -/
  expiresAtMs : UInt64
  provisioningSignature : Bytes
deriving DecidableEq

def WalletDescriptor.walletId (d : WalletDescriptor) : String := "wallet-" ++ d.turnkeyWalletId

structure ClientAuthorization where
  clientKeyId : String
  signature : Bytes
deriving DecidableEq

inductive DecryptLabel where
  | transfer
  | ringDeposit
deriving DecidableEq

structure DecryptItem where
  ciphertext : Bytes
  viewingPublicKey : Bytes
  transactionViewingPublicKey : Bytes
  salt : Bytes
  slotIndex : UInt64
  label : DecryptLabel
deriving DecidableEq

inductive DeriveItem where
  | nullifier (utxoHash blinding : ByteArrayOf 32)
  | mergeDummyNullifier (firstNullifier : ByteArrayOf 32) (slotIndex : UInt64)
  | mergeOutputBlinding (firstNullifier : ByteArrayOf 32)
  | mergePrivateTxBlinding (firstNullifier : ByteArrayOf 32)
  | mergeOutputKey (firstNullifier : ByteArrayOf 32)
deriving DecidableEq

structure TransactionKeyItem where
  viewingPublicKey : Bytes
  firstNullifier : ByteArrayOf 32
deriving DecidableEq

/-- The prover a `Prove` seals to. -/
structure ProverSealing where
  target : String
  nonce : ByteArrayOf 32
  attestation : Document
  policy : Document
deriving DecidableEq

inductive Operation where
  | bootstrap
  | decrypt (items : List DecryptItem)
  | derive (items : List DeriveItem)
  | transactionKeys (items : List TransactionKeyItem)
  | prove (request : Document) (prover : ProverSealing)
deriving DecidableEq

def Operation.kind : Operation → OperationKind
  | .bootstrap => .bootstrap
  | .decrypt _ => .decrypt
  | .derive _ => .derive
  | .transactionKeys _ => .transactionKeys
  | .prove _ _ => .prove

structure OperationRequest where
  version : UInt8
  requestId : ByteArrayOf 32
  issuedAtMs : UInt64
  expiresAtMs : UInt64
  targetReleaseId : String
  targetManifestDigest : ByteArrayOf 32
  targetExecutableDigest : ByteArrayOf 32
  quorumKeyId : String
  quorumKeyEpoch : UInt64
  walletDescriptor : WalletDescriptor
  sealedSeed : Option Bytes
  clientResponsePublicKey : Bytes
  operation : Operation
  authorization : ClientAuthorization
deriving DecidableEq

/-- A short-lived grant that one descriptor and client key may operate. -/
structure WalletGrant where
  version : UInt8
  descriptorDigest : ByteArrayOf 32
  clientKeyId : String
  projectId : String
  issuedAtMs : UInt64
  expiresAtMs : UInt64
  signature : Bytes
deriving DecidableEq

structure EncryptedRequest where
  version : UInt8
  quorumKeyId : String
  quorumKeyEpoch : UInt64
  ciphertext : Bytes
  walletGrant : Option WalletGrant
deriving DecidableEq

structure SealedSeed where
  version : UInt8
  quorumKeyId : String
  quorumKeyEpoch : UInt64
  walletIdHash : ByteArrayOf 32
  ciphertext : Bytes
deriving DecidableEq

structure AppProof where
  scheme : String
  publicKey : Bytes
  proofPayload : String
  signature : Bytes
deriving DecidableEq

/-- Connection challenge encrypted to the quorum key. -/
structure QosPingChallenge where
  type : String
  version : UInt8
  challenge : ByteArrayOf 32
deriving DecidableEq

structure QosPingRequest where
  version : UInt8
  encryptedChallenge : Bytes
deriving DecidableEq

/-- Proof that the running enclave decrypted with the quorum key. -/
structure QosPingResponse where
  version : UInt8
  tvcAppProof : AppProof
deriving DecidableEq

structure EncryptedResponse where
  version : UInt8
  requestId : ByteArrayOf 32
  encryptedResult : Bytes
  tvcAppProof : AppProof
deriving DecidableEq

/-- Coarse, non-secret failure marker, returned only inside the encrypted result. -/
inductive FailureStage where
  | prover
  | turnkeySigning
deriving DecidableEq

/-- One prover request under the encrypted prover wire contract. -/
structure SealedProverRequest where
  target : String
  enc : ByteArrayOf 32
  ciphertext : Bytes
  responseKey : ByteArrayOf 32
deriving DecidableEq

inductive OperationResult where
  | bootstrap (solanaAddress : String)
      (shieldedOwnerHash shieldedNullifierPublicKey : ByteArrayOf 32)
      (shieldedViewingPublicKey sealedSeed : Bytes) (turnkeyActivityId : String)
  | decrypt (plaintexts : List Bytes)
  | derive (values : List (ByteArrayOf 32))
  | transactionKeys (secrets : List (ByteArrayOf 32))
  | prove (sealed : SealedProverRequest)
  | failure (operation : OperationKind) (stage : FailureStage)
deriving DecidableEq

structure OperationProofPayload where
  type : String
  version : UInt8
  requestId : ByteArrayOf 32
  requestDigest : ByteArrayOf 32
  resultDigest : ByteArrayOf 32
  operation : OperationKind
  sealedSeedDigest : ByteArrayOf 32
deriving DecidableEq

structure ReleasePolicy where
  version : UInt8
  releaseId : String
  network : Network
  tvcApplicationId : String
  securityDomainId : ByteArrayOf 32
  acceptedManifestDigests : List String
  acceptedExecutableDigests : List String
  quorumKeyId : String
  quorumKeyEpoch : UInt64
  quorumPublicKey : Bytes
  allowedOperations : List OperationKind
  maxEncryptedRequestBytes : UInt32
  maxEncryptedResponseBytes : UInt32
  turnkeyTrustRootId : String
  turnkeyProofSchemaVersions : List String
  validFromMs : UInt64
  expiresAtMs : UInt64
  revocationEpoch : UInt64
deriving DecidableEq

structure ReleaseAuthoritySignature where
  keyId : String
  signature : Bytes
deriving DecidableEq

structure SignedReleasePolicy where
  policy : ReleasePolicy
  authoritySetId : String
  signatures : List ReleaseAuthoritySignature
deriving DecidableEq

end ZolanaTvc.Protocol
