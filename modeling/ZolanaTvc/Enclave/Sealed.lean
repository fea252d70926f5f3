import ZolanaTvc.Borsh.Codec
import ZolanaTvc.Enclave.State

/-!
# The sealed derivation seed
-/

namespace ZolanaTvc.Enclave

open Protocol Except

variable {N V : Type}

def DERIVATION_SUITE : String := "spr-ed25519-role-expansion-v1"

/-- The wallet's privacy roles for one request. -/
structure Roles (N V : Type) where
  owner : ByteArrayOf 32
  nullifierKey : N
  viewingKey : V
deriving DecidableEq

structure ShieldedAddress where
  signingPubkey : ByteArrayOf 32
  nullifierPubkey : ByteArrayOf 32
  viewingPubkey : Bytes
deriving DecidableEq

/-- `seed` must be the wallet key's signature over its derivation message. -/
def Roles.fromSeed (k : Keypair N V) (ed25519PublicKey : ByteArrayOf 32) (seed : ByteArrayOf 64) :
    Except Failure (Roles N V) := do
  let message := k.derivationMessage ed25519PublicKey
  refuse (k.verifyMessage ed25519PublicKey message seed = false) .invalid
  let (nullifierKey, viewingKey) ← ofOption (k.expandRoles seed) .invalid
  return ⟨ed25519PublicKey, nullifierKey, viewingKey⟩

def Roles.address (k : Keypair N V) (roles : Roles N V) : Except Failure ShieldedAddress := do
  let nullifierPubkey ← ofOption (k.nullifierPubkey roles.nullifierKey) .unavailable
  return ⟨roles.owner, nullifierPubkey, k.viewingPubkey roles.viewingKey⟩

/-- Borsh contents of the sealed seed. -/
structure UnsealedSeed where
  version : UInt8
  quorumKeyId : String
  quorumKeyEpoch : UInt64
  walletBinding : ByteArrayOf 32
  derivationSuite : String
  derivationSeed : ByteArrayOf 64

def borshString : Borsh.Codec String :=
  Borsh.Codec.bytes.refine utf8 fromUtf8 fromUtf8_utf8 fun _ _ => utf8_of_fromUtf8

def UnsealedSeed.borsh : Borsh.Codec UnsealedSeed :=
  (Borsh.Codec.u8.pair <| borshString.pair <| Borsh.Codec.u64.pair <|
    (Borsh.Codec.fixed 32).pair <| borshString.pair <| Borsh.Codec.fixed 64).map
    ⟨fun x => (x.1, x.2, x.3, x.4, x.5, x.6), fun (a, b, c, d, e, f) => ⟨a, b, c, d, e, f⟩,
      fun _ => rfl, fun _ => rfl⟩

def SealedSeed.borsh : Borsh.Codec SealedSeed :=
  (Borsh.Codec.u8.pair <| borshString.pair <| Borsh.Codec.u64.pair <|
    (Borsh.Codec.fixed 32).pair <| Borsh.Codec.bytes).map
    ⟨fun x => (x.1, x.2, x.3, x.4, x.5), fun (a, b, c, d, e) => ⟨a, b, c, d, e⟩,
      fun _ => rfl, fun _ => rfl⟩

/-- Seals `seed` for the wallet a request names. Returns the wire bytes and their digest. -/
def Sealed.seal (request : OperationRequest) (runtime : Runtime N V) (entropy : Bytes)
    (seed : ByteArrayOf 64) : Except Failure (Bytes × ByteArrayOf 32) := do
  let sha256 := runtime.crypto.sha256
  let walletBinding ← ofOption (walletBindingDigest sha256 request.walletDescriptor) .invalid
  let contents : UnsealedSeed :=
    { version := API_VERSION
      quorumKeyId := request.quorumKeyId
      quorumKeyEpoch := request.quorumKeyEpoch
      walletBinding := walletBinding
      derivationSuite := DERIVATION_SUITE
      derivationSeed := seed }
  let plaintext ← ofOption (Borsh.toVec UnsealedSeed.borsh contents) .unavailable
  let ciphertext ← ofOption (runtime.quorum.encrypt entropy plaintext) .unavailable
  let sealedSeed : SealedSeed :=
    { version := API_VERSION
      quorumKeyId := contents.quorumKeyId
      quorumKeyEpoch := contents.quorumKeyEpoch
      walletIdHash := walletIdHash sha256 request.walletDescriptor.walletId
      ciphertext := ciphertext }
  let bytes ← ofOption (Borsh.toVec SealedSeed.borsh sealedSeed) .unavailable
  return (bytes, sealedSeedDigest sha256 bytes)

/-- Unseals the request's seed into the wallet's roles. Returns the roles and the sealed-seed
digest. -/
def Sealed.unseal (request : OperationRequest) (runtime : Runtime N V) :
    Except Failure (Roles N V × ByteArrayOf 32) := do
  let sha256 := runtime.crypto.sha256
  let bytes ← ofOption request.sealedSeed .invalid
  let sealedSeed ← ofOption (Borsh.tryFromSlice SealedSeed.borsh bytes) .invalid
  let descriptor := request.walletDescriptor
  refuse (sealedSeed.version ≠ API_VERSION ∨ sealedSeed.quorumKeyId ≠ request.quorumKeyId ∨
    sealedSeed.quorumKeyEpoch ≠ request.quorumKeyEpoch ∨
    sealedSeed.walletIdHash ≠ walletIdHash sha256 descriptor.walletId) .invalid
  -- What is sealed inside repeats the envelope, and only it can be trusted.
  let plaintext ← ofOption (runtime.quorum.decrypt sealedSeed.ciphertext) .invalid
  let contents ← ofOption (Borsh.tryFromSlice UnsealedSeed.borsh plaintext) .invalid
  let owner ← ofOption (runtime.keys.pubkeyFromStr descriptor.address) .invalid
  refuse (contents.version ≠ API_VERSION ∨ contents.quorumKeyId ≠ sealedSeed.quorumKeyId ∨
    contents.quorumKeyEpoch ≠ sealedSeed.quorumKeyEpoch) .invalid
  let walletBinding ← ofOption (walletBindingDigest sha256 descriptor) .invalid
  refuse (contents.walletBinding ≠ walletBinding ∨
    contents.derivationSuite ≠ DERIVATION_SUITE) .invalid
  let roles ← Roles.fromSeed runtime.keys owner contents.derivationSeed
  return (roles, sealedSeedDigest sha256 bytes)

/-- Derives the shielded identity from the custodian's signature over the wallet's derivation message
and seals the seed to the quorum key. -/
def Bootstrap.run (request : OperationRequest) (wallet : WalletKey) (runtime : Runtime N V)
    (env : Environment) : Except Failure (OperationResult × ByteArrayOf 32) := do
  let message := runtime.keys.derivationMessage wallet.publicKey
  let signed ← (env.custody wallet message request.issuedAtMs).mapError CustodyError.failure
  let roles ← expect (Roles.fromSeed runtime.keys wallet.publicKey signed.signature) .unavailable
  let address ← roles.address runtime.keys
  let (sealedSeed, digest) ← Sealed.seal request runtime env.entropy signed.signature
  let ownerHash ← ofOption (runtime.keys.ownerHash address.signingPubkey address.nullifierPubkey
    address.viewingPubkey) .unavailable
  return (.bootstrap wallet.signWith ownerHash address.nullifierPubkey address.viewingPubkey
    sealedSeed signed.activityId, digest)

end ZolanaTvc.Enclave
