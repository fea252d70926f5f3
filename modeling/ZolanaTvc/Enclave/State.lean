import ZolanaTvc.Protocol.Auth

/-!
# The state of an enclave

What an enclave holds for every request, and what one request meets: the readings of the clock, the
custodian's answer and the randomness. The crates of the key library are a parameter.
-/

namespace ZolanaTvc.Enclave

open Protocol

/-- How an operation did not produce a result. -/
inductive Failure where
  /-- The request is malformed or not authorized. -/
  | invalid
  /-- The request is authorized by a descriptor that has expired. -/
  | descriptorExpired
  /-- The enclave cannot serve. -/
  | unavailable
  /-- The operation ran and failed at a named stage. -/
  | stage (stage : FailureStage)
deriving DecidableEq

/-- The Turnkey key a descriptor names. -/
structure WalletKey where
  organizationId : String
  signWith : String
  publicKey : ByteArrayOf 32
deriving DecidableEq

inductive CustodyError where
  /-- The custodian could not be reached or answered unusably. -/
  | unavailable
  /-- The custodian declined to sign. -/
  | declined
deriving DecidableEq

def CustodyError.failure : CustodyError → Failure
  | .unavailable => .unavailable
  | .declined => .stage .turnkeySigning

structure RawSignature where
  /-- The signature over the bootstrap message, which is the wallet's derivation seed. -/
  signature : ByteArrayOf 64
  activityId : String

/-- What the enclave takes from the crates `spr_keypair`, `spr_transaction` and `solana_pubkey`, over
nullifier keys `N` and viewing keys `V`. -/
structure Keypair (N V : Type) where
  pubkeyFromStr : String → Option (ByteArrayOf 32)
  derivationMessage : ByteArrayOf 32 → Bytes
  verifyMessage : ByteArrayOf 32 → Bytes → ByteArrayOf 64 → Bool
  expandRoles : ByteArrayOf 64 → Option (N × V)
  nullifierPubkey : N → Option (ByteArrayOf 32)
  nullifierSecret : N → Bytes
  viewingPubkey : V → Bytes
  ownerHash : ByteArrayOf 32 → ByteArrayOf 32 → Bytes → Option (ByteArrayOf 32)
  isX25519 : ByteArrayOf 33 → Bool
  decryptUtxo : V → Bytes → ByteArrayOf 33 → ByteArrayOf 16 → UInt32 → Option Bytes
  decryptRingDeposit : V → Bytes → ByteArrayOf 33 → ByteArrayOf 16 → Option Bytes
  nullifier : N → ByteArrayOf 32 → ByteArrayOf 32 → Option (ByteArrayOf 32)
  mergeDummyNullifier : N → ByteArrayOf 32 → UInt8 → Option (ByteArrayOf 32)
  mergeOutputBlinding : N → ByteArrayOf 32 → Option (ByteArrayOf 32)
  mergePrivateTxBlinding : N → ByteArrayOf 32 → Option (ByteArrayOf 32)
  mergeOutputKey : N → ByteArrayOf 32 → Option (ByteArrayOf 32)
  transactionViewingKey : V → ByteArrayOf 32 → Option (ByteArrayOf 32)

/-- The key of Turnkey that a descriptor names. -/
def WalletKey.Names {N V : Type} (k : Keypair N V) (w : WalletKey) (d : WalletDescriptor) : Prop :=
  w.organizationId = d.turnkeyOrganizationId ∧ w.signWith = d.address ∧
    k.pubkeyFromStr d.address = some w.publicKey

/-- An encryption key pair. What it encrypts, with any randomness, it decrypts. -/
structure QuorumPair where
  encrypt : Bytes → Bytes → Option Bytes
  decrypt : Bytes → Option Bytes
  decrypt_encrypt : ∀ r p c, encrypt r p = some c → decrypt c = some p

/-- A signing key pair. `sign` is the low-S signature of `sign_ephemeral_low_s`. -/
structure EphemeralPair where
  publicKey : Bytes
  sign : Bytes → Option Bytes

/-- The verification of `spr_prover_tee` under the image's policy signers and vendor roots, and the
encryption to an attested prover: of a method, a target and a body, with some randomness. -/
structure ProverTrust where
  attestedKey : ProverSealing → UInt64 → Option (ByteArrayOf 32)
  encrypt : Bytes → ByteArrayOf 32 → String → String → Bytes →
    Option (ByteArrayOf 32 × Bytes × ByteArrayOf 32)

variable (N V : Type)

/-- Everything a running enclave needs to answer an operation. -/
structure Runtime where
  crypto : Crypto
  keys : Keypair N V
  ephemeral : EphemeralPair
  quorum : QuorumPair
  /-- Signs wallet descriptors. -/
  provisioningPublic : ByteArrayOf 65
  /-- Signs wallet grants. -/
  grantPublic : ByteArrayOf 65
  prover : ProverTrust
  /-- `qos_encrypt`: to a public key, a message, with some randomness. -/
  qosEncrypt : Bytes → Bytes → Bytes → Option Bytes

structure AppState where
  info : ServiceInfo
  runtime : Runtime N V

/-- What one request meets. -/
structure Environment where
  /-- The readings of the clock; none when it is unreadable. -/
  clock : ℕ → Option UInt64
  /-- The answer of the custodian to a wallet key, a payload and a timestamp. -/
  custody : WalletKey → Bytes → UInt64 → Except CustodyError RawSignature
  /-- Whether the bootstrap outlasts a deadline of so many milliseconds. -/
  outlasts : ℕ → Bool
  entropy : Bytes

variable {N V}

def Environment.nowMs (env : Environment) (reading : ℕ) : Except Failure UInt64 :=
  .ofOption (env.clock reading) .unavailable

@[simp] theorem Environment.nowMs_eq_ok {env : Environment} {n : ℕ} {t : UInt64} :
    env.nowMs n = .ok t ↔ env.clock n = some t :=
  Except.ofOption_eq_ok

end ZolanaTvc.Enclave
