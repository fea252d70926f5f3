import ZolanaTvc.Borsh.Codec
import ZolanaTvc.Protocol.Auth

/-!
# The QOS envelope

A message to a P-256 key: an ephemeral key agrees with the receiver's on a secret, HMAC-SHA-512 makes a
cipher key of it, and AES-256-GCM seals the plaintext. The envelope carries the nonce, the ephemeral
public key and what was sealed.
-/

namespace ZolanaTvc.Protocol

open Except

def AES_GCM_NONCE_LEN : ℕ := 12

def AES_GCM_TAG_LEN : ℕ := 16

def QOS_ENCRYPTION_HMAC_MESSAGE : Bytes := utf8 "qos_encryption_hmac_message"

/-- What the envelope takes from the crates `p256`, `hmac` and `aes-gcm`, and in the client from the
packages that compute the same. -/
structure QosCrypto extends Crypto where
  /-- `SecretKey::from_slice`, and the uncompressed public key of the secret. -/
  publicKey : Bytes → Option (ByteArrayOf SEC1_UNCOMPRESSED_LEN)
  /-- The x coordinate of the point that a secret and a public key agree on. -/
  ecdhX : Bytes → Bytes → ByteArrayOf 32
  hmacSha512 : Bytes → Bytes → ByteArrayOf 64
  /-- AES-256-GCM, from the key, the nonce, the associated data and the plaintext. -/
  gcmEncrypt : Bytes → Bytes → Bytes → Bytes → Bytes
  /-- `Aes256Gcm::encrypt`, which refuses what the block counter does not reach. -/
  aes256GcmEncrypt : Bytes → Bytes → Bytes → Bytes → Option Bytes
  gcmDecrypt : Bytes → Bytes → Bytes → Bytes → Option Bytes

/-- The longest plaintext that AES-GCM takes, in bytes. -/
def P_MAX : ℕ := 2 ^ 36

/-- What the envelope relies on: key agreement and AES-GCM do what they are for. -/
structure QosCrypto.Sound (c : QosCrypto) : Prop where
  /-- A public key is a point of the curve, in its uncompressed form. -/
  point : ∀ {s k}, c.publicKey s = some k → c.isPoint k.val = true ∧ k.val.head? = some 4
  /-- The two sides of an exchange agree. -/
  symmetric : ∀ {s s' k k'}, c.publicKey s = some k → c.publicKey s' = some k' →
    c.ecdhX s k'.val = c.ecdhX s' k.val
  aes256GcmEncrypt_eq : ∀ key nonce aad m, c.aes256GcmEncrypt key nonce aad m =
    if m.length ≤ P_MAX then some (c.gcmEncrypt key nonce aad m) else none
  length_gcmEncrypt : ∀ key nonce aad m,
    (c.gcmEncrypt key nonce aad m).length = m.length + AES_GCM_TAG_LEN
  gcmDecrypt_gcmEncrypt : ∀ key nonce aad m, m.length ≤ P_MAX →
    c.gcmDecrypt key nonce aad (c.gcmEncrypt key nonce aad m) = some m

structure QosEnvelope where
  nonce : ByteArrayOf AES_GCM_NONCE_LEN
  ephemeralSenderPublic : ByteArrayOf SEC1_UNCOMPRESSED_LEN
  encryptedMessage : Bytes

def QosEnvelope.borsh : Borsh.Codec QosEnvelope :=
  ((Borsh.Codec.fixed AES_GCM_NONCE_LEN).pair <| (Borsh.Codec.fixed SEC1_UNCOMPRESSED_LEN).pair
    Borsh.Codec.bytes).map
    ⟨fun x => (x.1, x.2, x.3), fun (a, b, c) => ⟨a, b, c⟩, fun _ => rfl, fun _ => rfl⟩

/-- The envelope that `qos_decrypt` reads. -/
def QosEnvelope.read (envelopeBytes : Bytes) : Except ErrorCode QosEnvelope := do
  let envelope ← ofOption (Borsh.tryFromSlice QosEnvelope.borsh envelopeBytes) .invalidEncryptedEnvelope
  refuse (envelope.encryptedMessage.length < AES_GCM_TAG_LEN) .invalidEncryptedEnvelope
  return envelope

/-- The envelope that `qos_encrypt_with` returns. -/
def QosEnvelope.write (envelope : QosEnvelope) : Except ErrorCode Bytes := do
  refuse (envelope.encryptedMessage.length < AES_GCM_TAG_LEN) .invalidEncryptedEnvelope
  ofOption (Borsh.toVec QosEnvelope.borsh envelope) .invalidEncryptedEnvelope

def createAad (ephemeralSenderPublic receiverPublic : Bytes) : Except ErrorCode Bytes := do
  refuse (256 ≤ ephemeralSenderPublic.length) .invalidEncryptedEnvelope
  refuse (256 ≤ receiverPublic.length) .invalidEncryptedEnvelope
  return ephemeralSenderPublic ++ [UInt8.ofNat ephemeralSenderPublic.length] ++
    (receiverPublic ++ [UInt8.ofNat receiverPublic.length])

section Implementation

variable (c : QosCrypto)

/-- An HMAC takes a key of any length. -/
def createCipherKey (ephemeralSenderPublic receiverPublic sharedSecret : Bytes) : Bytes :=
  (c.hmacSha512 (ephemeralSenderPublic ++ receiverPublic ++ sharedSecret)
    QOS_ENCRYPTION_HMAC_MESSAGE).val.take 32

/-- QOS `P256Public::encrypt` construction with caller-supplied nonce and ephemeral key. -/
def qosEncryptWith (receiverEncryptionSec1 plaintext : Bytes) (ephemeralSecret : ByteArrayOf 32)
    (nonce : ByteArrayOf AES_GCM_NONCE_LEN) : Except ErrorCode Bytes := do
  let receiver ← parseUncompressedSec1 c.toCrypto receiverEncryptionSec1
  let ephemeralPublic ← ofOption (c.publicKey ephemeralSecret.val) .invalidPublicKey
  let shared := c.ecdhX ephemeralSecret.val receiver
  let cipherKey := createCipherKey c ephemeralPublic.val receiver shared.val
  let aad ← createAad ephemeralPublic.val receiver
  let encryptedMessage ← ofOption (c.aes256GcmEncrypt cipherKey nonce.val aad plaintext)
    .invalidEncryptedEnvelope
  QosEnvelope.write ⟨nonce, ephemeralPublic, encryptedMessage⟩

def qosDecrypt (receiverSecret : ByteArrayOf 32) (envelopeBytes : Bytes) : Except ErrorCode Bytes := do
  let envelope ← QosEnvelope.read envelopeBytes
  let _ ← parseUncompressedSec1 c.toCrypto envelope.ephemeralSenderPublic.val
  let receiverPublic ← ofOption (c.publicKey receiverSecret.val) .invalidPublicKey
  let ephemeralPublic ← parseUncompressedSec1 c.toCrypto envelope.ephemeralSenderPublic.val
  let shared := c.ecdhX receiverSecret.val ephemeralPublic
  let cipherKey :=
    createCipherKey c envelope.ephemeralSenderPublic.val receiverPublic.val shared.val
  let aad ← createAad envelope.ephemeralSenderPublic.val receiverPublic.val
  ofOption (c.gcmDecrypt cipherKey envelope.nonce.val aad envelope.encryptedMessage)
    .invalidEncryptedEnvelope

end Implementation

section Framing

variable {envelope : QosEnvelope} {bytes : Bytes}

/-- The bytes of an envelope, field by field. -/
theorem borsh_eq_some : Borsh.toVec QosEnvelope.borsh envelope = some bytes ↔
    envelope.encryptedMessage.length < 2 ^ 32 ∧
      bytes = envelope.nonce.val ++ (envelope.ephemeralSenderPublic.val ++
        (Borsh.Codec.littleEndian 4 envelope.encryptedMessage.length ++
          envelope.encryptedMessage)) := by
  show (Option.map _ (Option.map _ (Borsh.Codec.bytes.encode envelope.encryptedMessage))) = _ ↔ _
  simp only [Option.map_eq_some_iff, Borsh.Codec.encode_bytes_eq_some]
  constructor
  · rintro ⟨_, ⟨_, ⟨hlength, rfl⟩, rfl⟩, rfl⟩
    exact ⟨hlength, rfl⟩
  · rintro ⟨hlength, rfl⟩
    exact ⟨_, ⟨_, ⟨hlength, rfl⟩, rfl⟩, rfl⟩

theorem write_eq_ok : envelope.write = .ok bytes ↔
    AES_GCM_TAG_LEN ≤ envelope.encryptedMessage.length ∧
      Borsh.toVec QosEnvelope.borsh envelope = some bytes := by
  simp only [QosEnvelope.write, bind_eq_ok, refuse_eq_ok, ofOption_eq_ok, exists_const, not_lt]

/-- What is read is what was written. -/
theorem read_eq_ok : QosEnvelope.read bytes = .ok envelope ↔ envelope.write = .ok bytes := by
  simp only [QosEnvelope.read, bind_eq_ok, refuse_eq_ok, ofOption_eq_ok, pure_eq_ok, exists_const,
    not_lt, write_eq_ok, Borsh.tryFromSlice_eq_some_iff]
  constructor
  · rintro ⟨e, hvec, hlength, rfl⟩
    exact ⟨hlength, hvec⟩
  · rintro ⟨hlength, hvec⟩
    exact ⟨envelope, hvec, hlength, rfl⟩

/-- What binds a message to the two keys. -/
def associatedData (ephemeral receiver : Bytes) : Bytes :=
  ephemeral ++ [UInt8.ofNat ephemeral.length] ++ (receiver ++ [UInt8.ofNat receiver.length])

theorem createAad_eq_ok {sender receiver aad : Bytes} : createAad sender receiver = .ok aad ↔
    sender.length < 256 ∧ receiver.length < 256 ∧ aad = associatedData sender receiver := by
  simp only [createAad, bind_eq_ok, refuse_eq_ok, pure_eq_ok, exists_const, not_le]
  exact and_congr_right fun _ => and_congr_right fun _ => eq_comm

/-- The last byte tells how long the receiver's key is. -/
theorem associatedData_inj {sender sender' receiver receiver' : Bytes}
    (hreceiver : receiver.length < 256) (hreceiver' : receiver'.length < 256)
    (heq : associatedData sender receiver = associatedData sender' receiver') :
    sender = sender' ∧ receiver = receiver' := by
  unfold associatedData at heq
  have htoNat : ∀ {a b : ℕ}, a < 256 → b < 256 → UInt8.ofNat a = UInt8.ofNat b → a = b := by
    intro a b ha hb hab
    rw [← UInt8.toNat_inj, UInt8.toNat_ofNat', UInt8.toNat_ofNat'] at hab
    omega
  have hlast := congrArg List.getLast? heq
  simp only [← List.append_assoc, List.getLast?_concat, Option.some.injEq] at hlast
  have hlength : receiver.length = receiver'.length := htoNat hreceiver hreceiver' hlast
  obtain ⟨hfirst, hsecond⟩ := List.append_inj' heq (by simp [hlength])
  obtain ⟨hsecond, -⟩ := List.append_inj' hsecond rfl
  obtain ⟨hfirst, -⟩ := List.append_inj' hfirst rfl
  exact ⟨hfirst, hsecond⟩

end Framing

section Exchange

variable {c : QosCrypto} {receiverSecret ephemeralSecret : ByteArrayOf 32}
  {receiver ephemeral : ByteArrayOf SEC1_UNCOMPRESSED_LEN} {nonce : ByteArrayOf AES_GCM_NONCE_LEN}
  {plaintext bytes : Bytes}

/-- The envelope of a plaintext from the holder of an ephemeral secret. -/
def QosCrypto.envelope (c : QosCrypto) (ephemeralSecret : ByteArrayOf 32)
    (ephemeral receiver : ByteArrayOf SEC1_UNCOMPRESSED_LEN) (nonce : ByteArrayOf AES_GCM_NONCE_LEN)
    (plaintext : Bytes) : QosEnvelope :=
  { nonce := nonce
    ephemeralSenderPublic := ephemeral
    encryptedMessage := c.gcmEncrypt
      (createCipherKey c ephemeral.val receiver.val (c.ecdhX ephemeralSecret.val receiver.val).val)
      nonce.val (associatedData ephemeral.val receiver.val) plaintext }

theorem createAad_keys : createAad ephemeral.val receiver.val =
    .ok (associatedData ephemeral.val receiver.val) := by
  have hephemeral : ephemeral.val.length = 65 := ephemeral.property
  have hreceiver : receiver.val.length = 65 := receiver.property
  exact createAad_eq_ok.2 ⟨by omega, by omega, rfl⟩

theorem QosCrypto.Sound.parse (sound : c.Sound) {secret : Bytes}
    {key : ByteArrayOf SEC1_UNCOMPRESSED_LEN} (hkey : c.publicKey secret = some key) :
    parseUncompressedSec1 c.toCrypto key.val = .ok key.val := by
  obtain ⟨hpoint, hhead⟩ := sound.point hkey
  have hlength : key.val.length = 65 := key.property
  simp [parseUncompressedSec1, refuse, SEC1_UNCOMPRESSED_LEN, hpoint, hhead, hlength, ok_bind, pure,
    Except.pure]

theorem qosEncryptWith_eq_ok (sound : c.Sound)
    (hreceiver : c.publicKey receiverSecret.val = some receiver)
    (hephemeral : c.publicKey ephemeralSecret.val = some ephemeral) :
    qosEncryptWith c receiver.val plaintext ephemeralSecret nonce = .ok bytes ↔
      plaintext.length ≤ P_MAX ∧
        (c.envelope ephemeralSecret ephemeral receiver nonce plaintext).write = .ok bytes := by
  simp only [qosEncryptWith, sound.parse hreceiver, hephemeral, ofOption_some, ok_bind,
    createAad_keys, sound.aes256GcmEncrypt_eq]
  by_cases hlength : plaintext.length ≤ P_MAX
  · rw [if_pos hlength, ofOption_some, ok_bind, and_iff_right hlength]
    rfl
  · rw [if_neg hlength, ofOption_none, error_bind]
    constructor
    · intro h
      cases h
    · intro h
      exact absurd h.1 hlength

/-- The receiver agrees with the sender on the secret, so that it opens what was sealed. -/
theorem qosDecrypt_of_read (sound : c.Sound)
    (hreceiver : c.publicKey receiverSecret.val = some receiver)
    (hephemeral : c.publicKey ephemeralSecret.val = some ephemeral) (hlength : plaintext.length ≤ P_MAX)
    (hread : QosEnvelope.read bytes =
      .ok (c.envelope ephemeralSecret ephemeral receiver nonce plaintext)) :
    qosDecrypt c receiverSecret bytes = .ok plaintext := by
  have hopen := sound.gcmDecrypt_gcmEncrypt (createCipherKey c ephemeral.val receiver.val
    (c.ecdhX ephemeralSecret.val receiver.val).val) nonce.val
    (associatedData ephemeral.val receiver.val) plaintext hlength
  simp only [qosDecrypt, hread, ok_bind, QosCrypto.envelope, sound.parse hephemeral, hreceiver,
    ofOption_some, createAad_keys, sound.symmetric hreceiver hephemeral, hopen]

end Exchange

end ZolanaTvc.Protocol
