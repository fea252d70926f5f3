import ZolanaTvc.Protocol.Qos
import ZolanaTvc.Wallet.ReleasePolicy

/-!
# The client's QOS envelope

## Main results

* `qosEnvelopes_iff`: both implementations read and write the same envelopes, and open whatever either
  one sealed, exactly if the sealed message is shorter than 4 GiB.
-/

namespace ZolanaTvc.Wallet

open Except Protocol

def ENVELOPE_HEADER_LEN : ℕ := AES_GCM_NONCE_LEN + SEC1_UNCOMPRESSED_LEN + 4

/-- What `decodeQosEnvelope` returns. -/
structure DecodedEnvelope where
  nonce : Bytes
  ephemeralSenderPublic : Bytes
  encryptedMessage : Bytes

/-- A store in a `Uint8Array` keeps the low byte. -/
def aad (ephemeralPublic receiverPublic : Bytes) : Bytes :=
  ephemeralPublic ++ [UInt8.ofNat ephemeralPublic.length] ++
    (receiverPublic ++ [UInt8.ofNat receiverPublic.length])

/-- `setUint32` keeps the low 32 bits. -/
def encodeU32Le (value : ℕ) : Bytes := Borsh.Codec.littleEndian 4 value

def decodeU32Le (bytes : Bytes) (offset : ℕ) : Except Thrown ℕ := do
  refuse (bytes.length < offset + 4) (spr "InvalidEncryptedEnvelope")
  return Borsh.Codec.ofLittleEndian ((bytes.drop offset).take 4)

def encodeQosEnvelope (nonce ephemeralPublic encryptedMessage : Bytes) : Except Thrown Bytes := do
  refuse (nonce.length ≠ AES_GCM_NONCE_LEN ∨ ephemeralPublic.length ≠ SEC1_UNCOMPRESSED_LEN)
    (spr "InvalidEncryptedEnvelope")
  return nonce ++ (ephemeralPublic ++ (encodeU32Le encryptedMessage.length ++ encryptedMessage))

def decodeQosEnvelope (bytes : Bytes) : Except Thrown DecodedEnvelope := do
  refuse (bytes.length < ENVELOPE_HEADER_LEN) (spr "InvalidEncryptedEnvelope")
  let nonce := bytes.take AES_GCM_NONCE_LEN
  let ephemeralSenderPublic := (bytes.take (ENVELOPE_HEADER_LEN - 4)).drop AES_GCM_NONCE_LEN
  let messageLen ← decodeU32Le bytes (ENVELOPE_HEADER_LEN - 4)
  refuse (bytes.length ≠ ENVELOPE_HEADER_LEN + messageLen) (spr "InvalidEncryptedEnvelope")
  let encryptedMessage := bytes.drop ENVELOPE_HEADER_LEN
  refuse (encryptedMessage.length < AES_GCM_TAG_LEN) (spr "InvalidEncryptedEnvelope")
  return ⟨nonce, ephemeralSenderPublic, encryptedMessage⟩

section Implementation

variable (c : QosCrypto)

def cipherKey (ephemeralPublic receiverPublic sharedSecret : Bytes) : Bytes :=
  (c.hmacSha512 (ephemeralPublic ++ receiverPublic ++ sharedSecret)
    QOS_ENCRYPTION_HMAC_MESSAGE).val.take 32

def qosEncryptWith (receiverEncryptionSec1 plaintext ephemeralSecret nonce : Bytes) :
    Except Thrown Bytes := do
  refuse (nonce.length ≠ AES_GCM_NONCE_LEN) (spr "InvalidEncryptedEnvelope")
  let receiver ← parseUncompressedSec1 c.toCrypto receiverEncryptionSec1
  let ephemeralPublic ← ofOption (c.publicKey ephemeralSecret) .platform
  let shared := c.ecdhX ephemeralSecret receiver
  let key := cipherKey c ephemeralPublic.val receiver shared.val
  let associated := aad ephemeralPublic.val receiver
  let encryptedMessage := c.gcmEncrypt key nonce associated plaintext
  encodeQosEnvelope nonce ephemeralPublic.val encryptedMessage

def qosDecrypt (receiverSecret envelopeBytes : Bytes) : Except Thrown Bytes := do
  let envelope ← decodeQosEnvelope envelopeBytes
  let _ ← parseUncompressedSec1 c.toCrypto envelope.ephemeralSenderPublic
  let receiverPublic ← ofOption (c.publicKey receiverSecret) .platform
  let shared := c.ecdhX receiverSecret envelope.ephemeralSenderPublic
  let key := cipherKey c envelope.ephemeralSenderPublic receiverPublic.val shared.val
  let associated := aad envelope.ephemeralSenderPublic receiverPublic.val
  ofOption (c.gcmDecrypt key envelope.nonce associated envelope.encryptedMessage)
    (spr "InvalidEncryptedEnvelope")

end Implementation

section Framing

variable {nonce ephemeral message bytes : Bytes}

theorem encodeQosEnvelope_eq_ok : encodeQosEnvelope nonce ephemeral message = .ok bytes ↔
    nonce.length = AES_GCM_NONCE_LEN ∧ ephemeral.length = SEC1_UNCOMPRESSED_LEN ∧
      bytes = nonce ++ (ephemeral ++ (Borsh.Codec.littleEndian 4 message.length ++ message)) := by
  simp only [encodeQosEnvelope, encodeU32Le, bind_eq_ok, refuse_eq_ok, pure_eq_ok, exists_const,
    not_or, not_not, and_assoc]
  exact and_congr_right fun _ => and_congr_right fun _ => eq_comm

/-- The length field of what is decoded is the length of the message, which it can only be of a
message below 4 GiB. -/
theorem decodeQosEnvelope_eq_ok {envelope : DecodedEnvelope} :
    decodeQosEnvelope bytes = .ok envelope ↔
      encodeQosEnvelope envelope.nonce envelope.ephemeralSenderPublic envelope.encryptedMessage =
          .ok bytes ∧
        AES_GCM_TAG_LEN ≤ envelope.encryptedMessage.length ∧
        envelope.encryptedMessage.length < 2 ^ 32 := by
  -- The parts stand at 0, 12, 77 and 81.
  obtain ⟨nonce, ephemeral, message⟩ := envelope
  simp only [decodeQosEnvelope, decodeU32Le, bind_eq_ok, refuse_eq_ok, pure_eq_ok, exists_const,
    not_lt, not_not, encodeQosEnvelope_eq_ok, DecodedEnvelope.mk.injEq]
  simp only [ENVELOPE_HEADER_LEN, AES_GCM_NONCE_LEN, SEC1_UNCOMPRESSED_LEN, Nat.reduceAdd,
    Nat.reduceSub]
  constructor
  · rintro ⟨hheader, _, ⟨-, rfl⟩, htotal, htag, rfl, rfl, rfl⟩
    have hfield : ((bytes.drop 77).take 4).length = 4 := by simp; omega
    have hmessage : (bytes.drop 81).length =
        Borsh.Codec.ofLittleEndian ((bytes.drop 77).take 4) := by
      rw [List.length_drop]
      omega
    have hlt := Borsh.Codec.ofLittleEndian_lt ((bytes.drop 77).take 4)
    have hwritten := Borsh.Codec.littleEndian_ofLittleEndian ((bytes.drop 77).take 4)
    rw [hfield] at hlt hwritten
    refine ⟨⟨by simp; omega, by simp; omega, ?_⟩, htag, by omega⟩
    -- The four parts are one after the other in `bytes`.
    have hrest : (bytes.drop 77).take 4 ++ bytes.drop 81 = bytes.drop 77 := by
      have htake := List.take_append_drop 4 (bytes.drop 77)
      rwa [List.drop_drop] at htake
    have hfront : bytes.take 12 ++ (bytes.take 77).drop 12 = bytes.take 77 := by
      have htake := List.take_append_drop 12 (bytes.take 77)
      rwa [List.take_take] at htake
    rw [hmessage, hwritten, hrest, ← List.append_assoc, hfront, List.take_append_drop]
  · rintro ⟨⟨hnonce, hephemeral, rfl⟩, htag, hlt⟩
    have hfield : (Borsh.Codec.littleEndian 4 message.length).length = 4 :=
      Borsh.Codec.length_littleEndian 4 _
    have hread := Borsh.Codec.ofLittleEndian_littleEndian (w := 4) hlt
    have hfront : (nonce ++ ephemeral).length = 77 := by simp; omega
    have htake : (nonce ++ ephemeral ++
        (Borsh.Codec.littleEndian 4 message.length ++ message)).take 77 = nonce ++ ephemeral :=
      List.take_left' hfront
    have hdrop : (nonce ++ ephemeral ++ (Borsh.Codec.littleEndian 4 message.length ++ message)).drop 77 =
        Borsh.Codec.littleEndian 4 message.length ++ message := List.drop_left' hfront
    have hmessage : (nonce ++ ephemeral ++
        (Borsh.Codec.littleEndian 4 message.length ++ message)).drop 81 = message := by
      rw [show 81 = 77 + 4 from rfl, ← List.drop_drop, hdrop, List.drop_left' hfield]
    rw [← List.append_assoc, hmessage, hdrop, htake, List.take_left' hfield, hread,
      List.drop_left' hnonce, List.append_assoc nonce, List.take_left' hnonce]
    refine ⟨by simp; omega, _, ⟨by simp; omega, rfl⟩, by simp; omega, htag, rfl, rfl, rfl⟩

/-- The bytes of an envelope. -/
def decoded (envelope : QosEnvelope) : DecodedEnvelope :=
  ⟨envelope.nonce.val, envelope.ephemeralSenderPublic.val, envelope.encryptedMessage⟩

/-- The client writes what the enclave writes, as long as the length field holds the length. -/
theorem encodeQosEnvelope_eq_ok_iff_write {envelope : QosEnvelope}
    (htag : AES_GCM_TAG_LEN ≤ envelope.encryptedMessage.length)
    (hlength : envelope.encryptedMessage.length < 2 ^ 32) :
    encodeQosEnvelope envelope.nonce.val envelope.ephemeralSenderPublic.val
      envelope.encryptedMessage = .ok bytes ↔ envelope.write = .ok bytes := by
  rw [encodeQosEnvelope_eq_ok, write_eq_ok, borsh_eq_some, and_iff_right htag, and_iff_right hlength,
    and_iff_right envelope.nonce.property, and_iff_right envelope.ephemeralSenderPublic.property]

theorem decodeQosEnvelope_eq_ok_iff_read {d : DecodedEnvelope} : decodeQosEnvelope bytes = .ok d ↔
    ∃ envelope, QosEnvelope.read bytes = .ok envelope ∧ decoded envelope = d := by
  rw [decodeQosEnvelope_eq_ok]
  constructor
  · rintro ⟨hencode, htag, hlength⟩
    obtain ⟨hnonce, hephemeral, -⟩ := encodeQosEnvelope_eq_ok.1 hencode
    let envelope : QosEnvelope :=
      ⟨⟨d.nonce, hnonce⟩, ⟨d.ephemeralSenderPublic, hephemeral⟩, d.encryptedMessage⟩
    have hwrite : envelope.write = .ok bytes :=
      (encodeQosEnvelope_eq_ok_iff_write htag hlength).1 hencode
    exact ⟨envelope, read_eq_ok.2 hwrite, rfl⟩
  · rintro ⟨envelope, hread, rfl⟩
    have hwrite := read_eq_ok.1 hread
    obtain ⟨htag, hvec⟩ := write_eq_ok.1 hwrite
    have hlength := (borsh_eq_some.1 hvec).1
    exact ⟨(encodeQosEnvelope_eq_ok_iff_write htag hlength).2 hwrite, htag, hlength⟩

/-- A byte string is the same envelope to both implementations, or to neither. -/
theorem toOption_decodeQosEnvelope :
    (decodeQosEnvelope bytes).toOption = (QosEnvelope.read bytes).toOption.map decoded := by
  cases hread : QosEnvelope.read bytes with
  | ok envelope =>
    rw [decodeQosEnvelope_eq_ok_iff_read.2 ⟨envelope, hread, rfl⟩]
    rfl
  | error e =>
    cases hdecode : decodeQosEnvelope bytes with
    | ok d =>
      obtain ⟨envelope, h, -⟩ := decodeQosEnvelope_eq_ok_iff_read.1 hdecode
      cases hread.symm.trans h
    | error e' => rfl

end Framing

section Exchange

variable {c : QosCrypto} {receiverSecret ephemeralSecret : ByteArrayOf 32}
  {receiver ephemeral : ByteArrayOf SEC1_UNCOMPRESSED_LEN} {plaintext bytes : Bytes}

theorem parse_key (sound : c.Sound) {secret : Bytes} {key : ByteArrayOf SEC1_UNCOMPRESSED_LEN}
    (hkey : c.publicKey secret = some key) :
    parseUncompressedSec1 c.toCrypto key.val = .ok key.val := by
  obtain ⟨hpoint, hhead⟩ := sound.point hkey
  have hlength : key.val.length = 65 := key.property
  simp [parseUncompressedSec1, refuse, SEC1_UNCOMPRESSED_LEN, hpoint, hhead, hlength, ok_bind, pure,
    Except.pure]

theorem qosEncryptWith_eq_ok (sound : c.Sound) {nonce : ByteArrayOf AES_GCM_NONCE_LEN}
    (hreceiver : c.publicKey receiverSecret.val = some receiver)
    (hephemeral : c.publicKey ephemeralSecret.val = some ephemeral) :
    qosEncryptWith c receiver.val plaintext ephemeralSecret.val nonce.val = .ok bytes ↔
      encodeQosEnvelope nonce.val ephemeral.val
        (c.envelope ephemeralSecret ephemeral receiver nonce plaintext).encryptedMessage =
          .ok bytes := by
  simp only [qosEncryptWith, parse_key sound hreceiver, hephemeral, ofOption_some, ok_bind,
    bind_eq_ok, refuse_eq_ok, exists_const, not_not, nonce.property, true_and]
  rfl

theorem qosDecrypt_of_read (sound : c.Sound) {nonce : ByteArrayOf AES_GCM_NONCE_LEN}
    (hreceiver : c.publicKey receiverSecret.val = some receiver)
    (hephemeral : c.publicKey ephemeralSecret.val = some ephemeral) (hlength : plaintext.length ≤ P_MAX)
    (hread : QosEnvelope.read bytes =
      .ok (c.envelope ephemeralSecret ephemeral receiver nonce plaintext)) :
    qosDecrypt c receiverSecret.val bytes = .ok plaintext := by
  have hdecode := decodeQosEnvelope_eq_ok_iff_read.2 ⟨_, hread, rfl⟩
  have hopen := sound.gcmDecrypt_gcmEncrypt (createCipherKey c ephemeral.val receiver.val
    (c.ecdhX ephemeralSecret.val receiver.val).val) nonce.val
    (associatedData ephemeral.val receiver.val) plaintext hlength
  simp only [qosDecrypt, hdecode, ok_bind, decoded, QosCrypto.envelope, parse_key sound hephemeral,
    hreceiver, ofOption_some, sound.symmetric hreceiver hephemeral]
  exact ofOption_eq_ok.2 hopen

/-- What the two implementations owe each other, for a plaintext from one key to another. -/
structure QosEnvelopesAgree (c : QosCrypto) (receiverSecret ephemeralSecret : ByteArrayOf 32)
    (receiver : ByteArrayOf SEC1_UNCOMPRESSED_LEN) (plaintext : Bytes) : Prop where
  /-- A byte string is the same envelope to both, or to neither. -/
  readers : ∀ bytes,
    (decodeQosEnvelope bytes).toOption = (QosEnvelope.read bytes).toOption.map decoded
  /-- What is written is read, and both write the same. -/
  decode_encode : ∀ e : QosEnvelope, AES_GCM_TAG_LEN ≤ e.encryptedMessage.length →
    e.encryptedMessage.length < 2 ^ 32 → ∃ bytes, e.write = .ok bytes ∧
      encodeQosEnvelope e.nonce.val e.ephemeralSenderPublic.val e.encryptedMessage = .ok bytes ∧
      QosEnvelope.read bytes = .ok e ∧ decodeQosEnvelope bytes = .ok (decoded e)
  /-- What is read is what was written. -/
  encode_decode : ∀ bytes,
    (∀ e, QosEnvelope.read bytes = .ok e → e.write = .ok bytes) ∧
    ∀ d, decodeQosEnvelope bytes = .ok d →
      encodeQosEnvelope d.nonce d.ephemeralSenderPublic d.encryptedMessage = .ok bytes
  /-- The associated data is that of these two keys only. -/
  aad_inj : ∀ k₁ k₂ k₁' k₂' : ByteArrayOf SEC1_UNCOMPRESSED_LEN,
    createAad k₁.val k₂.val = createAad k₁'.val k₂'.val ∨
      aad k₁.val k₂.val = aad k₁'.val k₂'.val → k₁ = k₁' ∧ k₂ = k₂'
  /-- Both open what the enclave's implementation encrypts. -/
  fromEnclave : ∀ nonce bytes,
    Protocol.qosEncryptWith c receiver.val plaintext ephemeralSecret nonce = .ok bytes →
      Protocol.qosDecrypt c receiverSecret bytes = .ok plaintext ∧
        qosDecrypt c receiverSecret.val bytes = .ok plaintext
  /-- Both open what the client's implementation encrypts. -/
  fromClient : ∀ nonce bytes,
    qosEncryptWith c receiver.val plaintext ephemeralSecret.val nonce = .ok bytes →
      Protocol.qosDecrypt c receiverSecret bytes = .ok plaintext ∧
        qosDecrypt c receiverSecret.val bytes = .ok plaintext

theorem length_encryptedMessage (sound : c.Sound) {nonce : ByteArrayOf AES_GCM_NONCE_LEN} :
    (c.envelope ephemeralSecret ephemeral receiver nonce plaintext).encryptedMessage.length =
      plaintext.length + AES_GCM_TAG_LEN :=
  sound.length_gcmEncrypt _ _ _ _

/-- A sealed message whose length the length field does not hold is lost. -/
theorem qosDecrypt_ne_ok {nonce ephemeral message : Bytes}
    (hencode : encodeQosEnvelope nonce ephemeral message = .ok bytes)
    (hlength : 2 ^ 32 ≤ message.length) : qosDecrypt c receiverSecret.val bytes ≠ .ok plaintext := by
  intro h
  obtain ⟨d, hdecode, -⟩ := bind_eq_ok.1 h
  obtain ⟨hencode', -, hshort⟩ := decodeQosEnvelope_eq_ok.1 hdecode
  obtain ⟨hnonce, hephemeral, hbytes⟩ := encodeQosEnvelope_eq_ok.1 hencode
  obtain ⟨hnonce', hephemeral', hbytes'⟩ := encodeQosEnvelope_eq_ok.1 hencode'
  -- The message is what is left of the bytes after the header.
  have hsize := congrArg List.length (hbytes.symm.trans hbytes')
  simp only [List.length_append, Borsh.Codec.length_littleEndian] at hsize
  omega

theorem qosEnvelopesAgree (sound : c.Sound)
    (hreceiver : c.publicKey receiverSecret.val = some receiver)
    (hephemeral : c.publicKey ephemeralSecret.val = some ephemeral)
    (hlength : plaintext.length + AES_GCM_TAG_LEN < 2 ^ 32) :
    QosEnvelopesAgree c receiverSecret ephemeralSecret receiver plaintext where
  readers _ := toOption_decodeQosEnvelope
  decode_encode e htag hshort := by
    obtain ⟨bytes, hwrite⟩ : ∃ bytes, e.write = .ok bytes :=
      ⟨_, write_eq_ok.2 ⟨htag, borsh_eq_some.2 ⟨hshort, rfl⟩⟩⟩
    have hread := read_eq_ok.2 hwrite
    exact ⟨bytes, hwrite, (encodeQosEnvelope_eq_ok_iff_write htag hshort).2 hwrite, hread,
      decodeQosEnvelope_eq_ok_iff_read.2 ⟨e, hread, rfl⟩⟩
  encode_decode bytes :=
    ⟨fun _ h => read_eq_ok.1 h, fun _ h => (decodeQosEnvelope_eq_ok.1 h).1⟩
  aad_inj k₁ k₂ k₁' k₂' h := by
    have hkey : ∀ k : ByteArrayOf SEC1_UNCOMPRESSED_LEN, k.val.length < 256 := by
      intro k
      rw [k.property]
      decide
    have heq : associatedData k₁.val k₂.val = associatedData k₁'.val k₂'.val := by
      obtain h | h := h
      · rw [createAad_keys, createAad_keys] at h
        exact Except.ok.inj h
      · exact h
    obtain ⟨h₁, h₂⟩ := associatedData_inj (hkey k₂) (hkey k₂') heq
    exact ⟨Subtype.ext h₁, Subtype.ext h₂⟩
  fromEnclave nonce bytes h := by
    obtain ⟨hmax, hwrite⟩ := (Protocol.qosEncryptWith_eq_ok sound hreceiver hephemeral).1 h
    have hread := read_eq_ok.2 hwrite
    exact ⟨Protocol.qosDecrypt_of_read sound hreceiver hephemeral hmax hread,
      qosDecrypt_of_read sound hreceiver hephemeral hmax hread⟩
  fromClient nonce bytes h := by
    obtain ⟨_, hlength₁₂, -⟩ := bind_eq_ok.1 h
    rw [refuse_eq_ok, not_not] at hlength₁₂
    obtain ⟨nonce, rfl⟩ : ∃ n : ByteArrayOf AES_GCM_NONCE_LEN, n.val = nonce :=
      ⟨⟨nonce, hlength₁₂⟩, rfl⟩
    have hencode := (qosEncryptWith_eq_ok sound hreceiver hephemeral).1 h
    have hsealed : (c.envelope ephemeralSecret ephemeral receiver nonce
        plaintext).encryptedMessage.length = _ := length_encryptedMessage sound
    -- A message of a length field that does not wrap is one that the enclave's reader takes.
    have hmax : plaintext.length ≤ P_MAX := by
      unfold P_MAX
      omega
    have hwrite := (encodeQosEnvelope_eq_ok_iff_write (hsealed ▸ Nat.le_add_left _ _)
      (hsealed ▸ hlength)).1 hencode
    have hread := read_eq_ok.2 hwrite
    exact ⟨Protocol.qosDecrypt_of_read sound hreceiver hephemeral hmax hread,
      qosDecrypt_of_read sound hreceiver hephemeral hmax hread⟩

/-- From 4 GiB on the client encrypts what nobody opens. -/
theorem not_qosEnvelopesAgree (sound : c.Sound)
    (hreceiver : c.publicKey receiverSecret.val = some receiver)
    (hephemeral : c.publicKey ephemeralSecret.val = some ephemeral)
    (hlength : 2 ^ 32 ≤ plaintext.length + AES_GCM_TAG_LEN) :
    ¬QosEnvelopesAgree c receiverSecret ephemeralSecret receiver plaintext := by
  intro agree
  let nonce : ByteArrayOf AES_GCM_NONCE_LEN := ⟨List.replicate 12 0, List.length_replicate⟩
  obtain ⟨bytes, hencode⟩ : ∃ bytes, encodeQosEnvelope nonce.val ephemeral.val
      (c.envelope ephemeralSecret ephemeral receiver nonce plaintext).encryptedMessage = .ok bytes :=
    ⟨_, encodeQosEnvelope_eq_ok.2 ⟨nonce.property, ephemeral.property, rfl⟩⟩
  have hencrypt := (qosEncryptWith_eq_ok sound hreceiver hephemeral).2 hencode
  rw [← length_encryptedMessage sound] at hlength
  exact qosDecrypt_ne_ok hencode hlength (agree.fromClient nonce.val bytes hencrypt).2

/-- Both implementations read and write the same envelopes and open whatever either one encrypted,
exactly if the length of what is sealed fits in the length field. -/
theorem qosEnvelopes_iff (sound : c.Sound)
    (hreceiver : c.publicKey receiverSecret.val = some receiver)
    (hephemeral : c.publicKey ephemeralSecret.val = some ephemeral) :
    QosEnvelopesAgree c receiverSecret ephemeralSecret receiver plaintext ↔
      plaintext.length + AES_GCM_TAG_LEN < 2 ^ 32 := by
  constructor
  · intro agree
    by_contra hlength
    exact not_qosEnvelopesAgree sound hreceiver hephemeral (not_lt.1 hlength) agree
  · exact qosEnvelopesAgree sound hreceiver hephemeral

end Exchange

section Fixture

/-- A byte array of a list of that length. -/
def ofBytes {n : ℕ} (bytes : Bytes) : ByteArrayOf n :=
  if h : bytes.length = n then ⟨bytes, h⟩ else ⟨List.replicate n 0, List.length_replicate⟩

def fixtureReceiverSecret : ByteArrayOf 32 :=
  ofBytes [0x0b, 0x51, 0x12, 0x0c, 0xd7, 0x18, 0x13, 0x1a, 0x4d, 0x33, 0xa0, 0x51, 0x00, 0xf4,
    0xbd, 0xe5, 0xdd, 0x08, 0x3d, 0xda, 0x6c, 0xc3, 0x65, 0xe1, 0x2c, 0x31, 0xf1, 0x3f, 0x5f, 0x76,
    0xa9, 0x65]

def fixtureEphemeralSecret : ByteArrayOf 32 :=
  ofBytes [0xaa, 0xf0, 0xd8, 0x31, 0xd6, 0x98, 0x27, 0xa3, 0xc8, 0x3c, 0x92, 0x9d, 0x70, 0x06,
    0x03, 0x89, 0x7a, 0x76, 0xf3, 0xa7, 0x1c, 0x0f, 0x7d, 0x15, 0xbb, 0xa8, 0x57, 0x01, 0x94, 0xf8,
    0xf5, 0x98]

def fixtureReceiver : ByteArrayOf SEC1_UNCOMPRESSED_LEN :=
  ofBytes [0x04, 0x7c, 0xf3, 0x03, 0x2d, 0xae, 0xd9, 0x51, 0xf3, 0x78, 0x90, 0x0e, 0x42, 0x85,
    0x13, 0x5a, 0xb1, 0x85, 0xba, 0x99, 0xf6, 0xa9, 0x0f, 0x10, 0x7a, 0x30, 0x41, 0x96, 0xc3, 0xa4,
    0x3b, 0x5d, 0xe9, 0x09, 0x83, 0x3f, 0xde, 0x18, 0x10, 0x87, 0xe1, 0xc5, 0x90, 0xec, 0x49, 0x11,
    0x7b, 0x6e, 0x68, 0xf5, 0xa9, 0xc0, 0x1f, 0x3c, 0x44, 0xea, 0x52, 0xf1, 0xa8, 0x46, 0xb6, 0xad,
    0x22, 0xaf, 0x5b]

def fixtureEphemeral : ByteArrayOf SEC1_UNCOMPRESSED_LEN :=
  ofBytes [0x04, 0x71, 0x71, 0x44, 0x31, 0x7d, 0xd7, 0x4a, 0x6e, 0xd1, 0x8d, 0xc1, 0x8a, 0xe4,
    0x07, 0xbe, 0xfa, 0x0b, 0x8d, 0x68, 0x80, 0x42, 0x48, 0x48, 0x87, 0xab, 0x18, 0x6c, 0x39, 0xa2,
    0x0b, 0x10, 0xd2, 0x92, 0x74, 0xde, 0xec, 0x36, 0xd6, 0xbe, 0x20, 0xb8, 0x6e, 0x88, 0x04, 0xda,
    0xfe, 0xe2, 0x6d, 0x75, 0xeb, 0xe2, 0x0b, 0xac, 0x8b, 0xb2, 0xec, 0xa7, 0x56, 0xf6, 0x12, 0x47,
    0x1e, 0xc9, 0x7b]

def fixtureShared : ByteArrayOf 32 :=
  ofBytes [0x30, 0x62, 0xe4, 0x03, 0xe0, 0x54, 0xe8, 0x72, 0x5b, 0xc9, 0x24, 0x49, 0x76, 0xf0,
    0xab, 0x8f, 0x2a, 0x48, 0xe1, 0xb3, 0x93, 0x79, 0xdb, 0xdf, 0x62, 0x0d, 0x93, 0xa1, 0xa3, 0x63,
    0x43, 0x5c]

def fixtureMac : ByteArrayOf 64 :=
  ofBytes [0xc3, 0x23, 0xfc, 0x15, 0x4e, 0xf0, 0x28, 0xb8, 0x78, 0x61, 0x78, 0xa5, 0x8d, 0x31,
    0xd5, 0x2a, 0xd6, 0x86, 0xbc, 0xbf, 0x0d, 0xd4, 0x6c, 0x1f, 0x62, 0xdf, 0x98, 0x8c, 0x62, 0xf5,
    0x59, 0xfc, 0x6c, 0x0c, 0xb2, 0x5b, 0xfc, 0x14, 0xe5, 0x3b, 0xd9, 0x47, 0xd9, 0xc1, 0xb2, 0x98,
    0x35, 0xae, 0xf1, 0x72, 0xe9, 0x7e, 0xe7, 0xf5, 0xd7, 0xdd, 0xe4, 0xbf, 0xef, 0xa4, 0x3a, 0x1a,
    0x6f, 0xee]

def fixtureNonce : ByteArrayOf AES_GCM_NONCE_LEN :=
  ofBytes [0x4d, 0x8f, 0xfa, 0x30, 0xa8, 0x16, 0x07, 0xe2, 0xb6, 0x61, 0x49, 0x4f]

def fixturePlaintext : Bytes := utf8 "qos-envelope-plaintext"

/-- What AES-GCM masks the fixture's plaintext with. -/
def fixtureStream : Bytes :=
  [0xd8, 0x3c, 0x45, 0x2f, 0x73, 0xec, 0x71, 0x06, 0xf1, 0x47, 0xf2, 0x3e, 0x30, 0x69, 0xf1, 0x0e,
    0xc3, 0xec, 0xcb, 0xb9, 0x05, 0x61]

def fixtureTag : ByteArrayOf AES_GCM_TAG_LEN :=
  ofBytes [0x14, 0x07, 0x6c, 0xe4, 0x2d, 0x6b, 0xab, 0xae, 0x47, 0xf6, 0x3d, 0xd4, 0x01, 0x05,
    0x0f, 0x25]

def fixtureSealed : Bytes :=
  [0xa9, 0x53, 0x36, 0x02, 0x16, 0x82, 0x07, 0x63, 0x9d, 0x28, 0x82, 0x5b, 0x1d, 0x19, 0x9d, 0x6f,
    0xaa, 0x82, 0xbf, 0xdc, 0x7d, 0x15, 0x14, 0x07, 0x6c, 0xe4, 0x2d, 0x6b, 0xab, 0xae, 0x47, 0xf6,
    0x3d, 0xd4, 0x01, 0x05, 0x0f, 0x25]

def masked (m : Bytes) : Bytes := m.mapIdx fun i byte => byte ^^^ fixtureStream.getD i 0

theorem length_masked {m : Bytes} : (masked m).length = m.length := List.length_mapIdx

/-- Masking twice gives the plaintext back. -/
theorem masked_masked {m : Bytes} : masked (masked m) = m := by
  refine List.ext_getElem (length_masked.trans length_masked) ?_
  intro i h₁ h₂
  simp only [masked, List.getElem_mapIdx]
  rw [UInt8.xor_assoc, UInt8.xor_self, UInt8.xor_zero]

theorem length_zeroDigest : (List.replicate 32 (0 : UInt8)).length = 32 := List.length_replicate

/-- The keys of the fixture `qos-borsh-envelope`, and AES-GCM as it seals the plaintext there. -/
def fixtureCrypto : QosCrypto where
  sha256 _ := ⟨List.replicate 32 0, length_zeroDigest⟩
  isPoint _ := true
  isSignature _ := true
  isHighS _ := false
  verifyPrehash _ _ _ := true
  publicKey secret :=
    if secret = fixtureReceiverSecret.val then some fixtureReceiver
    else if secret = fixtureEphemeralSecret.val then some fixtureEphemeral
    else none
  ecdhX _ _ := fixtureShared
  hmacSha512 _ _ := fixtureMac
  gcmEncrypt _ _ _ m := masked m ++ fixtureTag.val
  aes256GcmEncrypt _ _ _ m := if m.length ≤ P_MAX then some (masked m ++ fixtureTag.val) else none
  gcmDecrypt _ _ _ s :=
    if s.drop (s.length - AES_GCM_TAG_LEN) = fixtureTag.val then
      some (masked (s.take (s.length - AES_GCM_TAG_LEN)))
    else none

theorem fixtureCrypto_sound : fixtureCrypto.Sound where
  point {s k} h := by
    refine ⟨rfl, ?_⟩
    simp only [fixtureCrypto] at h
    split_ifs at h with hreceiver hephemeral
    · obtain rfl := Option.some.inj h
      rfl
    · obtain rfl := Option.some.inj h
      rfl
  symmetric _ _ := rfl
  aes256GcmEncrypt_eq _ _ _ _ := rfl
  length_gcmEncrypt _ _ _ m := by
    show (masked m ++ fixtureTag.val).length = _
    rw [List.length_append, length_masked, fixtureTag.property]
  gcmDecrypt_gcmEncrypt _ _ _ m _ := by
    have hlength : (masked m ++ fixtureTag.val).length - AES_GCM_TAG_LEN = (masked m).length := by
      rw [List.length_append, fixtureTag.property, Nat.add_sub_cancel]
    simp only [fixtureCrypto, hlength, List.drop_left, List.take_left, if_true, masked_masked]

theorem publicKey_receiver : fixtureCrypto.publicKey fixtureReceiverSecret.val = some fixtureReceiver := rfl

theorem publicKey_ephemeral : fixtureCrypto.publicKey fixtureEphemeralSecret.val = some fixtureEphemeral := by
  show (if fixtureEphemeralSecret.val = fixtureReceiverSecret.val then some fixtureReceiver
    else if fixtureEphemeralSecret.val = fixtureEphemeralSecret.val then some fixtureEphemeral else none) = _
  exact (if_neg (by decide)).trans (if_pos rfl)

/-- The fixture's envelope. -/
theorem encrypt_fixture : Protocol.qosEncryptWith fixtureCrypto fixtureReceiver.val fixturePlaintext
    fixtureEphemeralSecret fixtureNonce = .ok (fixtureNonce.val ++ (fixtureEphemeral.val ++
      (Borsh.Codec.littleEndian 4 38 ++ fixtureSealed))) := by
  have hsealed : masked fixturePlaintext ++ fixtureTag.val = fixtureSealed := by decide +kernel
  refine (Protocol.qosEncryptWith_eq_ok fixtureCrypto_sound publicKey_receiver publicKey_ephemeral).2
    ⟨by decide +kernel, ?_⟩
  refine write_eq_ok.2 ⟨?_, borsh_eq_some.2 ⟨?_, ?_⟩⟩
  · show AES_GCM_TAG_LEN ≤ (masked fixturePlaintext ++ fixtureTag.val).length
    rw [hsealed]
    decide
  · show (masked fixturePlaintext ++ fixtureTag.val).length < 2 ^ 32
    rw [hsealed]
    decide
  · show _ = fixtureNonce.val ++ (fixtureEphemeral.val ++ (Borsh.Codec.littleEndian 4
      (masked fixturePlaintext ++ fixtureTag.val).length ++ (masked fixturePlaintext ++ fixtureTag.val)))
    rw [hsealed]
    rfl

theorem qosEnvelopes_iff_fixture :
    Protocol.qosEncryptWith fixtureCrypto fixtureReceiver.val fixturePlaintext fixtureEphemeralSecret
        fixtureNonce = .ok (fixtureNonce.val ++ (fixtureEphemeral.val ++
          (Borsh.Codec.littleEndian 4 38 ++ fixtureSealed))) ∧
      QosEnvelopesAgree fixtureCrypto fixtureReceiverSecret fixtureEphemeralSecret fixtureReceiver
        fixturePlaintext := by
  have hshort : fixturePlaintext.length + AES_GCM_TAG_LEN < 2 ^ 32 := by decide +kernel
  exact ⟨encrypt_fixture, (qosEnvelopes_iff fixtureCrypto_sound publicKey_receiver
    publicKey_ephemeral).2 hshort⟩

/-- A plaintext of 4 GiB, less a tag. -/
theorem long_plaintext_lost :
    ¬QosEnvelopesAgree fixtureCrypto fixtureReceiverSecret fixtureEphemeralSecret fixtureReceiver
      (List.replicate (2 ^ 32 - AES_GCM_TAG_LEN) 0) := by
  refine not_qosEnvelopesAgree fixtureCrypto_sound publicKey_receiver publicKey_ephemeral ?_
  rw [List.length_replicate]
  decide

end Fixture

end ZolanaTvc.Wallet
