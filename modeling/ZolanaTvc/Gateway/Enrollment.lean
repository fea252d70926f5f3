import ZolanaTvc.Calendar.Gregorian
import ZolanaTvc.Gateway.Handlers
import ZolanaTvc.Protocol.Size

/-!
# Enrollment

The wallet owner signs a message of lines that names the gateway's host and network, the wallet, the
client key and the time. None of the validated fields holds a newline.

## Main results

* `Enrollment.message_inj`: a message tells its fields.
* `Enrollment.verified_of_verify`: an accepted enrollment is fresh and signed for one of the hosts.
-/

namespace ZolanaTvc.Gateway

open Except Json Protocol

namespace Base58

/-- The Bitcoin alphabet. -/
def alphabet : List Char := "123456789ABCDEFGHJKLMNPQRSTUVWXYZabcdefghijkmnopqrstuvwxyz".toList

def encode (bytes : Bytes) : String :=
  let zeros := (bytes.takeWhile fun b => b = 0).length
  let digits := (Nat.digits 58 (Nat.ofDigits 256 (bytes.reverse.map UInt8.toNat))).reverse
  String.ofList (List.replicate zeros '1' ++ digits.map fun d => alphabet.getD d '1')

def decode (text : String) : Option Bytes := do
  let digits ← text.toList.mapM fun ch => alphabet.idxOf? ch
  let zeros := (digits.takeWhile fun d => d = 0).length
  let bytes := (Nat.digits 256 (Nat.ofDigits 58 digits.reverse)).reverse
  return List.replicate zeros 0 ++ bytes.map UInt8.ofNat

end Base58

def STATEMENT : String := "Authorize this client key to use your private wallet."

def MAX_ENROLLMENT_AGE_MS : UInt64 := 300000

/-- Bytes of an exact number. -/
def ofLength (n : ℕ) (bytes : Bytes) : Option (ByteArrayOf n) :=
  if h : bytes.length = n then some ⟨bytes, h⟩ else none

/-- The last millisecond that `chrono` dates. -/
def MAX_TIMESTAMP_MILLIS : ℕ := 8210266876799999

section Config

/-- `char::is_whitespace` -/
def isWhitespace (ch : Char) : Bool :=
  let n := ch.toNat
  decide (9 ≤ n ∧ n ≤ 13 ∨ n = 0x20 ∨ n = 0x85 ∨ n = 0xa0 ∨ n = 0x1680 ∨ 0x2000 ≤ n ∧ n ≤ 0x200a ∨
    n = 0x2028 ∨ n = 0x2029 ∨ n = 0x202f ∨ n = 0x205f ∨ n = 0x3000)

/-- What `Config::validate` asks of the hosts. -/
def validDomains (domains : List String) : Bool :=
  decide (domains ≠ []) && domains.all fun domain =>
    decide (domain ≠ "") && domain.toList.all fun ch => !(isWhitespace ch || decide (ch = '/'))

/-- A lowercase hyphenated UUID. -/
def isCanonicalUuid (value : String) : Bool :=
  let bytes := (utf8 value).map UInt8.toNat
  decide (bytes.length = 36) && bytes.zipIdx.all fun (byte, index) =>
    if index ∈ [8, 13, 18, 23] then decide (byte = 45)
    else decide (48 ≤ byte ∧ byte ≤ 57 ∨ 97 ≤ byte ∧ byte ≤ 102)

end Config

structure Enrollment where
  network : Network
  domains : List String

namespace Enrollment

section Message

/-- The instant, as JavaScript's `Date.prototype.toISOString`. -/
def rfc3339Millis (ms : ℕ) : Option String :=
  if ms < 2 ^ 63 ∧ ms ≤ MAX_TIMESTAMP_MILLIS then some (String.ofList (Calendar.timestamp 4 ms)) else none

/-- The Sign-In With Solana message the wallet owner signs. -/
def message (domain : String) (network : Network) (request : EnrollmentRequest) : Option String := do
  let issuedAt ← rfc3339Millis request.issuedAtMs.toNat
  let expiresAt := request.issuedAtMs.toNat + MAX_ENROLLMENT_AGE_MS.toNat
  guard (expiresAt < 2 ^ 64)
  let expiresAt ← rfc3339Millis expiresAt
  return domain ++ " wants you to sign in with your Solana account:" ++ "\n" ++
    request.solanaAddress ++ "\n" ++ "\n" ++
    STATEMENT ++ "\n" ++ "\n" ++
    "Version: 1" ++ "\n" ++
    "Chain ID: " ++ network.asStr ++ "\n" ++
    "Issued At: " ++ issuedAt ++ "\n" ++
    "Expiration Time: " ++ expiresAt ++ "\n" ++
    "Resources:" ++ "\n" ++
    "- urn:turnkey:organization:" ++ request.organizationId ++ "\n" ++
    "- urn:turnkey:wallet:" ++ request.turnkeyWalletId ++ "\n" ++
    "- urn:zolana-tvc:client-key:" ++ request.clientPublicKey

end Message

section Checks

variable (c : Crypto)
  -- A key parses, and a signature over some bytes verifies under it.
  (verifyStrict : ByteArrayOf 32 → Bytes → ByteArrayOf 64 → Bool)

def solanaPublicKey (address : String) : Option (ByteArrayOf 32) := do
  let bytes ← (Base58.decode address).bind (ofLength 32)
  guard (Base58.encode bytes.val = address)
  return bytes

def clientPublicKey (value : String) : Option (ByteArrayOf SEC1_UNCOMPRESSED_LEN) := do
  let lowercase := value.toList.all fun ch => !decide (65 ≤ ch.toNat ∧ ch.toNat ≤ 90)
  let bytes ← (hexDecode value.toList).bind (ofLength SEC1_UNCOMPRESSED_LEN)
  let _ ← (parseUncompressedSec1 c bytes.val).toOption
  guard (lowercase = true)
  return bytes

def validate (request : EnrollmentRequest) : Except ApiError EnrollmentInput := do
  refuse (isCanonicalUuid request.organizationId = false ∨
    isCanonicalUuid request.turnkeyWalletId = false) .invalidEnrollmentRequest
  let ownerPublicKey ← ofOption (solanaPublicKey request.solanaAddress) .invalidEnrollmentRequest
  let clientPublicKey ← ofOption (clientPublicKey c request.clientPublicKey) .invalidEnrollmentRequest
  return {
    organizationId := request.organizationId
    turnkeyWalletId := request.turnkeyWalletId
    solanaAddress := request.solanaAddress
    ownerPublicKey := ownerPublicKey
    clientPublicKey := clientPublicKey
    issuedAtMs := request.issuedAtMs }

def verifyOwnerSignature (input : EnrollmentInput) (message signatureHex : String) : Bool :=
  match (hexDecode signatureHex.toList).bind (ofLength 64) with
  | some signature => verifyStrict input.ownerPublicKey (utf8 message) signature
  | none => false

/-- The hosts, one after the other, for which the owner may have signed. -/
def verifyDomains (network : Network) (request : EnrollmentRequest) (input : EnrollmentInput) :
    List String → Except ApiError EnrollmentInput
  | [] => .error .invalidOwnerEnrollmentSignature
  | domain :: domains => do
    let message ← ofOption (message domain network request) .invalidEnrollmentRequest
    if verifyOwnerSignature verifyStrict input message request.ownerSignature then return input
    verifyDomains network request input domains

/-- The enrollment the wallet address signed within the last five minutes. -/
def verify (e : Enrollment) (request : EnrollmentRequest) (nowMs : UInt64) :
    Except ApiError EnrollmentInput := do
  refuse (¬(request.issuedAtMs ≤ saturatingAdd nowMs MAX_CLOCK_SKEW_MS ∧
    nowMs.toNat - request.issuedAtMs.toNat ≤ MAX_ENROLLMENT_AGE_MS.toNat)) .staleEnrollment
  let input ← validate c request
  verifyDomains verifyStrict e.network request input e.domains

end Checks

section Lines

variable {c : Crypto} {domain domain' : String} {network network' : Network}
  {request request' : EnrollmentRequest} {issuedAt expiresAt : String}

/-- The lines of a message. -/
def lines (domain : String) (network : Network) (request : EnrollmentRequest)
    (issuedAt expiresAt : String) : List (List Char) :=
  [(domain ++ " wants you to sign in with your Solana account:").toList,
    request.solanaAddress.toList, [], STATEMENT.toList, [], "Version: 1".toList,
    ("Chain ID: " ++ network.asStr).toList, ("Issued At: " ++ issuedAt).toList,
    ("Expiration Time: " ++ expiresAt).toList, "Resources:".toList,
    ("- urn:turnkey:organization:" ++ request.organizationId).toList,
    ("- urn:turnkey:wallet:" ++ request.turnkeyWalletId).toList,
    ("- urn:zolana-tvc:client-key:" ++ request.clientPublicKey).toList]

/-- When a message has its two times, and what they are. -/
def Dated (request : EnrollmentRequest) (issuedAt expiresAt : String) : Prop :=
  request.issuedAtMs.toNat + MAX_ENROLLMENT_AGE_MS.toNat ≤ MAX_TIMESTAMP_MILLIS ∧
    issuedAt = String.ofList (Calendar.timestamp 4 request.issuedAtMs.toNat) ∧
    expiresAt = String.ofList
      (Calendar.timestamp 4 (request.issuedAtMs.toNat + MAX_ENROLLMENT_AGE_MS.toNat))

/-- A message is its lines. -/
theorem lines_of_message {m : String} (h : message domain network request = some m) :
    ∃ issuedAt expiresAt, Dated request issuedAt expiresAt ∧
      m.toList = ['\n'].intercalate (lines domain network request issuedAt expiresAt) := by
  have hguard : ∀ {p : Prop} [Decidable p] {u : Unit}, guard p = some u ↔ p := by
    intro p _ u
    by_cases hp : p <;> simp [guard, hp]
  simp only [message, rfc3339Millis, Option.bind_eq_bind, Option.bind_eq_some_iff, hguard,
    Option.pure_def, Option.some.injEq, exists_const, ite_eq_iff, reduceCtorEq, and_false, or_false]
    at h
  obtain ⟨issuedAt, ⟨-, hissuedAt⟩, -, expiresAt, ⟨⟨-, hbound⟩, hexpiresAt⟩, rfl⟩ := h
  have hnewline : "\n".toList = ['\n'] := rfl
  refine ⟨issuedAt, expiresAt, ⟨hbound, hissuedAt.symm, hexpiresAt.symm⟩, ?_⟩
  simp only [lines, List.intercalate, List.intersperse, List.flatten_cons, List.flatten_nil,
    String.toList_append, hnewline, List.append_assoc, List.append_nil, List.nil_append]

/-- A time that can be dated has a message. -/
theorem message_eq_some (domain : String) (network : Network)
    (h : request.issuedAtMs.toNat + 300000 ≤ MAX_TIMESTAMP_MILLIS) :
    ∃ m, message domain network request = some m := by
  have hbound : MAX_TIMESTAMP_MILLIS = 8210266876799999 := rfl
  have hage : MAX_ENROLLMENT_AGE_MS.toNat = 300000 := rfl
  rw [hbound] at h
  have hdated : ∀ ms : ℕ, ms ≤ 8210266876799999 →
      rfc3339Millis ms = some (String.ofList (Calendar.timestamp 4 ms)) := by
    intro ms hms
    exact if_pos ⟨by omega, hms⟩
  have hguard : guard (request.issuedAtMs.toNat + 300000 < 2 ^ 64) = some () := if_pos (by omega)
  simp only [message, hage, hdated request.issuedAtMs.toNat (by omega), hdated _ h, hguard,
    Option.bind_eq_bind, Option.bind_some, Option.pure_def]
  exact ⟨_, rfl⟩

theorem mem_utf8 {s : String} {ch : Char} (hch : ch ∈ s.toList) (hascii : ch.toNat < 128) :
    UInt8.ofNat ch.toNat ∈ utf8 s := by
  obtain ⟨before, after, hs⟩ := List.append_of_mem hch
  have hstring : s = String.ofList before ++ String.ofList [ch] ++ String.ofList after := by
    rw [← String.toList_inj]
    simp [hs]
  have hsingle : utf8 (String.ofList [ch]) = [UInt8.ofNat ch.toNat] := by
    rw [utf8_ascii (by simpa using hascii)]
    simp
  rw [hstring, utf8_append, utf8_append, hsingle]
  exact List.mem_append_left _ (List.mem_append_right _ List.mem_cons_self)

/-- The text has no line break. -/
def SingleLine (s : List Char) : Prop := ∀ ch ∈ s, ch ≠ '\n' ∧ ch ≠ '\r'

theorem SingleLine.append {s t : List Char} (hs : SingleLine s) (ht : SingleLine t) :
    SingleLine (s ++ t) := List.forall_mem_append.2 ⟨hs, ht⟩

theorem SingleLine.newline_notMem {s : List Char} (h : SingleLine s) : '\n' ∉ s :=
  fun hmem => (h _ hmem).1 rfl

theorem singleLine_uuid {s : String} (h : isCanonicalUuid s = true) : SingleLine s.toList := by
  simp only [isCanonicalUuid, Bool.and_eq_true, List.all_eq_true] at h
  have hbytes : ∀ byte ∈ (utf8 s).map UInt8.toNat, byte ≠ 10 ∧ byte ≠ 13 := by
    intro byte hbyte
    obtain ⟨index, hindex⟩ := List.mem_iff_getElem?.1 hbyte
    have hchecked := h.2 (byte, index) (List.mk_mem_zipIdx_iff_getElem?.2 hindex)
    dsimp only at hchecked
    split_ifs at hchecked <;> simp only [decide_eq_true_eq] at hchecked <;> omega
  intro ch hmem
  constructor
  · rintro rfl
    exact (hbytes _ (List.mem_map_of_mem (mem_utf8 hmem (by decide)))).1 rfl
  · rintro rfl
    exact (hbytes _ (List.mem_map_of_mem (mem_utf8 hmem (by decide)))).2 rfl

theorem singleLine_hex {s : List Char} {b : Bytes} (h : hexDecode s = some b) : SingleLine s := by
  induction s using hexDecode.induct generalizing b with
  | case1 => exact List.forall_mem_nil _
  | case2 ch => cases h
  | case3 x y s ih =>
    simp only [hexDecode, Option.bind_eq_bind, Option.bind_eq_some_iff] at h
    obtain ⟨d, hd, e, he, b, hb, -⟩ := h
    have hdigit : ∀ {ch : Char} {d : Fin 16}, hexValue ch.toNat = some d → ch ≠ '\n' ∧ ch ≠ '\r' := by
      intro ch d hd
      constructor <;> rintro rfl <;> cases hd
    exact List.forall_mem_cons.2 ⟨hdigit hd, List.forall_mem_cons.2 ⟨hdigit he, ih hb⟩⟩

theorem singleLine_base58 (b : Bytes) : SingleLine (Base58.encode b).toList := by
  have halphabet : ∀ d : ℕ, Base58.alphabet.getD d '1' ≠ '\n' ∧ Base58.alphabet.getD d '1' ≠ '\r' := by
    intro d
    rw [List.getD_eq_getElem?_getD]
    cases h : Base58.alphabet[d]? with
    | none => exact ⟨by decide, by decide⟩
    | some ch =>
      exact ⟨ne_of_mem_of_not_mem (List.mem_of_getElem? h) (by decide),
        ne_of_mem_of_not_mem (List.mem_of_getElem? h) (by decide)⟩
  rw [Base58.encode, String.toList_ofList]
  refine SingleLine.append ?_ (List.forall_mem_map.2 fun d _ => halphabet d)
  intro ch hch
  rw [List.eq_of_mem_replicate hch]
  exact ⟨by decide, by decide⟩

theorem singleLine_domain {domains : List String} (h : validDomains domains = true)
    (hdomain : domain ∈ domains) : SingleLine domain.toList := by
  simp only [validDomains, Bool.and_eq_true, List.all_eq_true] at h
  intro ch hmem
  have hchecked := (h.2 domain hdomain).2 ch hmem
  constructor
  · rintro rfl
    exact absurd hchecked (by decide)
  · rintro rfl
    exact absurd hchecked (by decide)

/-- The texts of a validated request have no line break. -/
structure SingleLined (request : EnrollmentRequest) : Prop where
  address : SingleLine request.solanaAddress.toList
  organization : SingleLine request.organizationId.toList
  wallet : SingleLine request.turnkeyWalletId.toList
  clientKey : SingleLine request.clientPublicKey.toList

theorem singleLined_of_validate {input : EnrollmentInput} (h : validate c request = .ok input) :
    SingleLined request := by
  simp only [validate, bind_eq_ok, refuse_eq_ok, exists_const, not_or, Bool.not_eq_false,
    ofOption_eq_ok] at h
  obtain ⟨⟨horganization, hwallet⟩, owner, howner, client, hclient, -⟩ := h
  simp only [solanaPublicKey, Option.bind_eq_bind, Option.bind_eq_some_iff] at howner
  obtain ⟨bytes, -, _, haddress, -⟩ := howner
  simp only [clientPublicKey, Option.bind_eq_bind, Option.bind_eq_some_iff] at hclient
  obtain ⟨_, ⟨_, hhex, -⟩, -⟩ := hclient
  have haddress' : Base58.encode bytes.val = request.solanaAddress := by
    by_contra hne
    rw [guard, if_neg hne] at haddress
    cases haddress
  exact ⟨haddress' ▸ singleLine_base58 _, singleLine_uuid horganization, singleLine_uuid hwallet,
    singleLine_hex hhex⟩

theorem newline_notMem_lines (hdomain : SingleLine domain.toList) (h : SingleLined request)
    (hdated : Dated request issuedAt expiresAt) :
    ∀ l ∈ lines domain network request issuedAt expiresAt, '\n' ∉ l := by
  obtain ⟨-, rfl, rfl⟩ := hdated
  have hnetwork : ∀ n : Network, '\n' ∉ n.asStr.toList := by
    rintro (_ | _) <;> decide
  have happend : ∀ {s : String} {cs : List Char}, '\n' ∉ s.toList → '\n' ∉ cs →
      '\n' ∉ s.toList ++ cs := fun hs hcs => List.not_mem_append hs hcs
  simp only [lines, List.forall_mem_cons, String.toList_append, String.toList_ofList]
  refine ⟨happend hdomain.newline_notMem (by decide), h.address.newline_notMem, by decide, by decide,
    by decide, by decide,
    happend (by decide) (hnetwork _), happend (by decide) (Calendar.newline_notMem_timestamp _ _),
    happend (by decide) (Calendar.newline_notMem_timestamp _ _), by decide,
    happend (by decide) h.organization.newline_notMem, happend (by decide) h.wallet.newline_notMem,
    happend (by decide) h.clientKey.newline_notMem, by simp⟩

/-- A message tells its fields. -/
theorem message_inj {m : String} (hdomain : SingleLine domain.toList) (hdomain' : SingleLine domain'.toList)
    (hvalid : SingleLined request) (hvalid' : SingleLined request')
    (h : message domain network request = some m) (h' : message domain' network' request' = some m) :
    domain = domain' ∧ network = network' ∧ request.solanaAddress = request'.solanaAddress ∧
      request.organizationId = request'.organizationId ∧
      request.turnkeyWalletId = request'.turnkeyWalletId ∧
      request.clientPublicKey = request'.clientPublicKey ∧
      request.issuedAtMs = request'.issuedAtMs := by
  obtain ⟨issuedAt, expiresAt, hdated, hm⟩ := lines_of_message h
  obtain ⟨issuedAt', expiresAt', hdated', hm'⟩ := lines_of_message h'
  -- No field breaks a line, so that the text splits back into the lines it was made of.
  have hlines : lines domain network request issuedAt expiresAt =
      lines domain' network' request' issuedAt' expiresAt' := by
    rw [← List.splitOn_intercalate '\n' (newline_notMem_lines hdomain hvalid hdated) (by simp [lines]),
      ← hm, hm', List.splitOn_intercalate '\n' (newline_notMem_lines hdomain' hvalid' hdated')
      (by simp [lines])]
  have hback : ∀ {a b : String} (s : String), (a ++ s).toList = (b ++ s).toList → a = b := by
    intro a b s h
    rw [String.toList_append, String.toList_append] at h
    exact String.toList_inj.1 (List.append_cancel_right h)
  have hfront : ∀ (s : String) {a b : String}, (s ++ a).toList = (s ++ b).toList → a = b := by
    intro s a b h
    rw [String.toList_append, String.toList_append] at h
    exact String.toList_inj.1 (List.append_cancel_left h)
  have hnetworks : Function.Injective Network.asStr := by
    rintro (_ | _) (_ | _) h <;> first | rfl | exact absurd h (by decide)
  rw [lines, lines] at hlines
  simp only [List.cons.injEq, true_and, and_true] at hlines
  -- Line by line: the fixed words before or after a field are cut off. The expiry follows from the
  -- time of issue.
  obtain ⟨h1, h2, h3, h4, -, h5, h6, h7⟩ := hlines
  refine ⟨hback _ h1, hnetworks (hfront _ h3), String.toList_inj.1 h2, hfront _ h5, hfront _ h6,
    hfront _ h7, UInt64.toNat_inj.1 (Calendar.timestamp_injective 4 ?_)⟩
  have hissued := hfront _ h4
  rw [hdated.2.1, hdated'.2.1] at hissued
  exact String.ofList_injective hissued

end Lines

section Verify

variable {c : Crypto} {verifyStrict : ByteArrayOf 32 → Bytes → ByteArrayOf 64 → Bool}
  {request : EnrollmentRequest} {input : EnrollmentInput}

/-- One of the hosts has a message that the owner signed. -/
theorem signed_of_verifyDomains {network : Network} {domains : List String} {result : EnrollmentInput}
    (h : verifyDomains verifyStrict network request input domains = .ok result) :
    result = input ∧ ∃ domain ∈ domains, ∃ m, message domain network request = some m ∧
      verifyOwnerSignature verifyStrict input m request.ownerSignature = true := by
  induction domains with
  | nil => cases h
  | cons domain domains ih =>
    rw [verifyDomains, bind_eq_ok] at h
    obtain ⟨m, hm, h⟩ := h
    rw [ofOption_eq_ok] at hm
    by_cases hsigned : verifyOwnerSignature verifyStrict input m request.ownerSignature = true
    · rw [if_pos hsigned] at h
      exact ⟨(Except.ok.inj h).symm, domain, List.mem_cons_self, m, hm, hsigned⟩
    · rw [if_neg hsigned] at h
      obtain ⟨rfl, domain', hmem, hrest⟩ := ih h
      exact ⟨rfl, domain', List.mem_cons_of_mem _ hmem, hrest⟩

/-- What an accepted enrollment is. -/
structure Verified (c : Crypto) (verifyStrict : ByteArrayOf 32 → Bytes → ByteArrayOf 64 → Bool)
    (e : Enrollment) (request : EnrollmentRequest) (now : ℕ) (input : EnrollmentInput) : Prop where
  notAhead : request.issuedAtMs.toNat ≤ now + 60000
  notStale : now ≤ request.issuedAtMs.toNat + 300000
  valid : validate c request = .ok input
  signed : ∃ domain ∈ e.domains, ∃ m, message domain e.network request = some m ∧
    verifyOwnerSignature verifyStrict input m request.ownerSignature = true

/-- An accepted enrollment is fresh and signed for one of the hosts. -/
theorem verified_of_verify {e : Enrollment} {now : UInt64}
    (h : verify c verifyStrict e request now = .ok input) :
    Verified c verifyStrict e request now.toNat input := by
  simp only [verify, bind_eq_ok, refuse_eq_ok, exists_const, not_not] at h
  obtain ⟨⟨hahead, hstale⟩, input', hvalid, h⟩ := h
  obtain ⟨rfl, hsigned⟩ := signed_of_verifyDomains h
  have hskew : MAX_CLOCK_SKEW_MS.toNat = 60000 := rfl
  have hage : MAX_ENROLLMENT_AGE_MS.toNat = 300000 := rfl
  rw [← UInt64.not_lt, ← gt_iff_lt, lt_saturatingAdd_iff, hskew] at hahead
  rw [hage] at hstale
  exact ⟨by omega, by omega, hvalid, hsigned⟩

end Verify

end Enrollment

end ZolanaTvc.Gateway
