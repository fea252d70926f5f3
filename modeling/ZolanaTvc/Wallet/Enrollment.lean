import ZolanaTvc.Gateway.Enrollment
import ZolanaTvc.Wallet.Digest

/-!
# Enrollment of the client

The client writes the message that its wallet owner signs from the fields it sends, and the gateway
writes it again from those it received.

## Main results

* `Enrollment.walletEnrollmentMessage_of_message`: the two write the same message.
* `Enrollment.enrollment_message_agrees`: the message tells its fields, and an accepted enrollment is
  one the wallet owner signed.
-/

namespace ZolanaTvc.Wallet.Enrollment

open Except Json Protocol

open Gateway (EnrollmentRequest EnrollmentInput validDomains)

section Message

def WALLET_ENROLLMENT_STATEMENT : String := "Authorize this client key to use your private wallet."

def ENROLLMENT_LIFETIME_MS : ℤ := 5 * 60 * 1000

/-- `9999-12-31T23:59:59.999Z` less the lifetime. -/
def MAX_ISSUED_AT_MS : ℤ := 253402300799999 - ENROLLMENT_LIFETIME_MS

structure WalletEnrollment where
  domain : JsString
  network : JsString
  organizationId : JsString
  turnkeyWalletId : JsString
  solanaAddress : JsString
  clientPublicKey : JsString
  issuedAtMs : JsNumber

/-- The integer of a number, when `Number.isSafeInteger` holds of it. -/
def safeInteger : JsNumber → Option ℤ
  | .finite x => if x.value.den = 1 ∧ IsSafe x.value.num then some x.value.num else none
  | _ => none

def requireNetwork (value : JsString) : Except Thrown JsString := do
  refuse (value ≠ utf16Units "devnet" ∧ value ≠ utf16Units "mainnet") (spr "UnknownNetwork")
  return value

/-- The pattern `[\r\n]` matches. -/
def hasLineBreak (s : JsString) : Bool := s.any fun u => decide (u.toNat = 13 ∨ u.toNat = 10)

/-- `new Date(ms).toISOString()` from 1970 on. -/
def toISOString (ms : ℤ) : JsString := Utf16.encode (Calendar.timestamp 6 ms.toNat)

def walletEnrollmentMessage (enrollment : WalletEnrollment) : Except Thrown JsString := do
  let issuedAtMs ← ofOption (safeInteger enrollment.issuedAtMs) (spr "InvalidDecimal")
  refuse (issuedAtMs < 0 ∨ MAX_ISSUED_AT_MS < issuedAtMs) (spr "InvalidDecimal")
  let network ← requireNetwork enrollment.network
  let fields := [enrollment.domain, enrollment.organizationId, enrollment.turnkeyWalletId,
    enrollment.solanaAddress, enrollment.clientPublicKey]
  refuse (fields.any hasLineBreak = true) (spr "InvalidDescriptor")
  return (utf16Units "\n").intercalate [
    enrollment.domain ++ utf16Units " wants you to sign in with your Solana account:",
    enrollment.solanaAddress,
    utf16Units "",
    utf16Units WALLET_ENROLLMENT_STATEMENT,
    utf16Units "",
    utf16Units "Version: 1",
    utf16Units "Chain ID: " ++ network,
    utf16Units "Issued At: " ++ toISOString issuedAtMs,
    utf16Units "Expiration Time: " ++ toISOString (issuedAtMs + ENROLLMENT_LIFETIME_MS),
    utf16Units "Resources:",
    utf16Units "- urn:turnkey:organization:" ++ enrollment.organizationId,
    utf16Units "- urn:turnkey:wallet:" ++ enrollment.turnkeyWalletId,
    utf16Units "- urn:zolana-tvc:client-key:" ++ enrollment.clientPublicKey]

/-- The client's fields of an enrollment that the gateway received, for one of its hosts. -/
def fieldsOf (domain : String) (network : Network) (request : EnrollmentRequest) : WalletEnrollment where
  domain := utf16Units domain
  network := utf16Units network.asStr
  organizationId := utf16Units request.organizationId
  turnkeyWalletId := utf16Units request.turnkeyWalletId
  solanaAddress := utf16Units request.solanaAddress
  clientPublicKey := utf16Units request.clientPublicKey
  issuedAtMs := ofNumeral (.ofInt request.issuedAtMs.toNat)

end Message

section Agreement

open Gateway.Enrollment (SingleLine SingleLined Dated Verified message verify validate)

variable {c : Crypto} {domain domain' : String} {network network' : Network}
  {request request' : EnrollmentRequest}

theorem hasLineBreak_utf16Units {s : String} (h : SingleLine s.toList) :
    hasLineBreak (utf16Units s) = false := by
  rw [hasLineBreak, List.any_eq_false]
  intro u hu
  obtain ⟨ch, hch, hunit⟩ := List.mem_flatMap.1 hu
  obtain ⟨hnewline, hreturn⟩ := h ch hch
  rw [decide_eq_true_eq, not_or]
  obtain ⟨v, hv, -, -, hchar⟩ | ⟨v, w, hvw, hhigh, hlow, -⟩ := Utf16.units_cases ch
  · rw [hv, List.mem_singleton] at hunit
    subst hunit hchar
    constructor <;> intro hvalue <;> rw [hvalue] at hnewline hreturn
    · exact hreturn rfl
    · exact hnewline rfl
  · rw [Utf16.isHigh_iff] at hhigh
    rw [Utf16.isLow_iff] at hlow
    rw [hvw, List.mem_cons, List.mem_singleton] at hunit
    obtain rfl | rfl := hunit <;> omega

theorem requireNetwork_asStr (network : Network) :
    requireNetwork (utf16Units network.asStr) = .ok (utf16Units network.asStr) := by
  cases network <;> rfl

theorem encode_intercalate (sep : List Char) (ls : List (List Char)) :
    Utf16.encode (sep.intercalate ls) = (Utf16.encode sep).intercalate (ls.map Utf16.encode) := by
  induction ls with
  | nil => rfl
  | cons l ls ih =>
    cases ls with
    | nil => simp [List.intercalate]
    | cons l' ls =>
      simp only [List.intercalate, List.intersperse, List.flatten_cons, List.map_cons] at ih ⊢
      rw [transcodes_encode.append, transcodes_encode.append, ih]

theorem safeInteger_ofNumeral {n : ℤ} (h : IsSafe n) : safeInteger (ofNumeral (.ofInt n)) = some n := by
  have hvalue : (Binary64.ofInt n h.le).value = (n : ℚ) := rfl
  rw [ofNumeral_ofInt h, safeInteger, hvalue, Rat.den_intCast, Rat.num_intCast]
  exact if_pos ⟨rfl, h⟩

/-- The two programs write the same message. -/
theorem walletEnrollmentMessage_of_message {m : String} (hdomain : SingleLine domain.toList)
    (hrequest : SingleLined request)
    (hissuedAt : (request.issuedAtMs.toNat : ℤ) ≤ MAX_ISSUED_AT_MS)
    (h : message domain network request = some m) :
    walletEnrollmentMessage (fieldsOf domain network request) = .ok (utf16Units m) := by
  obtain ⟨issuedAt, expiresAt, ⟨-, rfl, rfl⟩, hm⟩ := Gateway.Enrollment.lines_of_message h
  have hlifetime : MAX_ISSUED_AT_MS = 253402300499999 := by decide
  rw [hlifetime] at hissuedAt
  have hsafe : IsSafe (request.issuedAtMs.toNat : ℤ) := by
    unfold IsSafe
    rw [abs_of_nonneg (Int.natCast_nonneg _)]
    omega
  have hfields : ([utf16Units domain, utf16Units request.organizationId,
      utf16Units request.turnkeyWalletId, utf16Units request.solanaAddress,
      utf16Units request.clientPublicKey].any hasLineBreak) = false := by
    simp only [List.any_cons, List.any_nil, hasLineBreak_utf16Units hdomain,
      hasLineBreak_utf16Units hrequest.organization, hasLineBreak_utf16Units hrequest.wallet,
      hasLineBreak_utf16Units hrequest.address, hasLineBreak_utf16Units hrequest.clientKey,
      Bool.or_false]
  -- Before the year 10000 both write a year of four digits.
  have hdate : ∀ ms : ℕ, ms < 253402300800000 →
      toISOString ms = Utf16.encode (Calendar.timestamp 4 ms) := by
    intro ms hms
    rw [toISOString, Int.toNat_natCast, Calendar.timestamp_eq_of_lt (Calendar.year_le_of_lt hms) 6 4]
  have hexpiresAt : (request.issuedAtMs.toNat : ℤ) + ENROLLMENT_LIFETIME_MS =
      (request.issuedAtMs.toNat + 300000 : ℕ) := by
    push_cast
    rfl
  have happend : ∀ a b : String, utf16Units (a ++ b) = utf16Units a ++ utf16Units b := by
    intro a b
    rw [utf16Units, String.toList_append, transcodes_encode.append]
    rfl
  have hlines : utf16Units m = (utf16Units "\n").intercalate
      ((Gateway.Enrollment.lines domain network request
        (String.ofList (Calendar.timestamp 4 request.issuedAtMs.toNat))
        (String.ofList (Calendar.timestamp 4
          (request.issuedAtMs.toNat + Gateway.MAX_ENROLLMENT_AGE_MS.toNat)))).map Utf16.encode) := by
    rw [utf16Units, hm, encode_intercalate]
    rfl
  have hage : Gateway.MAX_ENROLLMENT_AGE_MS.toNat = 300000 := rfl
  -- The client's checks pass, and its lines are the gateway's one by one.
  rw [hlines, hage, walletEnrollmentMessage]
  simp only [bind_eq_ok, ofOption_eq_ok, refuse_eq_ok, exists_const]
  refine ⟨_, safeInteger_ofNumeral hsafe, ?_, _, requireNetwork_asStr network, ?_, ?_⟩
  · rw [hlifetime]
    omega
  · rw [Bool.not_eq_true]
    exact hfields
  · rw [pure_eq_ok, hdate _ (by omega), hexpiresAt, hdate _ (by omega)]
    simp only [fieldsOf, Gateway.Enrollment.lines, List.map_cons, List.map_nil, String.toList_append,
      String.toList_ofList, transcodes_encode.append]
    rfl

/-- A message tells its fields; an accepted enrollment is fresh and the wallet owner signed its
message for a configured host; the client writes that message byte for byte before the year 9999. -/
theorem enrollment_message_agrees (c : Crypto)
    (verifyStrict : ByteArrayOf 32 → Bytes → ByteArrayOf 64 → Bool) :
    (∀ domains domains' : List String, validDomains domains = true → validDomains domains' = true →
      ∀ domain ∈ domains, ∀ domain' ∈ domains', ∀ network network' request request' input input' m,
      validate c request = .ok input → validate c request' = .ok input' →
      message domain network request = some m → message domain' network' request' = some m →
      domain = domain' ∧ network = network' ∧ request.solanaAddress = request'.solanaAddress ∧
        request.organizationId = request'.organizationId ∧
        request.turnkeyWalletId = request'.turnkeyWalletId ∧
        request.clientPublicKey = request'.clientPublicKey ∧
        request.issuedAtMs = request'.issuedAtMs) ∧
    ∀ (e : Gateway.Enrollment) (request : EnrollmentRequest) (now : UInt64) (input : EnrollmentInput),
      verify c verifyStrict e request now = .ok input →
      Verified c verifyStrict e request now.toNat input ∧
      (validDomains e.domains = true → now.toNat < 253370764800000 → ∀ domain ∈ e.domains,
        ∃ m text, message domain e.network request = some m ∧
          walletEnrollmentMessage (fieldsOf domain e.network request) = .ok text ∧
          textEncode text = utf8 m) := by
  constructor
  · intro domains domains' hdomains hdomains' domain hdomain domain' hdomain' network network' request
      request' input input' m hinput hinput' h h'
    exact Gateway.Enrollment.message_inj (Gateway.Enrollment.singleLine_domain hdomains hdomain)
      (Gateway.Enrollment.singleLine_domain hdomains' hdomain')
      (Gateway.Enrollment.singleLined_of_validate hinput)
      (Gateway.Enrollment.singleLined_of_validate hinput') h h'
  · intro e request now input h
    have hverified := Gateway.Enrollment.verified_of_verify h
    refine ⟨hverified, fun hdomains hnow domain hdomain => ?_⟩
    obtain ⟨hahead, -, hvalid, -⟩ := hverified
    -- An enrollment may be dated a little ahead, and its message says when it expires.
    have hdated : request.issuedAtMs.toNat + 300000 ≤ Gateway.MAX_TIMESTAMP_MILLIS :=
      (by omega : _ ≤ 253371064860000).trans (by decide)
    obtain ⟨m, hm⟩ := Gateway.Enrollment.message_eq_some domain e.network hdated
    have hlifetime : MAX_ISSUED_AT_MS = 253402300499999 := by decide
    refine ⟨m, utf16Units m, hm, walletEnrollmentMessage_of_message
      (Gateway.Enrollment.singleLine_domain hdomains hdomain)
      (Gateway.Enrollment.singleLined_of_validate hvalid) (by omega) hm, textEncode_utf16Units m⟩

end Agreement

end ZolanaTvc.Wallet.Enrollment
