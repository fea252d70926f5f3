import ZolanaTvc.Protocol.Encoding

/-!
# What the gateway answers

Every failure of the gateway has one status, whatever the point where it arises.
-/

namespace ZolanaTvc.Gateway

open Protocol

abbrev StatusCode := ℕ

abbrev HeaderValue := Bytes

/-- Every failure the gateway returns. -/
inductive ApiError where
  | invalidJson
  | invalidEnrollmentRequest
  | staleEnrollment
  | invalidOwnerEnrollmentSignature
  | originAuthRequired
  | projectRequired
  | apiKeyRequired
  | apiKeyInvalid
  | waasNotEnabled
  | invalidDescriptor
  | descriptorExpired
  | clientKeyRevoked
  | walletNotOwned
  | subOrganizationNotOwned
  | turnkeyRejected
  | notFound
  | operationInProgress
  | requestTooLarge
  | tooManyInFlight
  | enclaveUnavailable
  | invalidEnclaveAnswer
  | upstreamResponseTooLarge
  | bootProofUnavailable
  | turnkeyUnavailable
  | turnkeyUnauthorized
  | turnkeyRateLimited
  | replayGuardUnavailable
  | provisionerUnavailable
  | walletGrantUnavailable
  | apiKeyLookupUnavailable
  | clockUnavailable
  | releaseExpired
deriving DecidableEq

def ApiError.status : ApiError → StatusCode
  | invalidJson | invalidEnrollmentRequest | staleEnrollment | invalidOwnerEnrollmentSignature => 400
  | originAuthRequired | projectRequired | apiKeyRequired | apiKeyInvalid => 401
  | invalidDescriptor | descriptorExpired | clientKeyRevoked | walletNotOwned
  | subOrganizationNotOwned | turnkeyRejected | waasNotEnabled => 403
  | notFound => 404
  | operationInProgress => 409
  | requestTooLarge => 413
  | tooManyInFlight => 429
  | enclaveUnavailable | invalidEnclaveAnswer | upstreamResponseTooLarge | bootProofUnavailable
  | turnkeyUnavailable | turnkeyUnauthorized | turnkeyRateLimited | replayGuardUnavailable
  | provisionerUnavailable | walletGrantUnavailable | apiKeyLookupUnavailable => 424
  | clockUnavailable | releaseExpired => 503

/-- The variant's name. -/
def ApiError.code : ApiError → String
  | invalidJson => "InvalidJson"
  | invalidEnrollmentRequest => "InvalidEnrollmentRequest"
  | staleEnrollment => "StaleEnrollment"
  | invalidOwnerEnrollmentSignature => "InvalidOwnerEnrollmentSignature"
  | originAuthRequired => "OriginAuthRequired"
  | projectRequired => "ProjectRequired"
  | apiKeyRequired => "ApiKeyRequired"
  | apiKeyInvalid => "ApiKeyInvalid"
  | waasNotEnabled => "WaasNotEnabled"
  | invalidDescriptor => "InvalidDescriptor"
  | descriptorExpired => "DescriptorExpired"
  | clientKeyRevoked => "ClientKeyRevoked"
  | walletNotOwned => "WalletNotOwned"
  | subOrganizationNotOwned => "SubOrganizationNotOwned"
  | turnkeyRejected => "TurnkeyRejected"
  | notFound => "NotFound"
  | operationInProgress => "OperationInProgress"
  | requestTooLarge => "RequestTooLarge"
  | tooManyInFlight => "TooManyInFlight"
  | enclaveUnavailable => "EnclaveUnavailable"
  | invalidEnclaveAnswer => "InvalidEnclaveAnswer"
  | upstreamResponseTooLarge => "UpstreamResponseTooLarge"
  | bootProofUnavailable => "BootProofUnavailable"
  | turnkeyUnavailable => "TurnkeyUnavailable"
  | turnkeyUnauthorized => "TurnkeyUnauthorized"
  | turnkeyRateLimited => "TurnkeyRateLimited"
  | replayGuardUnavailable => "ReplayGuardUnavailable"
  | provisionerUnavailable => "ProvisionerUnavailable"
  | walletGrantUnavailable => "WalletGrantUnavailable"
  | apiKeyLookupUnavailable => "ApiKeyLookupUnavailable"
  | clockUnavailable => "ClockUnavailable"
  | releaseExpired => "ReleaseExpired"

def ApiError.all : List ApiError :=
  [.invalidJson, .invalidEnrollmentRequest, .staleEnrollment, .invalidOwnerEnrollmentSignature,
    .originAuthRequired, .projectRequired, .apiKeyRequired, .apiKeyInvalid, .waasNotEnabled,
    .invalidDescriptor, .descriptorExpired, .clientKeyRevoked, .walletNotOwned,
    .subOrganizationNotOwned, .turnkeyRejected, .notFound, .operationInProgress, .requestTooLarge,
    .tooManyInFlight, .enclaveUnavailable, .invalidEnclaveAnswer, .upstreamResponseTooLarge,
    .bootProofUnavailable, .turnkeyUnavailable, .turnkeyUnauthorized, .turnkeyRateLimited,
    .replayGuardUnavailable, .provisionerUnavailable, .walletGrantUnavailable,
    .apiKeyLookupUnavailable, .clockUnavailable, .releaseExpired]

/-- `ApiError::from_str` -/
def ApiError.fromStr (code : String) : Option ApiError := all.find? fun error => error.code = code

theorem ApiError.nodup_code : (all.map code).Nodup := by decide +kernel

theorem ApiError.mem_all (error : ApiError) : error ∈ all := by
  cases error <;> decide

theorem ApiError.fromStr_eq_some {code : String} {error : ApiError} :
    fromStr code = some error ↔ error.code = code := by
  have hcode : ∀ {e : ApiError} {code}, fromStr code = some e → e.code = code := fun h => by
    simpa using List.find?_some h
  refine ⟨hcode, ?_⟩
  rintro rfl
  obtain ⟨e, he⟩ : ∃ e, fromStr error.code = some e :=
    Option.isSome_iff_exists.1 (List.find?_isSome.2 ⟨error, mem_all error, by simp⟩)
  rw [he, List.inj_on_of_nodup_map nodup_code (mem_all e) (mem_all error) (hcode he)]

/-- An enclave answer passed to the client: its status, content type and body. -/
structure Forwarded where
  status : StatusCode
  contentType : HeaderValue
  body : Bytes
deriving DecidableEq

/-- What the enclave did with an operation: its answer, or the failure that left it unknown. -/
abbrev Outcome := Except ApiError Forwarded

end ZolanaTvc.Gateway
