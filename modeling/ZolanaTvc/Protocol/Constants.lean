import ZolanaTvc.Protocol.Encoding

/-!
# Domain separators and protocol limits
-/

namespace ZolanaTvc.Protocol

def API_VERSION : UInt8 := 1

def EXPECTED_TURNKEY_TRUST_ROOT_ID : String := "aws-nitro-root-g1"

def TVC_APP_PROOF_TYPE : String := "zolana.tvc.wallet_operation.v1"

def TVC_QOS_PING_PROOF_TYPE : String := "zolana.tvc.qos_ping.v1"

def TVC_APP_PROOF_SCHEME : String := "SIGNATURE_SCHEME_EPHEMERAL_KEY_P256"

def CLIENT_KEY_ID_PREFIX : String := "spr-client-p256-"

def CLIENT_AUTH_DOMAIN : String := "spr-tvc-client-auth-v1"

def PROVISIONING_AUTH_DOMAIN : Bytes := utf8 "ZOLANA_TVC_PROVISIONING_AUTH_V1"

def REQUEST_DIGEST_DOMAIN : Bytes := utf8 "ZOLANA_TVC_REQUEST_V1"

def RESULT_DIGEST_DOMAIN : Bytes := utf8 "ZOLANA_TVC_RESULT_V1"

def SEALED_SEED_DIGEST_DOMAIN : Bytes := utf8 "ZOLANA_TVC_SEALED_SEED_DIGEST_V1"

def WALLET_ID_HASH_DOMAIN : Bytes := utf8 "ZOLANA_TVC_WALLET_ID_V1"

def WALLET_BINDING_DOMAIN : Bytes := utf8 "ZOLANA_TVC_WALLET_BINDING_V1"

def REQUEST_ID_HASH_DOMAIN : Bytes := utf8 "ZOLANA_TVC_REQUEST_ID_V1"

def RELEASE_POLICY_DOMAIN : Bytes := utf8 "ZOLANA_TVC_RELEASE_POLICY_V1"

def WALLET_GRANT_DOMAIN : Bytes := utf8 "ZOLANA_TVC_WALLET_GRANT_V1"

def MAX_REQUEST_AGE_MS : UInt64 := 300000

def MAX_CLOCK_SKEW_MS : UInt64 := 60000

/-- Longest a wallet grant may live. -/
def MAX_WALLET_GRANT_LIFETIME_MS : UInt64 := 3600000

def MAX_ENCRYPTED_REQUEST_BYTES : UInt64 := 262144

def MAX_ENCRYPTED_RESPONSE_BYTES : UInt64 := 262144

/-- Caps the items of one `Decrypt`, `Derive`, or `TransactionKeys` batch. -/
def MAX_ITEMS_PER_BATCH : ℕ := 256

def SEC1_UNCOMPRESSED_LEN : ℕ := 65

def RAW_P256_SIGNATURE_LEN : ℕ := 64

end ZolanaTvc.Protocol
