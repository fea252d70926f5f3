import ZolanaTvc.Control.Except
import ZolanaTvc.Gateway.Error
import ZolanaTvc.Protocol.RoundTrip
import ZolanaTvc.Protocol.Size

/-!
# The bodies that the gateway reads and forwards

The gateway reads what a client sends with `serde_json`, and writes what it forwards in the order of the
fields. The enclave reads that with the strict reader.

## Main results

* `toVec_roundTrip`: what is written of a wire type that holds no document is read back.
-/

namespace ZolanaTvc.Gateway

open Json Serde Except Protocol

/-- `serde_json::from_slice`, of structs that deny unknown fields: such a one refuses a name that stands
twice, as the strict reader does. -/
def fromSlice {T : Type} (c : Codec T) (body : Bytes) : Option T := do
  parseStrictJson c (← fromUtf8 body)

/-- The body of a request to run an operation. -/
structure Operation where
  /-- A `WalletDescriptor` this gateway enrolled. -/
  descriptor : WalletDescriptor
  /-- The enclave's `EncryptedRequest`. -/
  request : EncryptedRequest

def Operation.codec : Codec Operation :=
  Fields.struct
    (.field "descriptor" WalletDescriptor.codec <| .field "request" EncryptedRequest.codec .done)
    ⟨fun x => (x.1, x.2, ()), fun (a, b, _) => ⟨a, b⟩, fun _ => rfl, fun _ => rfl⟩

/-- `ApiJson`, of a body within the limit of the router or above it. -/
def apiJson {T : Type} (c : Codec T) (maxBodyBytes : ℕ) (body : Bytes) : Except ApiError T := do
  refuse (maxBodyBytes < body.length) .requestTooLarge
  ofOption (fromSlice c body) .invalidJson

section RoundTrip

variable {T : Type} {c : Codec T}

/-- The strict reader reads what `serde_json` wrote, in whatever order the members stand. -/
theorem strictValue_serdeToString {v : Value} (hv : v.Distinct) (hd : v.depth ≤ recursionLimit) {t : String}
    (ht : serdeToString v = some t) : ∃ w, strictValue t = some w ∧ Reorder v w := by
  obtain ⟨s, hs, rfl⟩ := Option.map_eq_some_iff.1 ht
  obtain ⟨w, hw, hreorder⟩ := serdeJson.strictParse_append hv hd hs
  refine ⟨w, ?_, hreorder⟩
  rw [strictValue_eq, String.toList_ofList]
  exact hw

theorem exists_serdeToString {v : Value} (hv : FloatFree v) : ∃ t, serdeToString v = some t := by
  have happend : (serdeJson.append v).isSome ↔ FloatFree v := Format.isSome_append
  obtain ⟨s, hs⟩ := Option.isSome_iff_exists.1 (happend.2 hv)
  exact ⟨String.ofList s, by rw [serdeToString, hs]; rfl⟩

/-- What `to_vec` writes of a value is read back as the value, by the gateway and by the enclave. -/
theorem toVec_roundTrip (hnorm : ∀ x, c.norm x = x) {x : T} (hx : c.Fits recursionLimit x) :
    ∃ bytes, toVec c x = some bytes ∧ fromSlice c bytes = some x ∧
      ∃ t, fromUtf8 bytes = some t ∧ parseStrictJson c t = some x := by
  obtain ⟨t, ht⟩ := exists_serdeToString hx.integral
  obtain ⟨w, hw, hreorder⟩ := strictValue_serdeToString (c.distinct_encode x) hx.depth_le ht
  obtain ⟨y, hy, heq⟩ := c.decode_of_reorder .value x w (distinct_of_strictValue hw).1 hreorder
  rw [hnorm, hnorm] at heq
  have hparse : parseStrictJson c t = some x := by
    rw [parseStrictJson, hw, Option.bind_some, hy, heq]
  refine ⟨utf8 t, by rw [toVec, ht]; rfl, ?_, t, fromUtf8_utf8 t, hparse⟩
  rw [fromSlice, fromUtf8_utf8]
  exact hparse

end RoundTrip

end ZolanaTvc.Gateway
