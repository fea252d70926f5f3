import ZolanaTvc.Enclave.Keys
import ZolanaTvc.Wallet.Operations

/-!
# The two sides check operations alike

The enclave reads the operation that the client wrote, and its answer is read by the client. The client's
checks refuse neither what the enclave would serve nor what it answers.

## Main results

* `OperationChecks.checks_agree`: no check of the client is stricter than the enclave.
-/

namespace ZolanaTvc.Wallet.OperationChecks

open Except Json Protocol Serde

section Reading

variable {T : Type} {ms : List (String × Value)} {name : String} {src : Source}

/-- What an object that the client wrote is to the enclave. -/
theorem exists_obj {v : Value} {members : List (String × JsValue)} (hv : v.Distinct)
    (h : Reorder (ofValue v) (object members)) : ∃ ms, v = .obj ms ∧
      ∀ name, Option.Rel Reorder ((get ms name).map ofValue) (members.lookup name) := by
  cases v with
  | obj ms =>
    refine ⟨ms, rfl, fun name => ?_⟩
    rw [ofValue_obj] at h
    obtain ⟨ns, hns, -, hlookup⟩ := exists_of_reorder_obj (nodup_ofValue (distinct_obj.1 hv).1) h
    obtain rfl := Json.obj.inj hns
    have hrel := hlookup (utf16Units name)
    rw [lookup_ofValue] at hrel
    have hmembers : (members.map (Prod.map utf16Units id)).lookup (utf16Units name) =
        members.lookup name := by
      clear h hns hlookup hrel
      induction members with
      | nil => rfl
      | cons m members ih =>
        obtain ⟨k, w⟩ := m
        by_cases hk : name = k
        · subst hk
          rw [List.map_cons, Prod.map_apply, List.lookup_cons_self, List.lookup_cons_self]
          rfl
        · rw [List.map_cons, Prod.map_apply, List.lookup_cons, List.lookup_cons, beq_false_of_ne hk,
            beq_false_of_ne (utf16Units_injective.ne hk)]
          exact ih
    rwa [hmembers] at hrel
  | arr vs => cases h
  | _ => cases h

/-- A text that the client wrote is the one the enclave writes. -/
theorem text_of_field {c : Codec T} {x : T} {p : String} {t : JsString}
    (hrel : Option.Rel Reorder ((get ms name).map ofValue) (some (.str t)))
    (h : ∃ v, get ms name = some v ∧ c.decode src v = some x) (hencode : c.encode x = .str p)
    (hemitted : ∀ s, c.emitted src (.str s)) : t = utf16Units p := by
  obtain ⟨v, hv, hx⟩ := h
  rw [hv, Option.map_some, Option.rel_some_some] at hrel
  cases v with
  | str s =>
    have hreorder := (c.reorder_encode_iff src _ x (.str trivial) hx).2 (hemitted s)
    rw [hencode, reorder_str_iff] at hreorder
    cases hreorder
    cases hrel
    rfl
  | _ => cases hrel

theorem items_of_field {A : Type} {c : Codec T} {xs : List T} {items : List A} {value : A → JsValue}
    {f : T → A} (hms : (Json.obj ms : Value).Distinct)
    (hrel : Option.Rel Reorder ((get ms name).map ofValue) (some (.arr (items.map value))))
    (h : ∃ v, get ms name = some v ∧ c.list.decode src v = some xs)
    (hitem : ∀ (v : Value) item x, v.Distinct → Reorder (ofValue v) (value item) →
      c.decode src v = some x → item = f x) : items = xs.map f := by
  obtain ⟨v, hv, hxs⟩ := h
  have hdistinct := Fields.distinct_lookup hms name v hv
  rw [hv, Option.map_some, Option.rel_some_some] at hrel
  cases v with
  | arr vs =>
    have harr : ofValue (.arr vs) = .arr (vs.map ofValue) := map_arr _ _ vs
    rw [harr] at hrel
    have hvs := distinct_arr.1 hdistinct
    have hdecoded := mapM_eq_some_iff.1 (show vs.mapM (c.decode src) = some xs from hxs)
    have hwritten : List.Forall₂ (fun v item => Reorder (ofValue v) (value item)) vs items := by
      cases hrel with
      | arr hlength hzip =>
        rw [List.forall₂_iff_zip]
        refine ⟨by simpa using hlength, fun {v item} hmem => hzip (ofValue v, value item) ?_⟩
        rw [List.zip_map]
        exact List.mem_map_of_mem hmem
    -- Both lists go along that of the values: what the client wrote, and what the enclave decoded.
    clear hrel hdistinct harr hv hxs
    induction hdecoded generalizing items with
    | nil =>
      cases hwritten
      rfl
    | @cons v x vs xs hx _ ih =>
      obtain ⟨hv, hvs⟩ := List.forall_mem_cons.1 hvs
      cases hwritten with
      | cons hw hwritten =>
        rw [List.map_cons, hitem v _ x hv hw hx, ih hvs hwritten]
  | _ => cases hrel

/-- What a tagged object that the client wrote is to the enclave. -/
theorem exists_tagged {v : Value} (tag : String) {members : List (String × JsValue)} (hv : v.Distinct)
    (h : Reorder (ofValue v) (object ((name, .str (utf16Units tag)) :: members))) : ∃ ms, v = .obj ms ∧
      get ms name = some (.str tag) ∧ (Json.obj (Variants.without name ms) : Value).Distinct ∧
      ∀ field, field ≠ name → Option.Rel Reorder
        ((get (Variants.without name ms) field).map ofValue) (members.lookup field) := by
  obtain ⟨ms, rfl, hrel⟩ := exists_obj hv h
  refine ⟨ms, rfl, ?_, Variants.distinct_without hv, fun field hne => ?_⟩
  · have htag := hrel name
    rw [List.lookup_cons_self] at htag
    cases hget : get ms name with
    | none =>
      rw [hget] at htag
      cases htag
    | some w =>
      rw [hget, Option.map_some, Option.rel_some_some] at htag
      generalize htext : utf16Units tag = t at htag
      cases w with
      | str s =>
        cases htag
        rw [utf16Units_injective htext]
      | _ => cases htag
  · have hfield := hrel field
    have hget : get (Variants.without name ms) field = get ms field :=
      (Variants.lookup_without name ms field).trans (if_neg hne)
    rw [List.lookup_cons, beq_false_of_ne hne] at hfield
    rwa [hget]

end Reading

section Items

/-- The client's form of an item. -/
def decryptItem (x : Protocol.DecryptItem) : DecryptItem where
  ciphertext := bytesToHex x.ciphertext
  viewingPublicKey := bytesToHex x.viewingPublicKey
  transactionViewingPublicKey := bytesToHex x.transactionViewingPublicKey
  salt := bytesToHex x.salt
  slotIndex := utf16Units (encodeDecimalU64 x.slotIndex)
  label := utf16Units x.label.asStr

def deriveItem : Protocol.DeriveItem → DeriveItem
  | .nullifier utxoHash blinding => .nullifier (bytesToHex utxoHash.val) (bytesToHex blinding.val)
  | .mergeDummyNullifier firstNullifier slotIndex =>
    .mergeDummyNullifier (bytesToHex firstNullifier.val) (utf16Units (encodeDecimalU64 slotIndex))
  | .mergeOutputBlinding firstNullifier => .mergeOutputBlinding (bytesToHex firstNullifier.val)
  | .mergePrivateTxBlinding firstNullifier => .mergePrivateTxBlinding (bytesToHex firstNullifier.val)
  | .mergeOutputKey firstNullifier => .mergeOutputKey (bytesToHex firstNullifier.val)

def transactionKeyItem (x : Protocol.TransactionKeyItem) : TransactionKeyItem where
  viewingPublicKey := bytesToHex x.viewingPublicKey
  firstNullifier := bytesToHex x.firstNullifier.val

variable {src : Source} {v : Value}

theorem decryptItem_of_decode {item : DecryptItem} {x : Protocol.DecryptItem} (hv : v.Distinct)
    (hw : Reorder (ofValue v) item.value) (h : Protocol.DecryptItem.codec.decode src v = some x) :
    item = decryptItem x := by
  obtain ⟨ms, rfl, hrel⟩ := exists_obj hv hw
  obtain ⟨_, ⟨⟩, -, h⟩ | ⟨_, ⟨⟩, -⟩ := Fields.struct_decode_eq_some.1 h
  simp only [Fields.decodeNamed_field] at h
  obtain ⟨hciphertext, hviewing, htransaction, hsalt, hslot, hlabel, -⟩ := h
  apply DecryptItem.ext
  · exact text_of_field (hrel "ciphertext") hciphertext rfl fun _ => trivial
  · exact text_of_field (hrel "viewing_public_key") hviewing rfl fun _ => trivial
  · exact text_of_field (hrel "transaction_viewing_public_key") htransaction rfl fun _ => trivial
  · exact text_of_field (hrel "salt") hsalt rfl fun _ => trivial
  · exact text_of_field (hrel "slot_index") hslot rfl fun _ => trivial
  · exact text_of_field (hrel "label") hlabel rfl fun s => ⟨s, rfl⟩

theorem transactionKeyItem_of_decode {item : TransactionKeyItem} {x : Protocol.TransactionKeyItem}
    (hv : v.Distinct) (hw : Reorder (ofValue v) item.value)
    (h : Protocol.TransactionKeyItem.codec.decode src v = some x) : item = transactionKeyItem x := by
  obtain ⟨ms, rfl, hrel⟩ := exists_obj hv hw
  obtain ⟨_, ⟨⟩, -, h⟩ | ⟨_, ⟨⟩, -⟩ := Fields.struct_decode_eq_some.1 h
  simp only [Fields.decodeNamed_field] at h
  obtain ⟨hviewing, hnullifier, -⟩ := h
  apply TransactionKeyItem.ext
  · exact text_of_field (hrel "viewing_public_key") hviewing rfl fun _ => trivial
  · exact text_of_field (hrel "first_nullifier") hnullifier rfl fun _ => trivial

theorem deriveItem_of_decode {item : DeriveItem} {x : Protocol.DeriveItem} (hv : v.Distinct)
    (hw : Reorder (ofValue v) item.value) (h : Protocol.DeriveItem.codec.decode src v = some x) :
    item = deriveItem x := by
  -- The variant is found by its tag, after those declared before it.
  cases item with
  | nullifier utxoHash blinding =>
    obtain ⟨ms, rfl, htag, -, hrel⟩ := exists_tagged "Nullifier" hv hw
    obtain ⟨a, ha, hfields⟩ := Variants.decode_variant (Variants.decode_of_tagged htag h)
    simp only [Fields.decodeNamed_field] at hfields
    obtain ⟨hutxo, hblinding, -⟩ := hfields
    cases x <;> cases ha
    rw [deriveItem, text_of_field (hrel "utxo_hash" (by decide)) hutxo rfl fun _ => trivial,
      text_of_field (hrel "blinding" (by decide)) hblinding rfl fun _ => trivial]
    rfl
  | mergeDummyNullifier firstNullifier slotIndex =>
    obtain ⟨ms, rfl, htag, -, hrel⟩ := exists_tagged "MergeDummyNullifier" hv hw
    obtain ⟨b, hb, h'⟩ := Variants.decode_variant_of_ne (by decide) (Variants.decode_of_tagged htag h)
    obtain ⟨a, rfl, hfields⟩ := Variants.decode_variant h'
    simp only [Fields.decodeNamed_field] at hfields
    obtain ⟨hfirst, hslot, -⟩ := hfields
    cases x <;> cases hb
    rw [deriveItem, text_of_field (hrel "first_nullifier" (by decide)) hfirst rfl fun _ => trivial,
      text_of_field (hrel "slot_index" (by decide)) hslot rfl fun _ => trivial]
    rfl
  | mergeOutputBlinding firstNullifier =>
    obtain ⟨ms, rfl, htag, -, hrel⟩ := exists_tagged "MergeOutputBlinding" hv hw
    have h₀ := Variants.decode_of_tagged htag h
    obtain ⟨b₁, hb₁, h₁⟩ := Variants.decode_variant_of_ne (by decide) h₀
    obtain ⟨b₂, hb₂, h₂⟩ := Variants.decode_variant_of_ne (by decide) h₁
    obtain ⟨a, ha, hfields⟩ := Variants.decode_variant h₂
    simp only [Fields.decodeNamed_field] at hfields
    subst ha hb₂
    cases x <;> cases hb₁
    rw [deriveItem, text_of_field (hrel "first_nullifier" (by decide)) hfields.1 rfl fun _ => trivial]
    rfl
  | mergePrivateTxBlinding firstNullifier =>
    obtain ⟨ms, rfl, htag, -, hrel⟩ := exists_tagged "MergePrivateTxBlinding" hv hw
    have h₀ := Variants.decode_of_tagged htag h
    obtain ⟨b₁, hb₁, h₁⟩ := Variants.decode_variant_of_ne (by decide) h₀
    obtain ⟨b₂, hb₂, h₂⟩ := Variants.decode_variant_of_ne (by decide) h₁
    obtain ⟨b₃, hb₃, h₃⟩ := Variants.decode_variant_of_ne (by decide) h₂
    obtain ⟨a, ha, hfields⟩ := Variants.decode_variant h₃
    simp only [Fields.decodeNamed_field] at hfields
    subst ha hb₃ hb₂
    cases x <;> cases hb₁
    rw [deriveItem, text_of_field (hrel "first_nullifier" (by decide)) hfields.1 rfl fun _ => trivial]
    rfl
  | mergeOutputKey firstNullifier =>
    obtain ⟨ms, rfl, htag, -, hrel⟩ := exists_tagged "MergeOutputKey" hv hw
    have h₀ := Variants.decode_of_tagged htag h
    obtain ⟨b₁, hb₁, h₁⟩ := Variants.decode_variant_of_ne (by decide) h₀
    obtain ⟨b₂, hb₂, h₂⟩ := Variants.decode_variant_of_ne (by decide) h₁
    obtain ⟨b₃, hb₃, h₃⟩ := Variants.decode_variant_of_ne (by decide) h₂
    obtain ⟨b₄, hb₄, h₄⟩ := Variants.decode_variant_of_ne (by decide) h₃
    obtain ⟨a, ha, hfields⟩ := Variants.decode_variant h₄
    simp only [Fields.decodeNamed_field] at hfields
    subst ha hb₄ hb₃ hb₂
    cases x <;> cases hb₁
    rw [deriveItem, text_of_field (hrel "first_nullifier" (by decide)) hfields.1 rfl fun _ => trivial]
    rfl

end Items

section Operations

/-- The enclave reads the operation, of whose members the request keeps no order. -/
def Reads (operation : Operation) (op : Protocol.Operation) : Prop :=
  ∃ v : Value, v.Distinct ∧ Reorder (ofValue v) operation.value ∧
    Protocol.Operation.codec.decode .value v = some op

variable {op : Protocol.Operation}

theorem decrypt_of_reads {operation : DecryptOperation} (h : Reads (.decrypt operation) op) :
    ∃ items, op = .decrypt items ∧ operation.items = items.map decryptItem := by
  obtain ⟨v, hv, hw, h⟩ := h
  obtain ⟨ms, rfl, htag, hms, hrel⟩ := exists_tagged "Decrypt" hv hw
  have h₀ := Variants.decode_of_tagged htag h
  obtain ⟨b₁, hb₁, h₁⟩ := Variants.decode_unit_of_ne (by decide) h₀
  obtain ⟨a, ha, hfields⟩ := Variants.decode_variant h₁
  simp only [Fields.decodeNamed_field] at hfields
  subst ha
  cases op <;> cases hb₁
  exact ⟨_, rfl, items_of_field hms (hrel "items" (by decide)) hfields.1
    fun _ _ _ => decryptItem_of_decode⟩

theorem derive_of_reads {operation : DeriveOperation} (h : Reads (.derive operation) op) :
    ∃ items, op = .derive items ∧ operation.items = items.map deriveItem := by
  obtain ⟨v, hv, hw, h⟩ := h
  obtain ⟨ms, rfl, htag, hms, hrel⟩ := exists_tagged "Derive" hv hw
  have h₀ := Variants.decode_of_tagged htag h
  obtain ⟨b₁, hb₁, h₁⟩ := Variants.decode_unit_of_ne (by decide) h₀
  obtain ⟨b₂, hb₂, h₂⟩ := Variants.decode_variant_of_ne (by decide) h₁
  obtain ⟨a, ha, hfields⟩ := Variants.decode_variant h₂
  simp only [Fields.decodeNamed_field] at hfields
  subst ha hb₂
  cases op <;> cases hb₁
  exact ⟨_, rfl, items_of_field hms (hrel "items" (by decide)) hfields.1
    fun _ _ _ => deriveItem_of_decode⟩

theorem transactionKeys_of_reads {operation : TransactionKeysOperation}
    (h : Reads (.transactionKeys operation) op) :
    ∃ items, op = .transactionKeys items ∧ operation.items = items.map transactionKeyItem := by
  obtain ⟨v, hv, hw, h⟩ := h
  obtain ⟨ms, rfl, htag, hms, hrel⟩ := exists_tagged "TransactionKeys" hv hw
  have h₀ := Variants.decode_of_tagged htag h
  obtain ⟨b₁, hb₁, h₁⟩ := Variants.decode_unit_of_ne (by decide) h₀
  obtain ⟨b₂, hb₂, h₂⟩ := Variants.decode_variant_of_ne (by decide) h₁
  obtain ⟨b₃, hb₃, h₃⟩ := Variants.decode_variant_of_ne (by decide) h₂
  obtain ⟨a, ha, hfields⟩ := Variants.decode_variant h₃
  simp only [Fields.decodeNamed_field] at hfields
  subst ha hb₃ hb₂
  cases op <;> cases hb₁
  exact ⟨_, rfl, items_of_field hms (hrel "items" (by decide)) hfields.1
    fun _ _ _ => transactionKeyItem_of_decode⟩

/-- A document that the client wrote is what the enclave keeps of it. -/
theorem document_of_field {ms : List (String × Value)} {name : String} {src : Source} {x : Document}
    {w : JsValue} (hrel : Option.Rel Reorder ((get ms name).map ofValue) (some w))
    (h : ∃ v, get ms name = some v ∧ Codec.document.decode src v = some x) :
    Reorder (ofValue x.val) w := by
  obtain ⟨v, hv, hx⟩ := h
  rw [hv, Option.map_some, Option.rel_some_some] at hrel
  obtain ⟨hdistinct, hx⟩ := Option.dite_none_right_eq_some.1 hx
  rwa [← Option.some.inj hx]

theorem sealing_of_decode {src : Source} {v : Value} {sealing : ProverSealing}
    {x : Protocol.ProverSealing} (hv : v.Distinct) (hw : Reorder (ofValue v) sealing.value)
    (h : Protocol.ProverSealing.codec.decode src v = some x) :
    sealing.target = utf16Units x.target ∧ sealing.nonce = bytesToHex x.nonce.val := by
  obtain ⟨ms, rfl, hrel⟩ := exists_obj hv hw
  obtain ⟨_, ⟨⟩, -, h⟩ | ⟨_, ⟨⟩, -⟩ := Fields.struct_decode_eq_some.1 h
  simp only [Fields.decodeNamed_field] at h
  obtain ⟨htarget, hnonce, -⟩ := h
  exact ⟨text_of_field (hrel "target") htarget rfl fun _ => trivial,
    text_of_field (hrel "nonce") hnonce rfl fun _ => trivial⟩

theorem prove_of_reads {operation : ProveOperation} (h : Reads (.prove operation) op) :
    ∃ request prover, op = .prove request prover ∧
      Reorder (ofValue request.val) (.obj operation.request) ∧
      operation.prover.target = utf16Units prover.target ∧
      operation.prover.nonce = bytesToHex prover.nonce.val := by
  obtain ⟨v, hv, hw, h⟩ := h
  obtain ⟨ms, rfl, htag, hms, hrel⟩ := exists_tagged "Prove" hv hw
  have h₀ := Variants.decode_of_tagged htag h
  obtain ⟨b₁, hb₁, h₁⟩ := Variants.decode_unit_of_ne (by decide) h₀
  obtain ⟨b₂, hb₂, h₂⟩ := Variants.decode_variant_of_ne (by decide) h₁
  obtain ⟨b₃, hb₃, h₃⟩ := Variants.decode_variant_of_ne (by decide) h₂
  obtain ⟨b₄, hb₄, h₄⟩ := Variants.decode_variant_of_ne (by decide) h₃
  obtain ⟨a, ha, hfields⟩ := Variants.decode_variant h₄
  simp only [Fields.decodeNamed_field] at hfields
  obtain ⟨hrequest, ⟨w, hget, hprover⟩, -⟩ := hfields
  subst ha hb₄ hb₃ hb₂
  cases op <;> cases hb₁
  refine ⟨_, _, rfl, document_of_field (hrel "request" (by decide)) hrequest, ?_⟩
  have hsealing := hrel "prover" (by decide)
  rw [hget, Option.map_some] at hsealing
  exact sealing_of_decode (Fields.distinct_lookup hms "prover" w hget)
    (Option.rel_some_some.1 hsealing) hprover

end Operations

section Checks

open Enclave

variable {N V : Type} {k : Keypair N V} {roles : Roles N V}

theorem checkBatch_map {A B : Type} {f : A → B} {items : List A} (hne : items ≠ [])
    (hlength : items.length ≤ Protocol.MAX_ITEMS_PER_BATCH) : checkBatch (items.map f) = .ok () := by
  have hmax : Protocol.MAX_ITEMS_PER_BATCH = MAX_ITEMS_PER_BATCH := rfl
  simp only [checkBatch, bind_eq_ok, refuse_eq_ok, exists_const, List.length_map]
  rw [hmax] at hlength
  exact ⟨fun hzero => hne (List.length_eq_zero_iff.1 hzero), by omega⟩

/-- Each item of an answered batch passes the client's check of it. -/
theorem forM_of_batch {A B C : Type} {f : A → Except Failure B} {g : A → C} {items : List A}
    {answers : List B} {check : C → Except Thrown Unit} (h : batch f items = .ok answers)
    (hcheck : ∀ item answer, f item = .ok answer → check (g item) = .ok ()) :
    checkBatch (items.map g) = .ok () ∧ (items.map g).forM check = .ok () := by
  obtain ⟨hne, hlength, -⟩ := batch_eq_ok.1 h
  refine ⟨checkBatch_map hne hlength, forM_eq_ok.2 fun item hmem => ?_⟩
  obtain ⟨x, hx, rfl⟩ := List.mem_map.1 hmem
  obtain ⟨answer, hanswer⟩ := ok_of_batch h x hx
  exact hcheck x answer hanswer

theorem checkDecryptItem_of_decryptable (hk : ∀ v, (k.viewingPubkey v).length = 33)
    {x : Protocol.DecryptItem} (h : Decryptable k roles x) : checkDecryptItem (decryptItem x) = .ok () := by
  obtain ⟨key, htransaction, -⟩ := h.transaction
  have hviewing : x.viewingPublicKey.length = VIEWING_PUBLIC_KEY_BYTES := by
    rw [h.viewing]
    exact hk roles.viewingKey
  have htransaction : x.transactionViewingPublicKey.length = VIEWING_PUBLIC_KEY_BYTES := by
    rw [htransaction]
    exact key.property
  have htransfer : utf16Units DecryptLabel.transfer.asStr = utf16Units "Transfer" := rfl
  have hring : utf16Units DecryptLabel.ringDeposit.asStr = utf16Units "RingDeposit" := rfl
  have hne : utf16Units "Transfer" ≠ utf16Units "RingDeposit" := utf16Units_injective.ne (by decide)
  simp only [checkDecryptItem, decryptItem, bind_eq_ok, decodeDecimalU64_encode]
  refine ⟨(), requireHexText_bytesToHex (by simp), (), requireHexText_bytesToHex ?_, (),
    requireHexText_bytesToHex ?_, (), requireHexText_bytesToHex ?_, _, rfl, (), refuse_eq_ok.2 ?_,
    refuse_eq_ok.2 ?_⟩
  · simpa using hviewing
  · simpa using htransaction
  · simpa [SALT_BYTES] using h.salt
  -- A transfer has its slot below 2^32, a ring deposit only the slot 0.
  · cases hlabel : x.label with
    | transfer =>
      have hslot := h.transferSlot hlabel
      rw [htransfer]
      simp only [hne, false_and, or_false, U32_MAX]
      omega
    | ringDeposit =>
      rw [h.ringDepositSlot hlabel]
      simp [U32_MAX]
  · cases x.label with
    | transfer => simp [htransfer]
    | ringDeposit => simp [hring]

theorem checkDeriveItem_of_ok {x : Protocol.DeriveItem} {value : ByteArrayOf 32}
    (h : deriveOne k roles x = .ok value) : checkDeriveItem (deriveItem x) = .ok () := by
  cases x with
  | nullifier utxoHash blinding =>
    simp only [checkDeriveItem, deriveItem, bind_eq_ok]
    exact ⟨(), requireHexText_array utxoHash, requireHexText_array blinding⟩
  | mergeDummyNullifier firstNullifier slotIndex =>
    have hslot := slot_of_deriveOne h
    simp only [checkDeriveItem, deriveItem, bind_eq_ok, refuse_eq_ok, decodeDecimalU64_encode]
    refine ⟨(), requireHexText_array firstNullifier, _, rfl, ?_⟩
    rw [U8_MAX]
    omega
  | mergeOutputBlinding firstNullifier => exact requireHexText_array firstNullifier
  | mergePrivateTxBlinding firstNullifier => exact requireHexText_array firstNullifier
  | mergeOutputKey firstNullifier => exact requireHexText_array firstNullifier

theorem checkTransactionKeyItem_of_ok (hk : ∀ v, (k.viewingPubkey v).length = 33)
    {x : Protocol.TransactionKeyItem} {secret : ByteArrayOf 32}
    (h : transactionKeyOne k roles x = .ok secret) :
    checkTransactionKeyItem (transactionKeyItem x) = .ok () := by
  have hviewing : x.viewingPublicKey.length = VIEWING_PUBLIC_KEY_BYTES := by
    rw [viewing_of_transactionKeyOne h]
    exact hk roles.viewingKey
  simp only [checkTransactionKeyItem, transactionKeyItem, bind_eq_ok]
  exact ⟨(), requireHexText_bytesToHex (by simpa using hviewing), requireHexText_array _⟩

end Checks

section Proving

open Enclave.Prove

variable {ms : List (String × Value)} {name : String}

/-- What the client reads in a member that the enclave reads. -/
theorem exists_lookup {ns : List (JsString × JsValue)} {v : Value}
    (hrel : ∀ name, Option.Rel Reorder ((get ms name).map ofValue) (ns.lookup (utf16Units name)))
    (h : get ms name = some v) : ∃ w, ns.lookup (utf16Units name) = some w ∧ Reorder (ofValue v) w := by
  have hname := hrel name
  rw [h, Option.map_some] at hname
  exact exists_of_rel_some hname

theorem exists_members {w : JsValue} (hv : (Json.obj ms : Value).Distinct)
    (h : Reorder (ofValue (.obj ms)) w) : ∃ ns, w = .obj ns ∧
      ∀ name, Option.Rel Reorder ((get ms name).map ofValue) (ns.lookup (utf16Units name)) := by
  rw [ofValue_obj] at h
  obtain ⟨ns, rfl, -, hlookup⟩ := exists_of_reorder_obj (nodup_ofValue (distinct_obj.1 hv).1) h
  exact ⟨ns, rfl, fun name => lookup_ofValue ms name ▸ hlookup (utf16Units name)⟩

theorem isOpen_of_null {ns : List (JsString × JsValue)}
    (hrel : ∀ name, Option.Rel Reorder ((get ms name).map ofValue) (ns.lookup (utf16Units name)))
    (h : get ms name = some .null) : isOpen name (.obj ns) = true := by
  obtain ⟨w, hw, hnull⟩ := exists_lookup hrel h
  cases hnull
  exact decide_eq_true hw

/-- An input whose slot is open to the enclave is open to the client. -/
theorem any_isOpen {inputs : List Value} {ws : List JsValue} (hinputs : ∀ v ∈ inputs, v.Distinct)
    (h : List.Forall₂ (fun v w => Reorder (ofValue v) w) inputs ws)
    (hopen : ∃ input ∈ inputs, IsOpen input) : ws.any (isOpen "nullifierSecret") = true := by
  obtain ⟨input, hmem, members, rfl, hnull⟩ := hopen
  induction h with
  | nil => cases hmem
  | @cons v w inputs ws hw _ ih =>
    obtain ⟨hv, hinputs⟩ := List.forall_mem_cons.1 hinputs
    rw [List.any_cons, Bool.or_eq_true]
    obtain rfl | hmem := List.mem_cons.1 hmem
    · obtain ⟨ns, rfl, hrel⟩ := exists_members hv hw
      exact .inl (isOpen_of_null hrel hnull)
    · exact .inr (ih hinputs hmem)

theorem forall₂_of_arr {inputs : List Value} {w : JsValue} (h : Reorder (ofValue (.arr inputs)) w) :
    ∃ ws, w = .arr ws ∧ List.Forall₂ (fun v w => Reorder (ofValue v) w) inputs ws := by
  have harr : ofValue (.arr inputs) = .arr (inputs.map ofValue) := map_arr _ _ inputs
  rw [harr] at h
  cases h with
  | @arr _ ws hlength hzip =>
    refine ⟨ws, rfl, ?_⟩
    rw [← List.forall₂_map_left_iff, List.forall₂_iff_zip]
    exact ⟨hlength, fun hmem => hzip _ hmem⟩

/-- A proving key of the enclave is one of the client. -/
theorem provingKeyName_of_provingKey {request : Document} {w : JsValue} {key : String}
    (hw : Reorder (ofValue request.val) w) (h : provingKey request.val = .ok key) :
    Prover.provingKeyName w = .ok (utf16Units key) := by
  have hagree := Prover.provingKeyName_agree request hw
  rw [h] at hagree
  cases hname : Prover.provingKeyName w with
  | ok name =>
    rw [hname] at hagree
    exact congrArg _ (Option.some.inj hagree)
  | error e =>
    rw [hname] at hagree
    cases hagree

/-- The slots of a request that the enclave completes are the client's. -/
theorem opened_of_completable {ns : List (JsString × JsValue)} (hms : (Json.obj ms : Value).Distinct)
    (hrel : ∀ name, Option.Rel Reorder ((get ms name).map ofValue) (ns.lookup (utf16Units name)))
    (h : Completable ms) : ∃ circuit ws,
      ns.lookup (utf16Units "circuitType") = some (.str (utf16Units circuit)) ∧
      Prover.isProveCircuit (some (.str (utf16Units circuit))) = true ∧
      ns.lookup (utf16Units "inputs") = some (.arr ws) ∧ ws.length ≠ 0 ∧
      ws.length ≤ Prover.MAX_PROVE_INPUTS ∧
      (if circuit = "merge" ∨ circuit = "merge-ring" then isOpen "userNullifierSecret" (.obj ns)
        else ws.any (isOpen "nullifierSecret")) = true := by
  -- The client reads the same circuit and, up to the order of members, the same inputs.
  have hcircuit : ∀ circuit, get ms "circuitType" = some (.str circuit) →
      ns.lookup (utf16Units "circuitType") = some (.str (utf16Units circuit)) := by
    intro circuit htype
    obtain ⟨w, hw, hstr⟩ := exists_lookup hrel htype
    cases hstr
    exact hw
  have hinputs : ∀ inputs, get ms "inputs" = some (.arr inputs) → ∃ ws,
      ns.lookup (utf16Units "inputs") = some (.arr ws) ∧
        List.Forall₂ (fun v w => Reorder (ofValue v) w) inputs ws := by
    intro inputs harray
    obtain ⟨w, hw, harr⟩ := exists_lookup hrel harray
    obtain ⟨ws, rfl, hforall⟩ := forall₂_of_arr harr
    exact ⟨ws, hw, hforall⟩
  have hknown : ∀ circuit ∈ Prover.FAMILIES.map Prod.fst,
      Prover.isProveCircuit (some (.str (utf16Units circuit))) = true := by decide
  cases h with
  | @transfer circuit inputs known type array count slotted padding opened =>
    obtain ⟨ws, hws, hforall⟩ := hinputs inputs array
    have hlength := hforall.length_eq
    have hdistinct := distinct_arr.1 (Fields.distinct_lookup hms "inputs" _ array)
    have hmerge : ¬(circuit = "merge" ∨ circuit = "merge-ring") := by
      obtain rfl | rfl := known <;> decide
    have hmax : Enclave.MAX_PROVE_INPUTS = Prover.MAX_PROVE_INPUTS := rfl
    refine ⟨circuit, ws, hcircuit circuit type, hknown circuit ?_, hws, by omega, by omega, ?_⟩
    · obtain rfl | rfl := known <;> decide
    · rw [if_neg hmerge]
      exact any_isOpen hdistinct hforall opened
  | @merge circuit inputs known type array count opened =>
    obtain ⟨ws, hws, hforall⟩ := hinputs inputs array
    have hlength := hforall.length_eq
    have hmax : Enclave.MAX_PROVE_INPUTS = Prover.MAX_PROVE_INPUTS := rfl
    refine ⟨circuit, ws, hcircuit circuit type, hknown circuit ?_, hws, by omega, by omega, ?_⟩
    · obtain rfl | rfl := known <;> decide
    · rw [if_pos known]
      exact isOpen_of_null hrel opened

/-- The attestation and the policy file of a sealing have the shape that the client expects. -/
def WellFormed (sealing : ProverSealing) : Prop :=
  (∃ members, sealing.attestation = .obj members) ∧
    ∃ file : SignedProverPolicyFile, sealing.policy = file.value

theorem checkSignedPart_value (part : SignedProverPolicyPart) :
    checkSignedPart (some part.value) = .ok () := by
  have hkeys : assertExactObjectKeys (some part.value) SIGNED_PART_KEYS "InvalidProverRequest" = .ok () :=
    assertExactObjectKeys_object
  simp only [checkSignedPart, hkeys]
  rfl

/-- Whatever the enclave completes and takes the target of, the client lets pass. -/
theorem checkProve_of_completable {operation : ProveOperation} {request : Document}
    {prover : Protocol.ProverSealing} {secret : Bytes} {completed : Value} {key : String}
    (hrequest : Reorder (ofValue request.val) (.obj operation.request))
    (htarget : operation.prover.target = utf16Units prover.target)
    (hnonce : operation.prover.nonce = bytesToHex prover.nonce.val)
    (hprover : WellFormed operation.prover) (hcomplete : complete request.val secret = .ok completed)
    (hkey : provingKey request.val = .ok key) (hroute : checkTarget prover.target key = .ok ()) :
    checkProve operation = .ok operation := by
  obtain ⟨⟨attestation, hattestation⟩, file, hpolicy⟩ := hprover
  -- What the enclave completed had open slots, and the client looks for those.
  obtain ⟨ms, hms, completable, -⟩ := completion_of_complete request.property hcomplete
  have hdistinct := request.property
  have hname := provingKeyName_of_provingKey hrequest hkey
  rw [hms] at hrequest hdistinct
  rw [ofValue_obj] at hrequest
  obtain ⟨ns, hns, -, hlookup⟩ :=
    exists_of_reorder_obj (nodup_ofValue (distinct_obj.1 hdistinct).1) hrequest
  obtain rfl := Json.obj.inj hns
  obtain ⟨circuit, ws, hcircuit, hknown, hinputs, hzero, hmax, hopen⟩ :=
    opened_of_completable hdistinct (fun name => lookup_ofValue ms name ▸ hlookup _) completable
  rw [checkTarget, refuse_eq_ok, not_or, not_not] at hroute
  have hsealing : assertExactObjectKeys (some operation.prover.value) SEALING_KEYS
      "InvalidProverRequest" = .ok () := assertExactObjectKeys_object
  have hfile : assertExactObjectKeys (some file.value) SIGNED_POLICY_KEYS "InvalidProverRequest" =
      .ok () := assertExactObjectKeys_object
  have hmerge : (some (.str (utf16Units circuit) : JsValue) = some (.str (utf16Units "merge")) ∨
      some (.str (utf16Units circuit) : JsValue) = some (.str (utf16Units "merge-ring"))) ↔
      (circuit = "merge" ∨ circuit = "merge-ring") := by
    simp only [Option.some.injEq, Json.str.injEq, utf16Units_injective.eq_iff]
  have hrelease : property file.value "release" = .ok (some file.release.value) := rfl
  have hfreshness : property file.value "freshness" = .ok (some file.freshness.value) := rfl
  have htype : property (.obj operation.request) "circuitType" =
      .ok (some (.str (utf16Units circuit))) := congrArg Except.ok hcircuit
  have harray : property (.obj operation.request) "inputs" = .ok (some (.arr ws)) :=
    congrArg Except.ok hinputs
  simp only [checkProve, hsealing, hpolicy, hfile, hrelease, hfreshness, checkSignedPart_value, hnonce,
    requireHexText_array, hattestation, isObject, htype, hknown, harray, hname, ok_bind, hmerge,
    bind_eq_ok, refuse_eq_ok, exists_const, pure_eq_ok]
  have happend : utf16Units (Enclave.PROVE_PATH ++ key) = utf16Units "/prove/" ++ utf16Units key := by
    rw [utf16Units, String.toList_append, transcodes_encode.append]
    rfl
  refine ⟨by decide, by decide, by omega, by rw [hopen]; decide, ?_, trivial⟩
  rw [not_not, htarget, hroute.2, happend, Prover.proverTarget]

end Proving

section Answers

open Enclave

variable {N V : Type} {k : Keypair N V} {roles : Roles N V} {sha256 : Bytes → ByteArrayOf 32}

/-- What the client holds for an object of the enclave. -/
theorem exists_answer {ms : List (String × Value)} {w : JsValue} (hms : (Json.obj ms : Value).Distinct)
    (h : Reorder (ofValue (.obj ms)) w) : ∃ ns, w = .obj ns ∧
      (ns.map Prod.fst).Perm ((ms.map Prod.fst).map utf16Units) ∧
      ∀ name, Option.Rel Reorder ((get ms name).map ofValue) (ns.lookup (utf16Units name)) := by
  obtain ⟨ns, rfl, hrel⟩ := exists_members hms h
  refine ⟨ns, rfl, ?_, hrel⟩
  rw [ofValue_obj] at h
  cases h with
  | obj hperm hnames _ =>
    rw [← hnames]
    have hfst : (ms.map (Prod.map utf16Units ofValue)).map Prod.fst = (ms.map Prod.fst).map utf16Units := by
      rw [List.map_map, List.map_map]
      rfl
    rw [← hfst]
    exact (hperm.map Prod.fst).symm

/-- A list of the enclave's hex is one of the client's. -/
theorem hexList_of_reorder {bs : List Bytes} {w : JsValue}
    (h : Reorder (ofValue (.arr (bs.map hex.encode))) w) :
    w = .arr (bs.map fun b => .str (bytesToHex b)) := by
  obtain ⟨ws, rfl, hforall⟩ := forall₂_of_arr h
  rw [List.forall₂_map_left_iff] at hforall
  congr 1
  clear h
  induction hforall with
  | nil => rfl
  | @cons b w bs ws hw _ ih =>
    rw [List.map_cons, ih]
    cases hw
    rfl

theorem text_of_lookup {ms : List (String × Value)} {ns : List (JsString × JsValue)} {name s : String}
    (hrel : ∀ name, Option.Rel Reorder ((get ms name).map ofValue) (ns.lookup (utf16Units name)))
    (h : get ms name = some (.str s)) : property (.obj ns) name = .ok (some (.str (utf16Units s))) := by
  obtain ⟨w, hw, hstr⟩ := exists_lookup hrel h
  cases hstr
  exact congrArg Except.ok hw

/-- A result that holds a list of hex. -/
theorem exists_hexResult {bs : List Bytes} (type name : String) {w : JsValue} (hname : name ≠ "type")
    (h : Reorder (ofValue (.obj [("type", .str type), (name, .arr (bs.map hex.encode))])) w) :
    ∃ ns, w = .obj ns ∧ property (.obj ns) "type" = .ok (some (.str (utf16Units type))) ∧
      assertExactObjectKeys (some (.obj ns)) ["type", name] "InvalidCanonicalJson" = .ok () ∧
      property (.obj ns) name = .ok (some (.arr (bs.map fun b => .str (bytesToHex b)))) := by
  have hms : (Json.obj [("type", Json.str type), (name, .arr (bs.map hex.encode))] : Value).Distinct := by
    refine distinct_obj.2 ⟨by simpa using hname.symm, ?_⟩
    simp only [List.forall_mem_cons, List.not_mem_nil, false_implies, implies_true, and_true]
    exact ⟨.str trivial, distinct_arr.2 (by simpa using fun b _ => hex.distinct_encode b)⟩
  obtain ⟨ns, rfl, hkeys, hrel⟩ := exists_answer hms h
  have hlist : get [("type", Json.str type), (name, .arr (bs.map hex.encode))] name =
      some (.arr (bs.map hex.encode) : Value) := by
    show List.lookup name _ = _
    rw [List.lookup_cons, beq_false_of_ne hname]
    exact List.lookup_cons_self
  obtain ⟨values, hvalues, hreorder⟩ := exists_lookup hrel hlist
  obtain rfl := hexList_of_reorder hreorder
  exact ⟨ns, rfl, text_of_lookup hrel List.lookup_cons_self, assertExactObjectKeys_of_perm hkeys,
    congrArg Except.ok hvalues⟩

/-- A result's type tells its keys. -/
theorem resultKeys_text {type : String} {keys : List String} (h : (type, keys) ∈ RESULT_KEYS) :
    resultKeys (some (.str (utf16Units type))) = .ok keys := by
  simp only [RESULT_KEYS, List.mem_cons, List.not_mem_nil, or_false, Prod.mk.injEq] at h
  obtain ⟨rfl, rfl⟩ | ⟨rfl, rfl⟩ | ⟨rfl, rfl⟩ | ⟨rfl, rfl⟩ | ⟨rfl, rfl⟩ | ⟨rfl, rfl⟩ := h <;> rfl

/-- A result of the operation's type is no failure. -/
theorem not_failure {type : String} (h : type ≠ "Failure") :
    ¬(some (.str (utf16Units type)) : Option JsValue) = some (.str (utf16Units "Failure")) :=
  fun heq => h (utf16Units_injective (Json.str.inj (Option.some.inj heq)))

theorem checkResult_decrypt {operation : DecryptOperation} {plaintexts : List Bytes} {w : JsValue}
    {digest : Option JsValue} (hcount : plaintexts.length = operation.items.length)
    (hw : Reorder (ofValue (OperationResult.codec.encode (.decrypt plaintexts))) w) :
    checkResult sha256 w (.decrypt operation) digest = .ok () := by
  obtain ⟨ns, rfl, htype, hkeys, hlist⟩ := exists_hexResult "Decrypt" "plaintexts" (by decide) hw
  have hresult := @resultKeys_text "Decrypt" ["type", "plaintexts"] (by decide)
  have hcheck := @checkHexList_of_forall plaintexts _ none hcount fun _ _ _ h => (nomatch h)
  simp only [checkResult, htype, hresult, hkeys, hlist, hcheck, ok_bind, Operation.type]
  rw [if_neg (not_failure (by decide))]
  exact bind_eq_ok.2 ⟨(), refuse_eq_ok.2 (not_not.2 rfl), rfl⟩

/-- The arrays of the enclave as byte strings. -/
theorem hexArray_list {n : ℕ} (bs : List (ByteArrayOf n)) :
    bs.map (hexArray n).encode = (bs.map Subtype.val).map hex.encode := by
  rw [List.map_map]
  rfl

theorem checkHexList_arrays {n count : ℕ} {bs : List (ByteArrayOf n)} (hcount : bs.length = count) :
    checkHexList (some (.arr ((bs.map Subtype.val).map fun b => .str (bytesToHex b)))) count (some n) =
      .ok () := by
  apply checkHexList_of_forall
  · rw [List.length_map, hcount]
  · intro b hb m hm
    obtain ⟨x, -, rfl⟩ := List.mem_map.1 hb
    rw [← Option.some.inj hm]
    exact x.property

theorem checkResult_derive {operation : DeriveOperation} {values : List (ByteArrayOf 32)} {w : JsValue}
    {digest : Option JsValue} (hcount : values.length = operation.items.length)
    (hw : Reorder (ofValue (OperationResult.codec.encode (.derive values))) w) :
    checkResult sha256 w (.derive operation) digest = .ok () := by
  have hencode : OperationResult.codec.encode (.derive values) =
      .obj [("type", .str "Derive"), ("values", .arr (values.map (hexArray 32).encode))] := rfl
  rw [hencode, hexArray_list] at hw
  obtain ⟨ns, rfl, htype, hkeys, hlist⟩ := exists_hexResult "Derive" "values" (by decide) hw
  have hresult := @resultKeys_text "Derive" ["type", "values"] (by decide)
  simp only [checkResult, htype, hresult, hkeys, hlist, checkHexList_arrays hcount, ok_bind, Operation.type]
  rw [if_neg (not_failure (by decide))]
  exact bind_eq_ok.2 ⟨(), refuse_eq_ok.2 (not_not.2 rfl), rfl⟩

theorem checkResult_transactionKeys {operation : TransactionKeysOperation}
    {secrets : List (ByteArrayOf 32)} {w : JsValue} {digest : Option JsValue}
    (hcount : secrets.length = operation.items.length)
    (hw : Reorder (ofValue (OperationResult.codec.encode (.transactionKeys secrets))) w) :
    checkResult sha256 w (.transactionKeys operation) digest = .ok () := by
  have hencode : OperationResult.codec.encode (.transactionKeys secrets) =
      .obj [("type", .str "TransactionKeys"), ("secrets", .arr (secrets.map (hexArray 32).encode))] := rfl
  rw [hencode, hexArray_list] at hw
  obtain ⟨ns, rfl, htype, hkeys, hlist⟩ := exists_hexResult "TransactionKeys" "secrets" (by decide) hw
  have hresult := @resultKeys_text "TransactionKeys" ["type", "secrets"] (by decide)
  simp only [checkResult, htype, hresult, hkeys, hlist, checkHexList_arrays hcount, ok_bind, Operation.type]
  rw [if_neg (not_failure (by decide))]
  exact bind_eq_ok.2 ⟨(), refuse_eq_ok.2 (not_not.2 rfl), rfl⟩

/-- A sealed request for the operation's target passes, as its ciphertext is never empty. -/
theorem checkResult_prove {operation : ProveOperation} {sealed : SealedProverRequest} {w : JsValue}
    {digest : Option JsValue} (htarget : operation.prover.target = utf16Units sealed.target)
    (hciphertext : sealed.ciphertext ≠ [])
    (hw : Reorder (ofValue (OperationResult.codec.encode (.prove sealed))) w) :
    checkResult sha256 w (.prove operation) digest = .ok () := by
  have hencode : OperationResult.codec.encode (.prove sealed) =
      .obj [("type", .str "Prove"), ("sealed", SealedProverRequest.codec.encode sealed)] := rfl
  rw [hencode] at hw
  have hms : (Json.obj [("type", Json.str "Prove"), ("sealed", SealedProverRequest.codec.encode sealed)] :
      Value).Distinct := hencode ▸ OperationResult.codec.distinct_encode (.prove sealed)
  obtain ⟨ns, rfl, hkeys, hrel⟩ := exists_answer hms hw
  obtain ⟨sealedValue, hlookup, hsealed⟩ := exists_lookup hrel
    (show get _ "sealed" = some (SealedProverRequest.codec.encode sealed) from rfl)
  obtain ⟨members, rfl, hkeys', hrel'⟩ :=
    exists_answer (SealedProverRequest.codec.distinct_encode sealed) hsealed
  have htype : property (.obj ns) "type" = .ok (some (.str (utf16Units "Prove"))) :=
    text_of_lookup hrel rfl
  have hproperty : property (.obj ns) "sealed" = .ok (some (.obj members)) := congrArg Except.ok hlookup
  have hfield : ∀ name s, get [("target", Json.str sealed.target), ("enc", .str (encodeLowerHex sealed.enc.val)),
      ("ciphertext", .str (encodeLowerHex sealed.ciphertext)),
      ("response_key", .str (encodeLowerHex sealed.responseKey.val))] name = some (.str s : Value) →
      propertyOf (some (.obj members)) name = .ok (some (.str (utf16Units s))) :=
    fun name s h => text_of_lookup hrel' h
  have hresult := @resultKeys_text "Prove" ["type", "sealed"] (by decide)
  have hkeysOk : assertExactObjectKeys (some (.obj ns)) ["type", "sealed"] "InvalidCanonicalJson" = .ok () :=
    assertExactObjectKeys_of_perm hkeys
  have hsealedOk : assertExactObjectKeys (some (.obj members)) SEALED_KEYS "InvalidCanonicalJson" = .ok () :=
    assertExactObjectKeys_of_perm hkeys'
  simp only [checkResult, htype, hresult, hkeysOk, hproperty, hsealedOk, ok_bind, Operation.type,
    hfield "target" sealed.target rfl, hfield "enc" _ rfl, hfield "ciphertext" _ rfl,
    hfield "response_key" _ rfl]
  have hhex : ∀ b : Bytes, utf16Units (encodeLowerHex b) = bytesToHex b := fun _ => rfl
  have harray : ∀ b : ByteArrayOf 32, requireHex (some (.str (bytesToHex b.val))) (some 32) = .ok b.val := by
    intro b
    apply requireHex_bytesToHex
    rintro m hm
    exact (Option.some.inj hm) ▸ b.property
  have hbytes : requireHex (some (.str (bytesToHex sealed.ciphertext))) none = .ok sealed.ciphertext :=
    requireHex_bytesToHex (by simp)
  -- Every field is hex as the client wants it, and the target is the operation's.
  rw [if_neg (not_failure (by decide)), hhex, hhex, hhex, harray, harray, hbytes, htarget]
  simp only [bind_eq_ok, refuse_eq_ok, exists_const, ok_bind, not_not]
  exact ⟨(), refuse_eq_ok.2 (not_not.2 rfl), trivial,
    fun hzero => hciphertext (List.length_eq_zero_iff.1 hzero)⟩

end Answers

section Agreement

open Enclave Enclave.Prove

variable {N V : Type}

/-- The client reads the answer of the enclave, of whose members the response keeps no order, and takes
it for an operation. -/
def Taken (sha256 : Bytes → ByteArrayOf 32) (operation : Operation) (result : OperationResult) : Prop :=
  ∀ w digest, Reorder (ofValue (OperationResult.codec.encode result)) w →
    checkResult sha256 w operation digest = .ok ()

/-- A batch the enclave answers: the client's check lets the operation pass, and takes an answer that has
one value for each item, in their order. -/
structure Served {T A B : Type} (sha256 : Bytes → ByteArrayOf 32) (check : T → Except Thrown T)
    (operation : T → Operation) (o : T) (one : A → Except Failure B)
    (toResult : List B → OperationResult) (items : List A) (result : OperationResult) : Prop where
  passes : check o = .ok o
  aligned : ∃ answers, result = toResult answers ∧
    List.Forall₂ (fun item answer => one item = .ok answer) items answers
  taken : Taken sha256 (operation o) result

/-- A batch of a wrong count, or with an item that has no answer, has none. -/
def AllOrNone {A B : Type} (one : A → Except Failure B)
    (answer : List A → Except Failure OperationResult) : Prop :=
  ∀ items, items = [] ∨ Protocol.MAX_ITEMS_PER_BATCH < items.length ∨
      (∃ item ∈ items, ∀ value, one item ≠ .ok value) → answer items = .error .invalid

theorem allOrNone_of_batch {A B : Type} {one : A → Except Failure B}
    {toResult : List B → OperationResult} (hone : ∀ item, FailsWith .invalid (one item)) :
    AllOrNone one fun items => do return toResult (← batch one items) := by
  intro items hitems
  show batch one items >>= _ = _
  rw [batch_invalid hone hitems]
  rfl

variable (k : Keypair N V) (sha256 : Bytes → ByteArrayOf 32)

/-- A viewing key has 33 bytes and a ciphertext of a sealed request is not empty. The client then refuses
nothing that the enclave serves and nothing that it answers, and an enclave that refuses one item refuses
the batch. -/
theorem checks_agree (trust : ProverTrust) (roles : Roles N V)
    (hviewing : ∀ v, (k.viewingPubkey v).length = 33)
    (hsealed : ∀ entropy key method path body enc ciphertext responseKey,
      trust.encrypt entropy key method path body = some (enc, ciphertext, responseKey) → ciphertext ≠ []) :
    (∀ o items result, Reads (.decrypt o) (.decrypt items) → Keys.decrypt k roles items = .ok result →
      Served sha256 checkDecrypt .decrypt o (decryptOne k roles) .decrypt items result) ∧
    (∀ o items result, Reads (.derive o) (.derive items) → Keys.derive k roles items = .ok result →
      Served sha256 checkDerive .derive o (deriveOne k roles) .derive items result) ∧
    (∀ o items result, Reads (.transactionKeys o) (.transactionKeys items) →
      Keys.transactionKeys k roles items = .ok result →
      Served sha256 checkTransactionKeys .transactionKeys o (transactionKeyOne k roles) .transactionKeys
        items result) ∧
    (∀ o request prover secret completed key, Reads (.prove o) (.prove request prover) →
      WellFormed o.prover → complete request.val secret = .ok completed →
      provingKey request.val = .ok key → checkTarget prover.target key = .ok () →
      checkProve o = .ok o ∧ ∀ entropy nowMs sealed,
        sealTo request secret prover trust entropy nowMs = .ok sealed →
        Taken sha256 (.prove o) (.prove sealed)) ∧
    (AllOrNone (decryptOne k roles) (Keys.decrypt k roles) ∧
      AllOrNone (deriveOne k roles) (Keys.derive k roles) ∧
      AllOrNone (transactionKeyOne k roles) (Keys.transactionKeys k roles)) ∧
    (∀ item plaintext, decryptOne k roles item = .ok plaintext → Decryptable k roles item) ∧
    (∀ firstNullifier slotIndex value,
      deriveOne k roles (.mergeDummyNullifier firstNullifier slotIndex) = .ok value →
      slotIndex.toNat < 2 ^ 8) ∧
    ∀ item secret, transactionKeyOne k roles item = .ok secret →
      item.viewingPublicKey = k.viewingPubkey roles.viewingKey := by
  refine ⟨?_, ?_, ?_, ?_, ⟨allOrNone_of_batch failsWith_decryptOne, allOrNone_of_batch failsWith_deriveOne,
    allOrNone_of_batch failsWith_transactionKeyOne⟩, fun _ _ => decryptable_of_ok,
    fun _ _ _ => slot_of_deriveOne, fun _ _ => viewing_of_transactionKeyOne⟩
  · intro o items result hreads h
    simp only [Keys.decrypt, bind_eq_ok, pure_eq_ok] at h
    obtain ⟨answers, hanswers, rfl⟩ := h
    -- Item by item: the enclave served it, so the client's check of it passes.
    obtain ⟨_, ⟨⟩, hitems⟩ := decrypt_of_reads hreads
    obtain ⟨hbatch, hforM⟩ := @forM_of_batch _ _ _ _ decryptItem _ _ checkDecryptItem hanswers
      fun _ _ h => checkDecryptItem_of_decryptable hviewing (decryptable_of_ok h)
    obtain ⟨-, -, haligned⟩ := batch_eq_ok.1 hanswers
    refine ⟨?_, ⟨answers, rfl, haligned⟩, fun w digest hw => checkResult_decrypt ?_ hw⟩
    · simp only [checkDecrypt, hitems, hbatch, hforM]
      rfl
    · rw [hitems, List.length_map, haligned.length_eq]
  · intro o items result hreads h
    simp only [Keys.derive, bind_eq_ok, pure_eq_ok] at h
    obtain ⟨answers, hanswers, rfl⟩ := h
    obtain ⟨_, ⟨⟩, hitems⟩ := derive_of_reads hreads
    obtain ⟨hbatch, hforM⟩ := @forM_of_batch _ _ _ _ deriveItem _ _ checkDeriveItem hanswers
      fun _ _ => checkDeriveItem_of_ok
    obtain ⟨-, -, haligned⟩ := batch_eq_ok.1 hanswers
    refine ⟨?_, ⟨answers, rfl, haligned⟩, fun w digest hw => checkResult_derive ?_ hw⟩
    · simp only [checkDerive, hitems, hbatch, hforM]
      rfl
    · rw [hitems, List.length_map, haligned.length_eq]
  · intro o items result hreads h
    simp only [Keys.transactionKeys, bind_eq_ok, pure_eq_ok] at h
    obtain ⟨answers, hanswers, rfl⟩ := h
    obtain ⟨_, ⟨⟩, hitems⟩ := transactionKeys_of_reads hreads
    obtain ⟨hbatch, hforM⟩ := @forM_of_batch _ _ _ _ transactionKeyItem _ _ checkTransactionKeyItem
      hanswers fun _ _ => checkTransactionKeyItem_of_ok hviewing
    obtain ⟨-, -, haligned⟩ := batch_eq_ok.1 hanswers
    refine ⟨?_, ⟨answers, rfl, haligned⟩, fun w digest hw => checkResult_transactionKeys ?_ hw⟩
    · simp only [checkTransactionKeys, hitems, hbatch, hforM]
      rfl
    · rw [hitems, List.length_map, haligned.length_eq]
  · intro o request prover secret completed key hreads hprover hcomplete hkey hroute
    obtain ⟨_, _, ⟨⟩, hrequest, htarget, hnonce⟩ := prove_of_reads hreads
    refine ⟨checkProve_of_completable hrequest htarget hnonce hprover hcomplete hkey hroute,
      fun entropy nowMs sealed hseal w digest hw => ?_⟩
    simp only [sealTo, bind_eq_ok, pure_eq_ok, ofOption_eq_ok] at hseal
    obtain ⟨_, -, -, -, proverKey, -, _, -, _, -, ⟨enc, ciphertext, responseKey⟩, hencrypt, rfl⟩ := hseal
    exact checkResult_prove htarget (hsealed _ _ _ _ _ _ _ _ hencrypt) hw

theorem length_viewingKey : (2 :: List.replicate 32 0 : Bytes).length = 33 := rfl

theorem length_secret (byte : UInt8) : (List.replicate 32 byte).length = 32 := List.length_replicate

def filled (byte : UInt8) : ByteArrayOf 32 := ⟨List.replicate 32 byte, length_secret byte⟩

/-- A key library with one viewing key, whose answers tell the kinds of items apart. -/
def sampleKeypair : Keypair Unit Unit where
  pubkeyFromStr _ := none
  derivationMessage _ := []
  verifyMessage _ _ _ := false
  expandRoles _ := some ((), ())
  nullifierPubkey _ := none
  nullifierSecret _ := []
  viewingPubkey _ := 2 :: List.replicate 32 0
  ownerHash _ _ _ := none
  isX25519 _ := true
  decryptUtxo _ ciphertext _ _ slot := some (UInt8.ofNat slot.toNat :: ciphertext)
  decryptRingDeposit _ ciphertext _ _ := some ciphertext.reverse
  nullifier _ utxoHash _ := some utxoHash
  mergeDummyNullifier _ _ slot := some (filled slot)
  mergeOutputBlinding _ firstNullifier := some firstNullifier
  mergePrivateTxBlinding _ _ := some (filled 1)
  mergeOutputKey _ _ := some (filled 2)
  transactionViewingKey _ firstNullifier := some firstNullifier

/-- A library that encrypts for every key. -/
def sealingTrust : ProverTrust where
  attestedKey _ _ := none
  encrypt _ key _ _ body := some (key, 0 :: body, key)

/-- What the client writes of items, the enclave reads as them. -/
theorem reads_encode {operation : Operation} {op : Protocol.Operation}
    (hvalue : ofValue (Protocol.Operation.codec.encode op) = operation.value)
    (hplain : ∀ x : Protocol.Operation, x.sorted = op.sorted → x = op) : Reads operation op := by
  have hdistinct := Codec.distinct_encode Protocol.Operation.codec op
  obtain ⟨y, hy, hnorm⟩ := Protocol.Operation.codec.decode_of_reorder .value op _ hdistinct (.refl _)
  rw [Operation.norm_eq, Operation.norm_eq] at hnorm
  refine ⟨_, hdistinct, hvalue ▸ .refl _, ?_⟩
  rw [hy, hplain y hnorm]

theorem value_items {A B : Type} {encode : A → Value} {f : A → B} {value : B → JsValue} (type : String)
    (items : List A) (h : ∀ x, ofValue (encode x) = value (f x)) :
    ofValue (.obj [("type", .str type), ("items", .arr (items.map encode))]) =
      object [("type", .str (utf16Units type)), ("items", .arr ((items.map f).map value))] := by
  rw [ofValue_obj, object]
  have hitems : ofValue (.arr (items.map encode)) = .arr ((items.map f).map value) := by
    rw [ofValue, Json.map_arr, List.map_map, List.map_map]
    exact congrArg Json.arr (List.map_congr_left fun x _ => h x)
  simp only [List.map_cons, List.map_nil, Prod.map, hitems]
  rfl

theorem reads_decrypt (items : List Protocol.DecryptItem) :
    Reads (.decrypt ⟨items.map decryptItem⟩) (.decrypt items) :=
  reads_encode (value_items "Decrypt" items fun _ => rfl) fun x h => by cases x <;> cases h; rfl

theorem reads_derive (items : List Protocol.DeriveItem) :
    Reads (.derive ⟨items.map deriveItem⟩) (.derive items) :=
  reads_encode (value_items "Derive" items fun x => by cases x <;> rfl) fun x h => by cases x <;> cases h; rfl

theorem reads_transactionKeys (items : List Protocol.TransactionKeyItem) :
    Reads (.transactionKeys ⟨items.map transactionKeyItem⟩) (.transactionKeys items) :=
  reads_encode (value_items "TransactionKeys" items fun _ => rfl) fun x h => by cases x <;> cases h; rfl

/-- A transfer and a deposit. -/
def sampleDecrypts : List Protocol.DecryptItem :=
  [⟨[1, 2], 2 :: List.replicate 32 0, 4 :: List.replicate 32 9, List.replicate 16 7, 5, .transfer⟩,
    ⟨[3, 4, 5], 2 :: List.replicate 32 0, 4 :: List.replicate 32 9, List.replicate 16 8, 0, .ringDeposit⟩]

/-- An item of each kind. -/
def sampleDerives : List Protocol.DeriveItem :=
  [.nullifier (filled 3) (filled 4), .mergeDummyNullifier (filled 5) 255, .mergeOutputBlinding (filled 6),
    .mergePrivateTxBlinding (filled 7), .mergeOutputKey (filled 8)]

def sampleTransactionKeys : List Protocol.TransactionKeyItem :=
  [⟨2 :: List.replicate 32 0, filled 9⟩, ⟨2 :: List.replicate 32 0, filled 10⟩]

/-- The client takes the answers to batches of several items and kinds, and one item of a slot that is no
byte has a batch refused. -/
theorem checks_agree_batches : ∃ decrypted derived keys,
    Keys.decrypt sampleKeypair ⟨filled 0, (), ()⟩ sampleDecrypts = .ok decrypted ∧
      Taken (fun _ => filled 0) (.decrypt ⟨sampleDecrypts.map decryptItem⟩) decrypted ∧
    Keys.derive sampleKeypair ⟨filled 0, (), ()⟩ sampleDerives = .ok derived ∧
      Taken (fun _ => filled 0) (.derive ⟨sampleDerives.map deriveItem⟩) derived ∧
    Keys.transactionKeys sampleKeypair ⟨filled 0, (), ()⟩ sampleTransactionKeys = .ok keys ∧
      Taken (fun _ => filled 0) (.transactionKeys ⟨sampleTransactionKeys.map transactionKeyItem⟩) keys ∧
    Keys.derive sampleKeypair ⟨filled 0, (), ()⟩ (sampleDerives ++ [.mergeDummyNullifier (filled 5) 256]) =
      .error .invalid := by
  obtain ⟨hdecrypt, hderive, hkeys, -, ⟨-, hnone, -⟩, -, hslot, -⟩ := checks_agree sampleKeypair
    (fun _ => filled 0) sealingTrust ⟨filled 0, (), ()⟩ (fun _ => length_viewingKey) fun _ _ _ _ _ _ _ _ h => by
      cases h
      exact List.cons_ne_nil 0 _
  refine ⟨_, _, _, rfl, (hdecrypt _ _ _ (reads_decrypt _) rfl).taken, rfl,
    (hderive _ _ _ (reads_derive _) rfl).taken, rfl, (hkeys _ _ _ (reads_transactionKeys _) rfl).taken, ?_⟩
  refine hnone _ (.inr (.inr ⟨.mergeDummyNullifier (filled 5) 256, by simp, fun value h => ?_⟩))
  exact absurd (hslot (filled 5) 256 value h) (by decide)

end Agreement

end ZolanaTvc.Wallet.OperationChecks
