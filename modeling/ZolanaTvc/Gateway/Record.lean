import ZolanaTvc.Control.Except
import ZolanaTvc.Gateway.LocalLedger
import ZolanaTvc.Protocol.Size
import ZolanaTvc.Protocol.Wire

/-!
# The outcomes that the shared ledger keeps

The shared ledger keeps one text for each key: a marker while the request runs, and then the outcome as a
JSON record. Header values and status codes are those of the `http` crate, by what it documents.

## Main results

* `Record.fromStr_serialize`: a record is read back off the text that is written for it.
* `SharedLedger.claim_replays`: what a claim is answered, whatever text the ledger keeps.
-/

namespace ZolanaTvc.Gateway

open Except Json Protocol Serde

/-- A visible character, a space or a tab. -/
def IsText (byte : UInt8) : Prop := 32 ≤ byte ∧ byte < 127 ∨ byte = 9

/-- A byte of a header value, which need not be ASCII. -/
def IsHeaderByte (byte : UInt8) : Prop := 32 ≤ byte ∧ byte ≠ 127 ∨ byte = 9

instance IsText.decidable (byte : UInt8) : Decidable (IsText byte) := inferInstanceAs (Decidable (_ ∨ _))

instance IsHeaderByte.decidable (byte : UInt8) : Decidable (IsHeaderByte byte) :=
  inferInstanceAs (Decidable (_ ∨ _))

/-- What the gateway uses of the `http` crate. -/
structure Http where
  /-- `StatusCode::from_u16` -/
  fromU16 : ℕ → Option StatusCode
  /-- `HeaderValue::to_str` -/
  toStr : HeaderValue → Option String
  /-- `HeaderValue::try_from` -/
  tryFrom : String → Option HeaderValue
  fromU16_eq_some : ∀ n status, fromU16 n = some status ↔ status = n ∧ 100 ≤ n ∧ n < 1000
  toStr_eq_some : ∀ value s, toStr value = some s ↔ utf8 s = value ∧ ∀ byte ∈ value, IsText byte
  tryFrom_eq_some : ∀ s value,
    tryFrom s = some value ↔ utf8 s = value ∧ ∀ byte ∈ value, IsHeaderByte byte

/-- A status that is one: `StatusCode` holds no other. -/
def StatusCode.IsValid (status : StatusCode) : Prop := 100 ≤ status ∧ status < 1000

/-- An outcome as the shared ledger stores it. -/
inductive Record where
  | answered (status : UInt16) (contentType body : String)
  | failed (code : String)

namespace Record

def new (http : Http) : Outcome → Option Record
  | .ok forwarded => do
    let contentType ← http.toStr forwarded.contentType
    let body ← fromUtf8 forwarded.body
    return answered (UInt16.ofNat forwarded.status) contentType body
  | .error e => some (failed e.code)

def outcome (http : Http) : Record → Option Outcome
  | answered status contentType body => do
    let status ← http.fromU16 status.toNat
    let contentType ← http.tryFrom contentType
    return .ok ⟨status, contentType, utf8 body⟩
  | failed code => do
    let e ← ApiError.fromStr code
    return .error e

def u16 : Codec UInt16 :=
  .unsigned UInt16.size (by decide) ⟨UInt16.toFin, UInt16.ofFin, UInt16.ofFin_toFin, UInt16.toFin_ofFin⟩

/-- The variant's name and the record's fields. -/
def toValue : Record → Value
  | answered status contentType body =>
    .obj [("answered", .obj [("status", u16.encode status),
      ("content_type", Codec.string.encode contentType), ("body", Codec.string.encode body)])]
  | failed code => .obj [("failed", .obj [("code", Codec.string.encode code)])]

/-- `serde_json::to_string` -/
def serialize (record : Record) : Option String := serdeToString record.toValue

/-- The one field of a name; a field may not be there twice. -/
def field (ms : List (String × Json.Tree Char)) (name : String) : Option (Json.Tree Char) :=
  match ms.filter fun m => m.1 = name with
  | [m] => some m.2
  | _ => none

/-- The fields of a struct variant, from an object that may have others, or from an array of them. -/
def fields (names : List String) : Json.Tree Char → Option (List (Json.Tree Char))
  | .arr items => if items.length = names.length then some items else none
  | .obj ms => do
    let ms ← ms.mapM fun m => (unescape m.1).map fun name => (name, m.2)
    names.mapM (field ms)
  | _ => none

def readAs {T : Type} (c : Codec T) (t : Json.Tree Char) : Option T :=
  (strictReader.read t).bind (c.decode .value)

/-- `Record::deserialize` -/
def read : Json.Tree Char → Option Record
  | .obj [(tag, content)] => do
    let tag ← unescape tag
    if tag = "answered" then
      match ← fields ["status", "content_type", "body"] content with
      | [status, contentType, body] =>
        return answered (← readAs u16 status) (← readAs Codec.string contentType)
          (← readAs Codec.string body)
      | _ => none
    else if tag = "failed" then
      match ← fields ["code"] content with
      | [code] => return failed (← readAs Codec.string code)
      | _ => none
    else none
  | _ => none

/-- `serde_json::from_str`. What is ignored may nest as deep as the text is long. -/
def fromStr (text : String) : Option Record := (parse text.length text.toList).bind read

end Record

/-- What a key holds while its request runs. -/
def RUNNING : String := "running"

namespace SharedLedger

/-- `SharedLedger::claim`, by what its command is answered: nothing in time, or what the key held. -/
def claim (http : Http) (key : Key) (reply : Option (Option String)) : Except ApiError Claim := do
  match ← ofOption reply .replayGuardUnavailable with
  | none => return .new key
  | some held =>
    refuse (held = RUNNING) .operationInProgress
    let record ← ofOption (Record.fromStr held) .replayGuardUnavailable
    let outcome ← ofOption (record.outcome http) .replayGuardUnavailable
    return .answered outcome

/-- The text that `SharedLedger::record` stores, if it stores any. -/
def stored (http : Http) (outcome : Outcome) : Option String :=
  (Record.new http outcome).bind Record.serialize

end SharedLedger

/-- The character of an ASCII byte. -/
def asciiChar (byte : UInt8) : Char := Char.ofNat byte.toNat

theorem toNat_asciiChar : ∀ n : Fin 128, (Char.ofNat n.val).toNat = n.val := by
  decide

theorem utf8_asciiChars {bytes : Bytes} (h : ∀ byte ∈ bytes, byte < 128) :
    utf8 (String.ofList (bytes.map asciiChar)) = bytes := by
  have hnat : ∀ byte ∈ bytes, (asciiChar byte).toNat = byte.toNat := by
    intro byte hbyte
    exact toNat_asciiChar ⟨byte.toNat, h byte hbyte⟩
  have hascii : ∀ ch ∈ bytes.map asciiChar, ch.toNat < 128 :=
    List.forall_mem_map.2 fun byte hbyte => (hnat byte hbyte).symm ▸ h byte hbyte
  rw [utf8_ascii hascii, List.map_map]
  conv_rhs => rw [← List.map_id bytes]
  exact List.map_congr_left fun byte hbyte => by simp [hnat byte hbyte]

theorem IsText.ascii {byte : UInt8} (h : IsText byte) : byte < 128 := by
  obtain ⟨-, hhigh⟩ | rfl := h
  · exact UInt8.lt_trans hhigh (by decide)
  · decide

theorem IsText.header {byte : UInt8} (h : IsText byte) : IsHeaderByte byte := by
  obtain ⟨hlow, hhigh⟩ | htab := h
  · exact .inl ⟨hlow, UInt8.ne_of_lt hhigh⟩
  · exact .inr htab

theorem Http.toStr_isSome_iff (http : Http) (value : HeaderValue) :
    (http.toStr value).isSome ↔ ∀ byte ∈ value, IsText byte := by
  rw [Option.isSome_iff_exists]
  simp only [http.toStr_eq_some]
  refine ⟨fun ⟨_, _, htext⟩ => htext, fun htext => ?_⟩
  exact ⟨_, utf8_asciiChars fun byte hbyte => (htext byte hbyte).ascii, htext⟩

namespace Record

/-- The tree that a record is written as. -/
def tree : Record → Json.Tree Char
  | answered status contentType body =>
    .obj [(jcs.escape "answered", .obj [(jcs.escape "status", .num (.ofInt status.toNat)),
      (jcs.escape "content_type", .str (jcs.escape contentType)),
      (jcs.escape "body", .str (jcs.escape body))])]
  | failed code =>
    .obj [(jcs.escape "failed", .obj [(jcs.escape "code", .str (jcs.escape code))])]

theorem tree_toValue (record : Record) : serdeJson.tree record.toValue = some record.tree := by
  cases record with
  | answered status contentType body => rfl
  | failed code => rfl

theorem readAs_string (s : String) : readAs Codec.string (.str (jcs.escape s)) = some s := by
  have hread : strictReader.read (.str (jcs.escape s)) = some (.str s) := by
    rw [Reader.read]
    exact congrArg (Option.map _) (jcs.unescape_escape s)
  rw [readAs, hread]
  rfl

theorem u16_decode_encode (n : UInt16) : u16.decode .value (u16.encode n) = some n := by
  simp [u16, Codec.unsigned, n.toNat_lt]

theorem read_num (n : UInt16) :
    strictReader.read (.num (.ofInt n.toNat)) = some (u16.encode n) := by
  have hrange : -2 ^ 63 ≤ (n.toNat : ℤ) ∧ (n.toNat : ℤ) < 2 ^ 64 := by
    have := n.toNat_lt
    omega
  have hnumber : Number.ofNumeral (.ofInt n.toNat) = some (.int n.toNat hrange) :=
    Number.ofNumeral_numeral _ _ rfl
  have hreader : strictReader.ofNumeral = Number.ofNumeral := rfl
  rw [Reader.read, hreader, hnumber]
  rfl

theorem readAs_u16 (n : UInt16) : readAs u16 (.num (.ofInt n.toNat)) = some n := by
  unfold readAs
  rw [read_num, Option.bind_some, u16_decode_encode]

theorem unescape_escape (s : String) : unescape (jcs.escape s) = some s := jcs.unescape_escape s

theorem read_answered {status contentType body : Json.Tree Char} {n : UInt16} {s t : String}
    (hn : readAs u16 status = some n) (hs : readAs Codec.string contentType = some s)
    (ht : readAs Codec.string body = some t) :
    read (.obj [(jcs.escape "answered", .obj [(jcs.escape "status", status),
      (jcs.escape "content_type", contentType), (jcs.escape "body", body)])]) =
      some (answered n s t) := by
  simp [read, fields, field, unescape_escape, hn, hs, ht]

theorem read_failed {code : Json.Tree Char} {s : String} (hs : readAs Codec.string code = some s) :
    read (.obj [(jcs.escape "failed", .obj [(jcs.escape "code", code)])]) = some (failed s) := by
  simp [read, fields, field, unescape_escape, hs]

theorem read_tree (record : Record) : read record.tree = some record := by
  cases record with
  | answered status contentType body =>
    exact read_answered (readAs_u16 status) (readAs_string contentType) (readAs_string body)
  | failed code => exact read_failed (readAs_string code)

theorem serialize_eq (record : Record) :
    record.serialize = some (String.ofList (print record.tree)) := by
  rw [serialize, serdeToString, serdeJson.append_eq, tree_toValue]
  rfl

theorem depth_tree (record : Record) : record.tree.depth = 2 := by
  cases record <;> rfl

theorem print_tree (record : Record) : ∃ cs, print record.tree = '{' :: (cs ++ ['}']) := by
  cases record <;> exact ⟨_, rfl⟩

/-- A record is read back off its text, which is not the marker. -/
theorem fromStr_serialize (record : Record) :
    ∃ text, record.serialize = some text ∧ fromStr text = some record ∧ text ≠ RUNNING := by
  obtain ⟨cs, hprint⟩ := print_tree record
  refine ⟨_, serialize_eq record, ?_, fun hrunning => ?_⟩
  · have hdepth : record.tree.depth ≤ (String.ofList (print record.tree)).length := by
      rw [depth_tree, String.length_ofList, hprint]
      simp
    rw [fromStr, String.toList_ofList, parse_print record.tree hdepth]
    exact read_tree record
  · have hchars := congrArg String.toList hrunning
    rw [String.toList_ofList, hprint] at hchars
    have hhead := congrArg List.head? hchars
    cases hhead

variable {http : Http} {record : Record} {outcome : Outcome}

/-- The record of an outcome has that outcome. -/
theorem outcome_new (h : new http outcome = some record)
    (status : ∀ answer, outcome = .ok answer → StatusCode.IsValid answer.status) :
    record.outcome http = some outcome := by
  cases outcome with
  | error e =>
    obtain rfl := Option.some.inj h
    rw [Record.outcome, ApiError.fromStr_eq_some.2 rfl]
    rfl
  | ok answer =>
    obtain ⟨statusCode, contentType, body⟩ := answer
    obtain ⟨hlow, hhigh⟩ : 100 ≤ statusCode ∧ statusCode < 1000 := status _ rfl
    simp only [new, Option.bind_eq_bind, Option.bind_eq_some_iff] at h
    obtain ⟨s, hs, t, ht, hrecord⟩ := h
    obtain rfl := Option.some.inj hrecord
    obtain ⟨hs, htext⟩ := (http.toStr_eq_some _ _).1 hs
    have hstatus : (UInt16.ofNat statusCode).toNat = statusCode :=
      Nat.mod_eq_of_lt (Nat.lt_of_lt_of_le hhigh (by decide))
    have hvalue : http.tryFrom s = some contentType :=
      (http.tryFrom_eq_some _ _).2 ⟨hs, fun byte hbyte => (htext byte hbyte).header⟩
    have hcode : http.fromU16 statusCode = some statusCode :=
      (http.fromU16_eq_some _ _).2 ⟨rfl, hlow, hhigh⟩
    simp only [Record.outcome, hstatus, hcode, hvalue, utf8_of_fromUtf8 ht, Option.bind_eq_bind,
      Option.bind_some]
    rfl

theorem new_isSome_iff : (new http outcome).isSome ↔ ∀ answer, outcome = .ok answer →
    (∀ byte ∈ answer.contentType, IsText byte) ∧ (fromUtf8 answer.body).isSome := by
  cases outcome with
  | error e => exact iff_of_true rfl fun _ h => by cases h
  | ok answer =>
    have hforall : (∀ answer', Except.ok answer = (.ok answer' : Outcome) →
        (∀ byte ∈ answer'.contentType, IsText byte) ∧ (fromUtf8 answer'.body).isSome) ↔
        (http.toStr answer.contentType).isSome ∧ (fromUtf8 answer.body).isSome := by
      rw [http.toStr_isSome_iff]
      exact ⟨fun h => h answer rfl, fun h _ hanswer => Except.ok.inj hanswer ▸ h⟩
    rw [hforall, new]
    cases http.toStr answer.contentType <;> cases fromUtf8 answer.body <;> simp

/-- The outcome of a record has that record, if its content type is text. -/
theorem new_outcome (h : record.outcome http = some outcome)
    (text : ∀ answer, outcome = .ok answer → ∀ byte ∈ answer.contentType, IsText byte) :
    new http outcome = some record := by
  cases record with
  | failed code =>
    simp only [Record.outcome, Option.bind_eq_bind, Option.bind_eq_some_iff] at h
    obtain ⟨e, he, houtcome⟩ := h
    obtain rfl := Option.some.inj houtcome
    rw [new, ApiError.fromStr_eq_some.1 he]
  | answered status contentType body =>
    simp only [Record.outcome, Option.bind_eq_bind, Option.bind_eq_some_iff] at h
    obtain ⟨n, hn, value, hvalue, houtcome⟩ := h
    obtain rfl := Option.some.inj houtcome
    obtain ⟨rfl, -⟩ := (http.fromU16_eq_some _ _).1 hn
    obtain ⟨hvalue, -⟩ := (http.tryFrom_eq_some _ _).1 hvalue
    have hs : http.toStr value = some contentType :=
      (http.toStr_eq_some _ _).2 ⟨hvalue, text _ rfl⟩
    simp only [new, hs, fromUtf8_utf8, UInt16.ofNat_toNat, Option.bind_eq_bind, Option.bind_some]
    rfl

end Record

namespace Http

theorem documented_fromU16 (n : ℕ) (status : StatusCode) :
    (if 100 ≤ n ∧ n < 1000 then some n else none) = some status ↔
      status = n ∧ 100 ≤ n ∧ n < 1000 := by
  rw [Option.ite_none_right_eq_some, Option.some.injEq, and_comm, eq_comm]

theorem documented_toStr (value : HeaderValue) (s : String) :
    (if value.all (fun byte => IsText byte) then some (String.ofList (value.map asciiChar)) else none) =
      some s ↔ utf8 s = value ∧ ∀ byte ∈ value, IsText byte := by
  simp only [Option.ite_none_right_eq_some, Option.some.injEq, List.all_eq_true, decide_eq_true_eq,
    and_comm (a := ∀ byte ∈ value, IsText byte)]
  refine and_congr_left fun htext => ?_
  have hvalue := utf8_asciiChars fun byte hbyte => (htext byte hbyte).ascii
  exact ⟨fun hs => hs ▸ hvalue, fun hs => utf8_injective (hvalue.trans hs.symm)⟩

theorem documented_tryFrom (s : String) (value : HeaderValue) :
    (if (utf8 s).all fun byte => IsHeaderByte byte then some (utf8 s) else none) = some value ↔
      utf8 s = value ∧ ∀ byte ∈ value, IsHeaderByte byte := by
  simp only [Option.ite_none_right_eq_some, Option.some.injEq, List.all_eq_true, decide_eq_true_eq]
  rw [and_comm]
  exact and_congr_right fun hs => hs ▸ Iff.rfl

/-- The crate as it is documented. -/
def documented : Http where
  fromU16 n := if 100 ≤ n ∧ n < 1000 then some n else none
  toStr value :=
    if value.all (fun byte => IsText byte) then some (String.ofList (value.map asciiChar)) else none
  tryFrom s := if (utf8 s).all fun byte => IsHeaderByte byte then some (utf8 s) else none
  fromU16_eq_some := documented_fromU16
  toStr_eq_some := documented_toStr
  tryFrom_eq_some := documented_tryFrom

end Http

namespace SharedLedger

variable {http : Http} {key : Key} {text : String} {outcome : Outcome}

theorem claim_text : claim http key (some (some text)) =
    (refuse (text = RUNNING) .operationInProgress >>= fun _ =>
      ofOption (Record.fromStr text) .replayGuardUnavailable >>= fun record =>
        ofOption (record.outcome http) .replayGuardUnavailable >>= fun outcome =>
          pure (.answered outcome)) :=
  rfl

theorem claim_eq_answered : claim http key (some (some text)) = .ok (.answered outcome) ↔
    text ≠ RUNNING ∧
      ∃ record, Record.fromStr text = some record ∧ record.outcome http = some outcome := by
  simp only [claim_text, bind_eq_ok, refuse_eq_ok, ofOption_eq_ok, pure_eq_ok, Claim.answered.injEq,
    exists_eq_right, exists_const, ne_eq]

theorem claim_eq_unavailable (hrunning : text ≠ RUNNING)
    (h : ∀ record, Record.fromStr text = some record → record.outcome http = none) :
    claim http key (some (some text)) = .error .replayGuardUnavailable := by
  rw [claim_text, refuse_eq_ok (u := ()).2 hrunning, ok_bind]
  cases hread : Record.fromStr text with
  | none => rfl
  | some record =>
    rw [ofOption_some, ok_bind, h record hread]
    rfl

/-- The text that is stored for an outcome is its record's. -/
theorem stored_new {record : Record} (h : Record.new http outcome = some record) :
    ∃ text, stored http outcome = some text ∧ Record.fromStr text = some record ∧ text ≠ RUNNING := by
  obtain ⟨text, hserialize, hread, hrunning⟩ := record.fromStr_serialize
  refine ⟨text, ?_, hread, hrunning⟩
  rw [stored, h]
  exact hserialize

/-- The text that is stored for an outcome is answered as that outcome. -/
theorem claim_stored (h : stored http outcome = some text)
    (status : ∀ answer, outcome = .ok answer → StatusCode.IsValid answer.status) :
    claim http key (some (some text)) = .ok (.answered outcome) := by
  obtain ⟨record, hnew, -⟩ := Option.bind_eq_some_iff.1 h
  obtain ⟨text', hstored, hread, hrunning⟩ := stored_new hnew
  obtain rfl := Option.some.inj (h.symm.trans hstored)
  exact claim_eq_answered.2 ⟨hrunning, record, hread, Record.outcome_new hnew status⟩

/-- What a claim is answered. The record of an outcome comes back as that outcome; a text that is no
record with an outcome is refused, and one that is answers its own outcome, of which it is the record
where the content type is text. -/
theorem claim_replays (http : Http) (key : Key) :
    (∀ outcome, (Record.new http outcome).isSome ↔ ∀ answer, outcome = .ok answer →
      (∀ byte ∈ answer.contentType, IsText byte) ∧ (fromUtf8 answer.body).isSome) ∧
    (∀ outcome record, (∀ answer, outcome = .ok answer → StatusCode.IsValid answer.status) →
      Record.new http outcome = some record →
      ∃ text, stored http outcome = some text ∧ text ≠ RUNNING ∧
        Record.fromStr text = some record ∧ record.outcome http = some outcome ∧
        claim http key (some (some text)) = .ok (.answered outcome)) ∧
    (∀ text, text ≠ RUNNING →
      (∀ record, Record.fromStr text = some record → record.outcome http = none) →
      claim http key (some (some text)) = .error .replayGuardUnavailable) ∧
    ∀ text record outcome, text ≠ RUNNING → Record.fromStr text = some record →
      record.outcome http = some outcome →
      claim http key (some (some text)) = .ok (.answered outcome) ∧
      ((∀ answer, outcome = .ok answer → ∀ byte ∈ answer.contentType, IsText byte) →
        Record.new http outcome = some record) := by
  refine ⟨fun outcome => Record.new_isSome_iff, fun outcome record hstatus hnew => ?_,
    fun text hrunning h => claim_eq_unavailable hrunning h,
    fun text record outcome hrunning hread h =>
      ⟨claim_eq_answered.2 ⟨hrunning, record, hread, h⟩, Record.new_outcome h⟩⟩
  obtain ⟨text, hstored, hread, hrunning⟩ := stored_new hnew
  exact ⟨text, hstored, hrunning, hread, Record.outcome_new hnew hstatus, claim_stored hstored hstatus⟩

/-- A record whose content type is not ASCII. -/
def FOREIGN : String :=
  "\x7b\"answered\":\x7b\"status\":200,\"content_type\":\"é\",\"body\":\"\"\x7d\x7d"

/-- The text is stored for no outcome, and is no other text of the record of one; it is answered. -/
theorem claim_foreign : FOREIGN ≠ RUNNING ∧
    (∀ outcome, stored Http.documented outcome ≠ some FOREIGN) ∧
    (∀ outcome record, Record.new Http.documented outcome = some record →
      Record.fromStr FOREIGN ≠ some record) ∧
    ∀ key, claim Http.documented key (some (some FOREIGN)) =
      .ok (.answered (.ok ⟨200, utf8 "é", []⟩)) := by
  have hforeign : (Record.answered 200 "é" "").serialize = some FOREIGN := by decide +kernel
  obtain ⟨text, hserialize, hread, hrunning⟩ := (Record.answered 200 "é" "").fromStr_serialize
  obtain rfl := Option.some.inj (hforeign.symm.trans hserialize)
  -- A record keeps a content type as text, which the header gives for ASCII only.
  have hnew : ∀ outcome record, Record.new Http.documented outcome = some record →
      Record.fromStr FOREIGN ≠ some record := by
    intro outcome record hnew hsame
    obtain rfl := Option.some.inj (hread.symm.trans hsame)
    cases outcome with
    | error e => cases hnew
    | ok answer =>
      simp only [Record.new, Option.bind_eq_bind, Option.bind_eq_some_iff] at hnew
      obtain ⟨s, hs, t, -, hrecord⟩ := hnew
      obtain ⟨-, rfl, -⟩ := Record.answered.inj (Option.some.inj hrecord)
      obtain ⟨hvalue, htext⟩ := (Http.documented.toStr_eq_some _ _).1 hs
      rw [← hvalue] at htext
      exact absurd htext (by decide +kernel)
  -- On the way back every text of UTF-8 bytes makes a header.
  have houtcome : (Record.answered 200 "é" "").outcome Http.documented =
      some (.ok ⟨200, utf8 "é", []⟩) := by
    have hstatus : Http.documented.fromU16 (200 : UInt16).toNat = some 200 :=
      (Http.documented.fromU16_eq_some _ _).2 ⟨rfl, by decide, by decide⟩
    have hvalue : Http.documented.tryFrom "é" = some (utf8 "é") :=
      (Http.documented.tryFrom_eq_some _ _).2 ⟨rfl, by decide +kernel⟩
    have hbody : utf8 "" = [] := by decide +kernel
    simp only [Record.outcome, hstatus, hvalue, hbody, Option.bind_eq_bind, Option.bind_some]
    rfl
  refine ⟨hrunning, fun outcome hstored => ?_, hnew, fun key => ?_⟩
  · obtain ⟨record, hrecord, hsame⟩ := Option.bind_eq_some_iff.1 hstored
    obtain ⟨text, hserialize', hread', -⟩ := record.fromStr_serialize
    obtain rfl := Option.some.inj (hserialize'.symm.trans hsame)
    exact hnew outcome record hrecord hread'
  · exact claim_eq_answered.2 ⟨hrunning, _, hread, houtcome⟩

end SharedLedger

end ZolanaTvc.Gateway
