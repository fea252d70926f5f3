import ZolanaTvc.Control.Flight
import ZolanaTvc.Wallet.AppProof
import ZolanaTvc.Wallet.JcsAgreement

/-!
# The prover's policy file

The client downloads the signed policy file of its network and holds it for a while. Callers share a
download, which lands in one microtask and leaves its slot in a later one.

## Main results

* `ProverPolicy.shared_of_run`: downloads are shared, and no caller aborts another; what is held is
  replaced only by a file in force, and by no download that everybody left.
-/

namespace ZolanaTvc.Wallet

open Except Json Protocol

structure SignedProverPolicyPart where
  payload : JsString
  signatures : List JsValue

structure SignedProverPolicyFile where
  release : SignedProverPolicyPart
  freshness : SignedProverPolicyPart

/-- A downloaded file and what the client reads from its payloads. -/
structure HeldProverPolicy where
  file : SignedProverPolicyFile
  version : ℕ
  maxAgeSecs : ℕ
  /-- Unix seconds. -/
  issuedAt : ℕ
  /-- The earlier of the two expiries, in Unix seconds. -/
  expiresAt : ℕ
  /-- `none` is `Number.NEGATIVE_INFINITY`. -/
  fetchedAtMs : Option ℕ

section Reading

def ProverPolicyInvalid : Thrown := spr "ProverPolicyInvalid"

def isRecord : Option JsValue → Except Thrown (List (JsString × JsValue))
  | some (.obj members) => return members
  | _ => throw ProverPolicyInvalid

/-- The record has no other keys. -/
def onlyKeys (members : List (JsString × JsValue)) (names : List String) : Prop :=
  ∀ m ∈ members, m.1 ∈ names.map utf16Units

instance decidableOnlyKeys (members : List (JsString × JsValue)) (names : List String) :
    Decidable (onlyKeys members names) :=
  inferInstanceAs (Decidable (∀ m ∈ members, m.1 ∈ names.map utf16Units))

/-- A safe integer that is at least `least`. -/
def isInteger (least : ℕ) : Option JsValue → Except Thrown ℕ
  | some (.num (.finite x)) =>
    if x.value.den = 1 ∧ (least : ℤ) ≤ x.value.num ∧ IsSafe x.value.num then return x.value.num.toNat
    else throw ProverPolicyInvalid
  | _ => throw ProverPolicyInvalid

/-- Pairs of lowercase hex digits. -/
def isLowerHexText (s : JsString) : Bool :=
  decide (s.length % 2 = 0) && s.all fun u =>
    decide (48 ≤ u.toNat ∧ u.toNat ≤ 57 ∨ 97 ≤ u.toNat ∧ u.toNat ≤ 102)

def isSignature : JsValue → Bool
  | .obj members => decide (members.length = 2) &&
    ["public_key", "signature"].all fun name =>
      match members.lookup (utf16Units name) with
      | some (.str _) => true
      | _ => false
  | _ => false

def readPart (part : Option JsValue) : Except Thrown SignedProverPolicyPart := do
  let members ← isRecord part
  refuse (¬onlyKeys members ["payload", "signatures"]) ProverPolicyInvalid
  let payload ← asString (members.lookup (utf16Units "payload")) ProverPolicyInvalid
  refuse (isLowerHexText payload = false) ProverPolicyInvalid
  match members.lookup (utf16Units "signatures") with
  | some (.arr signatures) =>
    refuse (signatures.all isSignature = false) ProverPolicyInvalid
    return ⟨payload, signatures⟩
  | _ => throw ProverPolicyInvalid

def readPayload (payload : JsString) : Except Thrown (List (JsString × JsValue)) := do
  let bytes ← expect (decodeLowerHex payload) ProverPolicyInvalid
  let text ← ofOption (textDecode bytes) ProverPolicyInvalid
  isRecord (jsonParse text)

/-- The file's shape and the payload fields the client schedules by. -/
def readPolicy (file : JsValue) (nowMs : ℕ) : Except Thrown HeldProverPolicy := do
  let members ← isRecord (some file)
  refuse (¬onlyKeys members ["release", "freshness"]) ProverPolicyInvalid
  let releasePart ← readPart (members.lookup (utf16Units "release"))
  let freshnessPart ← readPart (members.lookup (utf16Units "freshness"))
  let approved ← readPayload releasePart.payload
  let fresh ← readPayload freshnessPart.payload
  let version ← isInteger 1 (approved.lookup (utf16Units "version"))
  let releaseExpiresAt ← isInteger 1 (approved.lookup (utf16Units "expires_at"))
  let policy ← isRecord (approved.lookup (utf16Units "policy"))
  let maxAgeSecs ← isInteger 1 (policy.lookup (utf16Units "max_age_secs"))
  let freshUntil ← isInteger 1 (fresh.lookup (utf16Units "expires_at"))
  let issuedAt ← isInteger 0 (fresh.lookup (utf16Units "issued_at"))
  refuse (freshUntil ≤ issuedAt) ProverPolicyInvalid
  let expiresAt := min releaseExpiresAt freshUntil
  refuse (expiresAt * 1000 ≤ nowMs) (spr "ProverPolicyExpired")
  return ⟨⟨releasePart, freshnessPart⟩, version, maxAgeSecs, issuedAt, expiresAt, some nowMs⟩

/-- How a request for the file goes. -/
inductive PolicyResponse where
  /-- The transport fails. -/
  | failed (e : Thrown)
  /-- The status is not one of success. -/
  | status
  /-- The body as `readBoundedText` reads it. -/
  | body (text : Except Thrown JsString)

def fetchPolicy : PolicyResponse → Except Thrown JsValue
  | .failed e => throw e
  | .status => throw (spr "ProverPolicyUnavailable")
  | .body (.ok text) => ofOption (jsonParse text) ProverPolicyInvalid
  | .body (.error e) => throw (if e = spr "ResponseTooLarge" then e else ProverPolicyInvalid)

/-- The file that a download brings at an instant. -/
def downloaded (response : PolicyResponse) (nowMs : ℕ) : Except Thrown HeldProverPolicy := do
  readPolicy (← fetchPolicy response) nowMs

end Reading

section Freshness

variable {held : HeldProverPolicy} {nowMs : ℕ}

def expired (held : HeldProverPolicy) (nowMs : ℕ) : Bool := decide (held.expiresAt * 1000 ≤ nowMs)

def fresh (held : HeldProverPolicy) (nowMs : ℕ) : Bool :=
  match held.fetchedAtMs with
  | none => false
  | some fetchedAtMs =>
    decide (fetchedAtMs ≤ nowMs ∧ nowMs - fetchedAtMs < held.maxAgeSecs * 1000) && !expired held nowMs

/-- What is served is in force, and younger than its maximal age. -/
theorem fresh_iff : fresh held nowMs = true ↔ expired held nowMs = false ∧
    ∃ fetchedAtMs, held.fetchedAtMs = some fetchedAtMs ∧ fetchedAtMs ≤ nowMs ∧
      nowMs - fetchedAtMs < held.maxAgeSecs * 1000 := by
  unfold fresh
  cases held.fetchedAtMs with
  | none => simp
  | some fetchedAtMs => simp [and_comm]

theorem expired_of_downloaded {response : PolicyResponse} (h : downloaded response nowMs = .ok held) :
    expired held nowMs = false := by
  simp only [downloaded, readPolicy, bind_eq_ok, refuse_eq_ok, pure_eq_ok, exists_const] at h
  obtain ⟨file, -, members, -, -, releasePart, -, freshnessPart, -, approved, -, fresh, -, version, -,
    releaseExpiresAt, -, policy, -, maxAgeSecs, -, freshUntil, -, issuedAt, -, -, hnow, rfl⟩ := h
  exact decide_eq_false hnow

end Freshness

/-- A held file goes by the number of the download that brought it. -/
structure HeldFile where
  policy : HeldProverPolicy
  origin : ℕ

/-- The fields of `SprEmbeddedWalletProverPolicy`, and the clock. The clock stands still in a
microtask. -/
structure ProverPolicy where
  held : Option HeldFile
  downloads : Flights (Except Thrown HeldFile)
  /-- What was held when each download began. -/
  began : ℕ → Option HeldFile
  nowMs : ℕ

namespace ProverPolicy

inductive Event where
  /-- A call of `current` whose signal is aborted already. -/
  | refused (call : ℕ)
  /-- A call of `current` that is served what is held. -/
  | served (call : ℕ) (held : HeldFile) (nowMs : ℕ)
  | started (call download : ℕ) (held : Option HeldFile) (nowMs : ℕ)
  | joined (call download : ℕ)
  | landed (download : ℕ) (response : PolicyResponse) (nowMs : ℕ)
  | settled (download : ℕ)
  /-- A call ends with its download's file. -/
  | answered (call download : ℕ) (held : HeldFile)
  /-- A call ends with its download's error. -/
  | failed (call download : ℕ) (e : Thrown)
  /-- A call ends because its own signal aborted. -/
  | cancelled (call download : ℕ)
  | invalidated
  | tick (nowMs : ℕ)

def new (nowMs : ℕ) : ProverPolicy where
  held := none
  downloads := .new
  began _ := none
  nowMs := nowMs

/-- `#refresh` after its fetch: what the download's promise comes to. -/
def refresh (download : ℕ) (held : Option HeldFile) (aborted : Bool) (response : PolicyResponse)
    (nowMs : ℕ) : Except Thrown HeldFile :=
  let next : Except Thrown HeldProverPolicy := do
    let policy ← downloaded response nowMs
    -- A download every caller abandoned does not replace the held file.
    refuse (aborted = true) .platform
    return policy
  match next, held with
  | .ok policy, _ => .ok ⟨policy, download⟩
  | .error e, none => .error e
  | .error e, some held =>
    if aborted = true ∨ expired held.policy nowMs = true then .error e
    else .ok { held with policy := { held.policy with fetchedAtMs := some nowMs } }

def land (s : ProverPolicy) (download : ℕ) (result : Except Thrown HeldFile) : ProverPolicy :=
  { s with
    held := match result with
      | .ok held => some held
      | .error _ => s.held
    downloads := s.downloads.setStage download (.landed result) }

def invalidate (s : ProverPolicy) : ProverPolicy :=
  { s with
    held := s.held.map fun held =>
      { held with policy := { held.policy with fetchedAtMs := none } } }

def start (s : ProverPolicy) : ProverPolicy :=
  { s with
    downloads := s.downloads.start.wait s.downloads.made
    began := Function.update s.began s.downloads.made s.held }

def withDownloads (s : ProverPolicy) (downloads : Flights (Except Thrown HeldFile)) : ProverPolicy :=
  { s with downloads := downloads }

/-- Nothing is held that serves a call now. -/
def Stale (s : ProverPolicy) : Prop := ∀ held, s.held = some held → fresh held.policy s.nowMs = false

/-- What one microtask or one call does. A download may land at any time, whatever its signal says. -/
inductive Step (s : ProverPolicy) : Event → ProverPolicy → Prop where
  | refused : Step s (.refused s.downloads.calls) (s.withDownloads s.downloads.pass)
  | served {held : HeldFile} (h : s.held = some held) (hfresh : fresh held.policy s.nowMs = true) :
    Step s (.served s.downloads.calls held s.nowMs) (s.withDownloads s.downloads.pass)
  | started (stale : s.Stale) (empty : s.downloads.slot = none) :
    Step s (.started s.downloads.calls s.downloads.made s.held s.nowMs) s.start
  -- Also when the download began before an `invalidate`.
  | joined {d : ℕ} (stale : s.Stale) (slot : s.downloads.slot = some d) :
    Step s (.joined s.downloads.calls d) (s.withDownloads (s.downloads.wait d))
  | landed {d : ℕ} {response : PolicyResponse} {result : Except Thrown HeldFile}
    (made : d < s.downloads.made) (running : s.downloads.stage d = .running)
    (h : refresh d (s.began d) (s.downloads.aborted d) response s.nowMs = result) :
    Step s (.landed d response s.nowMs) (s.land d result)
  | settled {d : ℕ} {result : Except Thrown HeldFile} (stage : s.downloads.stage d = .landed result) :
    Step s (.settled d) (s.withDownloads (s.downloads.settle d result))
  | answered {k d : ℕ} {held : HeldFile} (waits : (k, d) ∈ s.downloads.waiting)
    (stage : s.downloads.stage d = .settled (.ok held)) :
    Step s (.answered k d held) (s.withDownloads (s.downloads.leave k d))
  | failed {k d : ℕ} {e : Thrown} (waits : (k, d) ∈ s.downloads.waiting)
    (stage : s.downloads.stage d = .settled (.error e)) :
    Step s (.failed k d e) (s.withDownloads (s.downloads.leave k d))
  | cancelled {k d : ℕ} (waits : (k, d) ∈ s.downloads.waiting) :
    Step s (.cancelled k d) (s.withDownloads (s.downloads.leave k d))
  | invalidated : Step s .invalidated s.invalidate
  | tick {nowMs : ℕ} (h : s.nowMs ≤ nowMs) : Step s (.tick nowMs) { s with nowMs := nowMs }

variable {s s' : ProverPolicy} {e : Event} {es : List Event} {d k : ℕ}

section Refresh

variable {held : Option HeldFile} {aborted : Bool} {response : PolicyResponse} {nowMs : ℕ}

theorem refresh_of_ok {policy : HeldProverPolicy} (h : downloaded response nowMs = .ok policy) :
    refresh d held false response nowMs = .ok ⟨policy, d⟩ := by
  unfold refresh
  rw [h]
  rfl

theorem refresh_aborted (d : ℕ) (held : Option HeldFile) (response : PolicyResponse) (nowMs : ℕ) :
    ∃ e, refresh d held true response nowMs = .error e := by
  unfold refresh
  cases downloaded response nowMs <;> cases held <;> exact ⟨_, rfl⟩

theorem refresh_of_error (d : ℕ) (held : Option HeldFile) {e : Thrown}
    (h : downloaded response nowMs = .error e) :
    refresh d held false response nowMs = .error e ∨ ∃ old, held = some old ∧
      expired old.policy nowMs = false ∧ refresh d held false response nowMs =
        .ok { old with policy := { old.policy with fetchedAtMs := some nowMs } } := by
  unfold refresh
  rw [h]
  cases held with
  | none => exact .inl rfl
  | some old =>
    cases hexpired : expired old.policy nowMs with
    | true =>
      left
      show (if _ ∨ expired old.policy nowMs = true then _ else _) = _
      exact if_pos (.inr hexpired)
    | false =>
      refine .inr ⟨old, rfl, hexpired, ?_⟩
      show (if _ ∨ expired old.policy nowMs = true then _ else _) = _
      exact if_neg (by simp [hexpired])

/-- A download brings its own file, or the one that was held and is in force, and nothing once it is
aborted. -/
theorem refresh_eq_ok {file : HeldFile} (h : refresh d held aborted response nowMs = .ok file) :
    aborted = false ∧ (downloaded response nowMs = .ok file.policy ∧ file.origin = d ∨
      ∃ e old, downloaded response nowMs = .error e ∧ held = some old ∧
        expired old.policy nowMs = false ∧
        file = { old with policy := { old.policy with fetchedAtMs := some nowMs } }) := by
  cases aborted with
  | true =>
    obtain ⟨e, he⟩ := refresh_aborted d held response nowMs
    rw [he] at h
    cases h
  | false =>
    refine ⟨rfl, ?_⟩
    cases hdownloaded : downloaded response nowMs with
    | ok policy =>
      rw [refresh_of_ok hdownloaded] at h
      obtain rfl := Except.ok.inj h
      exact .inl ⟨rfl, rfl⟩
    | error e =>
      obtain herror | ⟨old, hold, hexpired, hkept⟩ := refresh_of_error d held hdownloaded
      · rw [herror] at h
        cases h
      · rw [hkept] at h
        exact .inr ⟨e, old, rfl, hold, hexpired, (Except.ok.inj h).symm⟩

/-- What a download brings is in force. -/
theorem expired_of_refresh {file : HeldFile} (h : refresh d held aborted response nowMs = .ok file) :
    expired file.policy nowMs = false := by
  obtain ⟨-, ⟨hdownloaded, -⟩ | ⟨-, old, -, -, hexpired, rfl⟩⟩ := refresh_eq_ok h
  · exact expired_of_downloaded hdownloaded
  · exact hexpired

/-- A download whose caller waits fails because its request did. -/
theorem error_of_refresh {e : Thrown} (h : refresh d held false response nowMs = .error e) :
    downloaded response nowMs = .error e := by
  cases hdownloaded : downloaded response nowMs with
  | ok policy =>
    rw [refresh_of_ok hdownloaded] at h
    cases h
  | error e' =>
    obtain herror | ⟨old, -, -, hkept⟩ := refresh_of_error d held hdownloaded
    · exact Except.error.inj (herror.symm.trans h) ▸ rfl
    · rw [hkept] at h
      cases h

end Refresh

section Steps

/-- What an event is for the downloads, of which one lands with the result. -/
def Event.flight (result : Except Thrown HeldFile) : Event → Option (Flights.Event (Except Thrown HeldFile))
  | .refused k | .served k _ _ => some (.passed k)
  | .started k d _ _ => some (.started k d)
  | .joined k d => some (.joined k d)
  | .landed d _ _ => some (.landed d result)
  | .settled d => some (.settled d)
  | .answered k d _ | .failed k d _ | .cancelled k d => some (.left k d)
  | .invalidated | .tick _ => none

theorem downloads_step (h : s.Step e s') : s'.downloads = s.downloads ∨
    ∃ result fe, e.flight result = some fe ∧ s.downloads.Step fe s'.downloads := by
  cases h with
  | refused | served h hfresh => exact .inr ⟨.error .platform, _, rfl, .passed⟩
  | started stale empty => exact .inr ⟨.error .platform, _, rfl, .started empty⟩
  | joined stale slot => exact .inr ⟨.error .platform, _, rfl, .joined slot⟩
  | landed made running h => exact .inr ⟨_, _, rfl, .landed made running⟩
  | settled stage => exact .inr ⟨.error .platform, _, rfl, .settled stage⟩
  | answered waits stage | failed waits stage | cancelled waits =>
    exact .inr ⟨.error .platform, _, rfl, .left waits⟩
  | invalidated | tick h => exact .inl rfl

/-- What every step of the downloads keeps, every step keeps. -/
theorem downloads_keep {I : Flights (Except Thrown HeldFile) → Prop} (h : s.Step e s')
    (start : I s.downloads) (keep : ∀ fe f', s.downloads.Step fe f' → I f') : I s'.downloads := by
  obtain hsame | ⟨_, fe, -, hstep⟩ := downloads_step h
  · rwa [hsame]
  · exact keep fe _ hstep

theorem tied_step (tied : s.downloads.Tied) (h : s.Step e s') : s'.downloads.Tied :=
  downloads_keep h tied fun _ _ hstep => tied.step hstep

theorem made_step (h : s.Step e s') : s.downloads.made ≤ s'.downloads.made :=
  downloads_keep (I := fun f => s.downloads.made ≤ f.made) h (Nat.le_refl _)
    fun _ _ hstep => Flights.made_step hstep

theorem aborted_step (h : s.Step e s') (haborted : s.downloads.aborted d = true) :
    s'.downloads.aborted d = true :=
  downloads_keep (I := fun f => f.aborted d = true) h haborted
    fun _ _ hstep => Flights.aborted_step hstep haborted

theorem kept_step (h : s.Step e s') : s'.downloads.kept = s.downloads.kept := by
  cases h <;> rfl

theorem began_step (h : s.Step e s') (hd : d < s.downloads.made) : s'.began d = s.began d := by
  cases h with
  | started => exact Function.update_of_ne hd.ne _ _
  | _ => rfl

theorem nowMs_step (h : s.Step e s') : s.nowMs ≤ s'.nowMs := by
  cases h with
  | tick h => exact h
  | _ => exact Nat.le_refl _

/-- How a step replaces what is held. -/
theorem held_cases (h : s.Step e s') : s'.held = s.held ∨
    e = .invalidated ∧ s'.held = s.invalidate.held ∨
    ∃ d response held, e = .landed d response s.nowMs ∧ d < s.downloads.made ∧
      s.downloads.stage d = .running ∧
      refresh d (s.began d) (s.downloads.aborted d) response s.nowMs = .ok held ∧ s'.held = some held := by
  cases h with
  | @landed d response result made running h =>
    cases result with
    | ok held => exact .inr (.inr ⟨d, response, held, rfl, made, running, h, rfl⟩)
    | error e => exact .inl rfl
  | invalidated => exact .inr (.inl ⟨rfl, rfl⟩)
  | _ => exact .inl rfl

/-- How a download comes to its result. -/
theorem stage_cases (h : s.Step e s') (d : ℕ) : s'.downloads.stage d = s.downloads.stage d ∨
    (∃ response, e = .landed d response s.nowMs ∧ s.downloads.stage d = .running ∧
      s'.downloads.stage d =
        .landed (refresh d (s.began d) (s.downloads.aborted d) response s.nowMs)) ∨
    ∃ r, e = .settled d ∧ s.downloads.stage d = .landed r ∧ s'.downloads.stage d = .settled r := by
  cases h with
  | @landed d' response result made running h =>
    have hset : (s.land d' result).downloads.stage d =
        if d = d' then .landed result else s.downloads.stage d := Flights.setStage_stage
    by_cases hd : d = d'
    · subst hd
      exact .inr (.inl ⟨response, rfl, running, by rw [hset, if_pos rfl, h]⟩)
    · exact .inl (by rw [hset, if_neg hd])
  | @settled d' r stage =>
    have hset : (s.downloads.settle d' r).stage d =
        if d = d' then .settled r else s.downloads.stage d := Flights.setStage_stage
    by_cases hd : d = d'
    · subst hd
      exact .inr (.inr ⟨r, rfl, stage, hset.trans (if_pos rfl)⟩)
    · exact .inl (hset.trans (if_neg hd))
  | _ => exact .inl rfl

end Steps

section Traced

variable {nowMs : ℕ}

/-- A download has its result. -/
def Has (s : ProverPolicy) (d : ℕ) (result : Except Thrown HeldFile) : Prop :=
  s.downloads.stage d = .landed result ∨ s.downloads.stage d = .settled result

theorem Has.unique {r r' : Except Thrown HeldFile} (h : s.Has d r) (h' : s.Has d r') : r = r' := by
  obtain h | h := h <;> obtain h' | h' := h' <;> rw [h] at h' <;> cases h' <;> rfl

theorem Has.step {r : Except Thrown HeldFile} (has : s.Has d r) (h : s.Step e s') : s'.Has d r := by
  obtain hsame | ⟨_, -, hrunning, -⟩ | ⟨r', -, hlanded, hsettled⟩ := stage_cases h d
  · rwa [Has, hsame]
  · obtain has | has := has <;> rw [hrunning] at has <;> cases has
  · obtain has | has := has
    · rw [hlanded] at has
      cases has
      exact .inr hsettled
    · rw [hlanded] at has
      cases has

/-- What the events tell about a state that they lead to. -/
structure Traced (es : List Event) (s : ProverPolicy) : Prop where
  tied : s.downloads.Tied
  kept : ∀ d, s.downloads.kept d = false
  started : ∀ d, d < s.downloads.made → ∃ k nowMs, .started k d (s.began d) nowMs ∈ es ∧ nowMs ≤ s.nowMs
  /-- A download that has landed did so once, after it began. -/
  landed : ∀ d response nowMs, .landed d response nowMs ∈ es →
    ∃ aborted, (aborted = true → s.downloads.aborted d = true) ∧
      s.Has d (refresh d (s.began d) aborted response nowMs)
  began : ∀ d response nowMs, .landed d response nowMs ∈ es → d < s.downloads.made ∧
    ∃ k nowMs', .started k d (s.began d) nowMs' ∈ es ∧ nowMs' ≤ nowMs
  result : ∀ d r, s.Has d r → ∃ response nowMs, .landed d response nowMs ∈ es
  served : ∀ k held nowMs, .served k held nowMs ∈ es → fresh held.policy nowMs = true
  answered : ∀ k d held, .answered k d held ∈ es → s.Has d (.ok held)
  failed : ∀ k d e, .failed k d e ∈ es →
    ∃ response nowMs, .landed d response nowMs ∈ es ∧ downloaded response nowMs = .error e

theorem Traced.new : Traced [] (ProverPolicy.new nowMs) where
  tied := .new
  kept _ := rfl
  started _ h := absurd h (Nat.not_lt_zero _)
  landed _ _ _ h := absurd h List.not_mem_nil
  began _ _ _ h := absurd h List.not_mem_nil
  result _ _ h := by obtain h | h := h <;> cases h
  served _ _ _ h := absurd h List.not_mem_nil
  answered _ _ _ h := absurd h List.not_mem_nil
  failed _ _ _ h := absurd h List.not_mem_nil

theorem Has.lt_made {r : Except Thrown HeldFile} (has : s.Has d r) (tied : s.downloads.Tied) :
    d < s.downloads.made := by
  refine tied.lt_made ?_
  obtain has | has := has <;> rw [has] <;> exact fun h => nomatch h

theorem Traced.started_step (traced : Traced es s) (h : s.Step e s') (hd : d < s'.downloads.made) :
    ∃ k nowMs, .started k d (s'.began d) nowMs ∈ es ++ [e] ∧ nowMs ≤ s'.nowMs := by
  by_cases hold : d < s.downloads.made
  · obtain ⟨k, nowMs, hstarted, hle⟩ := traced.started d hold
    rw [began_step h hold]
    exact ⟨k, nowMs, List.mem_append_left _ hstarted, hle.trans (nowMs_step h)⟩
  · cases h with
    | started stale empty =>
      obtain rfl : d = s.downloads.made := Nat.le_antisymm (Nat.le_of_lt_succ hd) (Nat.not_lt.1 hold)
      have hbegan : s.start.began s.downloads.made = s.held := Function.update_self ..
      rw [hbegan]
      exact ⟨_, _, List.mem_append_right _ (List.mem_singleton_self _), Nat.le_refl _⟩
    | _ => exact absurd hd hold

theorem Traced.landed_step (traced : Traced es s) (h : s.Step e s') {response : PolicyResponse}
    (hlanded : .landed d response nowMs ∈ es ++ [e]) :
    (∃ aborted, (aborted = true → s'.downloads.aborted d = true) ∧
      s'.Has d (refresh d (s'.began d) aborted response nowMs)) ∧
    d < s'.downloads.made ∧ ∃ k nowMs', .started k d (s'.began d) nowMs' ∈ es ++ [e] ∧ nowMs' ≤ nowMs := by
  obtain hpassed | hnow := List.mem_append.1 hlanded
  · obtain ⟨aborted, haborted, has⟩ := traced.landed d response nowMs hpassed
    obtain ⟨hmade, k, nowMs', hstarted, hle⟩ := traced.began d response nowMs hpassed
    rw [began_step h hmade]
    exact ⟨⟨aborted, fun ha => aborted_step h (haborted ha), has.step h⟩,
      Nat.lt_of_lt_of_le hmade (made_step h), k, nowMs', List.mem_append_left _ hstarted, hle⟩
  · obtain rfl := List.mem_singleton.1 hnow
    cases h with
    | landed made running h =>
      obtain ⟨k, nowMs', hstarted, hle⟩ := traced.started d made
      refine ⟨⟨s.downloads.aborted d, id, .inl ?_⟩, made, k, nowMs', List.mem_append_left _ hstarted, hle⟩
      subst h
      exact Flights.setStage_stage.trans (if_pos rfl)

theorem Traced.answered_step (traced : Traced es s) (h : s.Step e s') {held : HeldFile}
    (hanswered : .answered k d held ∈ es ++ [e]) : s'.Has d (.ok held) := by
  obtain hpassed | hnow := List.mem_append.1 hanswered
  · exact (traced.answered k d held hpassed).step h
  · obtain rfl := List.mem_singleton.1 hnow
    cases h with
    | answered waits stage => exact .inr stage

theorem Traced.failed_step (traced : Traced es s) (h : s.Step e s') {e' : Thrown}
    (hfailed : .failed k d e' ∈ es ++ [e]) : ∃ response nowMs, .landed d response nowMs ∈ es ++ [e] ∧
      downloaded response nowMs = .error e' := by
  obtain hpassed | hnow := List.mem_append.1 hfailed
  · obtain ⟨response, nowMs, hlanded, herror⟩ := traced.failed k d e' hpassed
    exact ⟨response, nowMs, List.mem_append_left _ hlanded, herror⟩
  · obtain rfl := List.mem_singleton.1 hnow
    cases h with
    | failed waits stage =>
      obtain ⟨response, nowMs, hlanded⟩ := traced.result d _ (.inr stage)
      obtain ⟨aborted, haborted, has⟩ := traced.landed d response nowMs hlanded
      have hlive : aborted = false := by
        cases aborted with
        | false => rfl
        | true =>
          rw [traced.tied.live waits] at haborted
          exact nomatch haborted rfl
      rw [hlive] at has
      exact ⟨response, nowMs, List.mem_append_left _ hlanded,
        error_of_refresh (has.unique (.inr stage))⟩

theorem Traced.result_step (traced : Traced es s) (h : s.Step e s') {r : Except Thrown HeldFile}
    (has : s'.Has d r) : ∃ response nowMs, .landed d response nowMs ∈ es ++ [e] := by
  obtain hsame | ⟨response, rfl, -, -⟩ | ⟨r', -, hlanded, -⟩ := stage_cases h d
  · rw [Has, hsame] at has
    obtain ⟨response, nowMs, hlanded⟩ := traced.result d r has
    exact ⟨response, nowMs, List.mem_append_left _ hlanded⟩
  · exact ⟨response, s.nowMs, List.mem_append_right _ (List.mem_singleton_self _)⟩
  · obtain ⟨response, nowMs, hlanded⟩ := traced.result d r' (.inl hlanded)
    exact ⟨response, nowMs, List.mem_append_left _ hlanded⟩

theorem Traced.step (traced : Traced es s) (h : s.Step e s') : Traced (es ++ [e]) s' where
  tied := tied_step traced.tied h
  kept d := by
    rw [kept_step h]
    exact traced.kept d
  started _ := traced.started_step h
  landed _ _ _ hlanded := (traced.landed_step h hlanded).1
  began _ _ _ hlanded := (traced.landed_step h hlanded).2
  result _ _ := traced.result_step h
  served k held nowMs hserved := by
    obtain hpassed | hnow := List.mem_append.1 hserved
    · exact traced.served k held nowMs hpassed
    · obtain rfl := List.mem_singleton.1 hnow
      cases h with
      | served h hfresh => exact hfresh
  answered _ _ _ := traced.answered_step h
  failed _ _ _ := traced.failed_step h

theorem traced_run (run : Run Step (ProverPolicy.new nowMs) es s) : Traced es s :=
  run.history (I := Traced) Traced.new fun _ _ _ _ _ traced h => traced.step h

end Traced

section Shared

variable {nowMs : ℕ}

/-- A download that has not landed and that somebody waits for. -/
def InFlight (s : ProverPolicy) (d : ℕ) : Prop :=
  s.downloads.stage d = .running ∧ ∃ k, (k, d) ∈ s.downloads.waiting

/-- A download that has not landed and that nobody waits for any more. -/
def Abandoned (s : ProverPolicy) (d : ℕ) : Prop :=
  d < s.downloads.made ∧ s.downloads.stage d = .running ∧ ∀ k, (k, d) ∉ s.downloads.waiting

/-- What the callers of `current` can rely on in a state reached by these events. -/
structure Shared (es : List Event) (s : ProverPolicy) : Prop where
  single : ∀ d d', s.InFlight d → s.InFlight d' → d = d'
  /-- No caller stops a download that another waits for. -/
  live : ∀ k d, (k, d) ∈ s.downloads.waiting → s.downloads.aborted d = false
  /-- Who is rejected without an abort of its own is rejected with the failure of the download. -/
  failed : ∀ k d e, .failed k d e ∈ es →
    ∃ response nowMs, .landed d response nowMs ∈ es ∧ downloaded response nowMs = .error e
  /-- A download that everybody left replaces nothing, however late it lands. -/
  abandoned : ∀ d, s.Abandoned d → ∀ es' s', Run Step s es' s' →
    ∀ response s'', Step s' (.landed d response s'.nowMs) s'' → s''.held = s'.held
  /-- What is held is replaced only by a file in force. -/
  replaced : ∀ e s', Step s e s' → s'.held = s.held ∨
    e = .invalidated ∧ s'.held = s.invalidate.held ∨
    ∃ held, s'.held = some held ∧ expired held.policy s.nowMs = false
  /-- What is served without a download is in force and young. -/
  served : ∀ k held nowMs, .served k held nowMs ∈ es → expired held.policy nowMs = false ∧
    ∃ fetchedAtMs, held.policy.fetchedAtMs = some fetchedAtMs ∧ fetchedAtMs ≤ nowMs ∧
      nowMs - fetchedAtMs < held.policy.maxAgeSecs * 1000
  /-- A failed download answers its callers only if a file in force was held when it began. -/
  answered : ∀ k d held, .answered k d held ∈ es → ∀ response nowMs e,
    .landed d response nowMs ∈ es → downloaded response nowMs = .error e →
    ∃ k' old nowMs', .started k' d (some old) nowMs' ∈ es ∧ expired old.policy nowMs' = false

theorem expired_mono {held : HeldProverPolicy} {m n : ℕ} (hle : m ≤ n) (h : expired held n = false) :
    expired held m = false := by
  have hn := of_decide_eq_false h
  exact decide_eq_false (by omega)

/-- A download that everybody left was aborted, and lands with nothing. -/
theorem Traced.held_of_abandoned (traced : Traced es s) (h : s.Abandoned d) {es' : List Event}
    (run : Run Step s es' s') {response : PolicyResponse} {s'' : ProverPolicy}
    (hstep : s'.Step (.landed d response s'.nowMs) s'') : s''.held = s'.held := by
  obtain ⟨hmade, hrunning, hleft⟩ := h
  have past := traced.tied.past_of_left hmade (traced.kept d) hleft
  have haborted : s.downloads.aborted d = true := by
    refine past.aborted fun r => ?_
    rw [hrunning]
    exact fun h => nomatch h
  have haborted' : s'.downloads.aborted d = true :=
    run.invariant (I := fun s => s.downloads.aborted d = true) haborted
      fun _ _ _ _ haborted h => aborted_step h haborted
  cases hstep with
  | landed made running h =>
    obtain ⟨e, he⟩ := refresh_aborted d (s'.began d) response s'.nowMs
    rw [haborted', he] at h
    subst h
    rfl

theorem Traced.failed_of_answered (traced : Traced es s) {held : HeldFile}
    {response : PolicyResponse} {e : Thrown} (hanswered : .answered k d held ∈ es)
    (hlanded : .landed d response nowMs ∈ es) (herror : downloaded response nowMs = .error e) :
    ∃ k' old nowMs', .started k' d (some old) nowMs' ∈ es ∧ expired old.policy nowMs' = false := by
  obtain ⟨aborted, -, has⟩ := traced.landed d response nowMs hlanded
  obtain ⟨-, k', nowMs', hstarted, hle⟩ := traced.began d response nowMs hlanded
  obtain ⟨-, ⟨hok, -⟩ | ⟨-, old, -, hold, hexpired, -⟩⟩ :=
    refresh_eq_ok (has.unique (traced.answered k d held hanswered))
  · rw [herror] at hok
    cases hok
  · rw [hold] at hstarted
    exact ⟨k', old, nowMs', hstarted, expired_mono hle hexpired⟩

/-- Downloads are shared: in every state that a run leads to, the callers rely on these. -/
theorem shared_of_run (run : Run Step (ProverPolicy.new nowMs) es s) : Shared es s := by
  have traced := traced_run run
  refine ⟨?_, fun k d => traced.tied.live, traced.failed, ?_, ?_, ?_, ?_⟩
  · have open_of_inFlight : ∀ d, s.InFlight d → s.downloads.Open d := by
      rintro d ⟨hrunning, k, hwaits⟩
      refine ⟨traced.tied.waiting k d hwaits, traced.tied.live hwaits, fun r => ?_⟩
      rw [hrunning]
      exact fun h => nomatch h
    intro d d' hd hd'
    exact traced.tied.single (open_of_inFlight d hd) (open_of_inFlight d' hd')
  · intro d habandoned es' s' run' response s'' hstep
    exact traced.held_of_abandoned habandoned run' hstep
  · intro e s' hstep
    obtain hsame | hinvalidated | ⟨d, response, held, -, -, -, hrefresh, hheld⟩ := held_cases hstep
    · exact .inl hsame
    · exact .inr (.inl hinvalidated)
    · exact .inr (.inr ⟨held, hheld, expired_of_refresh hrefresh⟩)
  · intro k held nowMs hserved
    exact fresh_iff.1 (traced.served k held nowMs hserved)
  · intro k d held hanswered response nowMs e hlanded herror
    exact traced.failed_of_answered hanswered hlanded herror

/-- Two callers share a download that fails, and one of them left before. -/
theorem shared_failedDownload : ∃ s, Shared [.started 0 0 none 7, .joined 1 0, .cancelled 0 0,
    .landed 0 .status 7, .settled 0, .failed 1 0 (spr "ProverPolicyUnavailable")] s :=
  ⟨_, @shared_of_run _ _ 7 <|
    .cons (.started (fun _ h => nomatch h) rfl) <|
    .cons (.joined (fun _ h => nomatch h) rfl) <|
    .cons (.cancelled (List.mem_cons_of_mem _ List.mem_cons_self)) <|
    .cons (.landed (Nat.zero_lt_one) rfl rfl) <|
    .cons (.settled rfl) <|
    .cons (.failed List.mem_cons_self rfl) <|
    .nil _⟩

end Shared

end ProverPolicy

end ZolanaTvc.Wallet
