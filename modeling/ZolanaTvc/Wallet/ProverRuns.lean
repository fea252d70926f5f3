import ZolanaTvc.Wallet.ProverPolicy

/-!
# Proofs over a shared policy

Proofs share one source of the policy file. A proof whose key the prover lost, or whose policy or
attestation the enclave refused, invalidates the held file and seals once more.

## Main results

* `Provers.policy_renewed`: while no download is in its slot when the file is invalidated, who asks for
  the file after that is answered with one whose download began after it, or a later download failed
  while the held file was in force; so it is for the second request of a proof, and there is no third.
* `Provers.overlapped_not_retried`: an invalidation during a download is lost.
-/

namespace ZolanaTvc.Wallet

open Except Json Protocol

namespace ProverPolicy

variable {s s' : ProverPolicy} {e : Event} {es : List Event} {d k m : ℕ} {held : HeldFile}

/-- No download is in its slot when the file is invalidated. -/
def Careful (s : ProverPolicy) : Event → Prop
  | .invalidated => s.downloads.slot = none
  | _ => True

/-- The download began in these events. -/
def Began (es : List Event) (d : ℕ) : Prop := ∃ k held nowMs, .started k d held nowMs ∈ es

/-- A call that starts in these events waits for the download. -/
def Joined (es : List Event) (k d : ℕ) : Prop :=
  (∃ held nowMs, .started k d held nowMs ∈ es) ∨ .joined k d ∈ es

/-- A call that starts in these events is answered with the file in them. -/
def Serves (es : List Event) (k : ℕ) (held : HeldFile) : Prop :=
  (∃ nowMs, .served k held nowMs ∈ es) ∨ ∃ d, Joined es k d ∧ .answered k d held ∈ es

/-- A download that began in these events failed while the file that was held was in force. -/
def FellBack (es : List Event) : Prop :=
  ∃ k d old nowMs response nowMs' e, .started k d (some old) nowMs ∈ es ∧
    .landed d response nowMs' ∈ es ∧ downloaded response nowMs' = .error e ∧
    expired old.policy nowMs' = false

/-- Who asks after an invalidation is not answered with what a download brought that began before it,
unless a later download failed while the held file was in force. -/
def Renewed (es : List Event) : Prop :=
  ∀ before after k held, es = before ++ .invalidated :: after → Serves after k held →
    Began after held.origin ∨ FellBack after

section After

theorem Began.append (h : Began es d) (es' : List Event) : Began (es ++ es') d := by
  obtain ⟨k, held, nowMs, hmem⟩ := h
  exact ⟨k, held, nowMs, List.mem_append_left _ hmem⟩

theorem FellBack.append (h : FellBack es) (es' : List Event) : FellBack (es ++ es') := by
  obtain ⟨k, d, old, nowMs, response, nowMs', e, hstarted, hlanded, h⟩ := h
  exact ⟨k, d, old, nowMs, response, nowMs', e, List.mem_append_left _ hstarted,
    List.mem_append_left _ hlanded, h⟩

/-- The file is new since these events, or excused. -/
def IsNew (es : List Event) (held : HeldFile) : Prop := Began es held.origin ∨ FellBack es

theorem IsNew.append (h : IsNew es held) (es' : List Event) : IsNew (es ++ es') held :=
  h.imp (fun h => h.append es') (fun h => h.append es')

/-- What holds after an invalidation before which `m` downloads were made. -/
structure After (m : ℕ) (es : List Event) (s : ProverPolicy) : Prop where
  since : s.downloads.Since m
  began : ∀ d, m ≤ d → d < s.downloads.made → ∃ k nowMs, .started k d (s.began d) nowMs ∈ es
  held : ∀ held, s.held = some held → held.policy.fetchedAtMs = none ∨ IsNew es held
  result : ∀ d held, m ≤ d → s.Has d (.ok held) → IsNew es held
  joined : ∀ k d, Joined es k d → m ≤ d
  served : ∀ k held nowMs, .served k held nowMs ∈ es → IsNew es held
  answered : ∀ k d held, .answered k d held ∈ es → s.Has d (.ok held)

theorem After.serves (after : After m es s) (h : Serves es k held) : IsNew es held := by
  obtain ⟨nowMs, hserved⟩ | ⟨d, hjoined, hanswered⟩ := h
  · exact after.served k held nowMs hserved
  · exact after.result d held (after.joined k d hjoined) (after.answered k d held hanswered)

/-- A download that lands with a file began after the invalidation. -/
theorem After.landed (after : After m es s) {response : PolicyResponse}
    (hmade : d < s.downloads.made) (hrunning : s.downloads.stage d = .running)
    (h : refresh d (s.began d) (s.downloads.aborted d) response s.nowMs = .ok held) :
    IsNew (es ++ [.landed d response s.nowMs]) held := by
  obtain ⟨hlive, h⟩ := refresh_eq_ok h
  have hle : m ≤ d := by
    by_contra hlt
    obtain ⟨r, hsettled⟩ := after.since.settled (Nat.not_le.1 hlt) hlive
    rw [hrunning] at hsettled
    cases hsettled
  obtain ⟨k, nowMs, hstarted⟩ := after.began d hle hmade
  obtain ⟨-, rfl⟩ | ⟨e, old, herror, hold, hexpired, -⟩ := h
  · exact .inl ⟨k, _, nowMs, List.mem_append_left _ hstarted⟩
  · rw [hold] at hstarted
    exact .inr ⟨k, d, old, nowMs, response, s.nowMs, e, List.mem_append_left _ hstarted,
      List.mem_append_right _ (List.mem_singleton_self _), herror, hexpired⟩

theorem After.held_step (after : After m es s) (h : s.Step e s') (hheld : s'.held = some held) :
    held.policy.fetchedAtMs = none ∨ IsNew (es ++ [e]) held := by
  obtain hsame | ⟨-, hinvalidated⟩ | ⟨d, response, held', rfl, hmade, hrunning, hrefresh, hheld'⟩ :=
    held_cases h
  · exact (after.held held (hsame ▸ hheld)).imp_right fun h => h.append [e]
  · rw [hinvalidated] at hheld
    obtain ⟨old, -, rfl⟩ := Option.map_eq_some_iff.1 hheld
    exact .inl rfl
  · rw [hheld'] at hheld
    obtain rfl := Option.some.inj hheld
    exact .inr (after.landed hmade hrunning hrefresh)

theorem After.result_step (after : After m es s) (h : s.Step e s') (hle : m ≤ d)
    (has : s'.Has d (.ok held)) : IsNew (es ++ [e]) held := by
  obtain hsame | ⟨response, rfl, hrunning, hlanded⟩ | ⟨r, -, hlanded, hsettled⟩ := stage_cases h d
  · rw [Has, hsame] at has
    exact (after.result d held hle has).append [e]
  · have hrefresh := Has.unique (s := s') (.inl hlanded) has
    have hmade : d < s.downloads.made := by
      cases h with
      | landed made running h => exact made
    exact after.landed hmade hrunning hrefresh
  · obtain rfl := Has.unique (s := s') (.inr hsettled) has
    exact (after.result d held hle (.inl hlanded)).append [e]

theorem After.joined_step (after : After m es s) (h : s.Step e s') (hjoined : Joined (es ++ [e]) k d) :
    m ≤ d := by
  simp only [Joined, List.mem_append, List.mem_singleton, exists_or] at hjoined
  obtain (hpassed | ⟨_, _, rfl⟩) | (hpassed | rfl) := hjoined
  · exact after.joined k d (.inl hpassed)
  · cases h with
    | started stale empty => exact after.since.made
  · exact after.joined k d (.inr hpassed)
  · cases h with
    | joined stale slot => exact after.since.slot d slot

theorem After.step (after : After m es s) (h : s.Step e s') : After m (es ++ [e]) s' where
  since := downloads_keep h after.since fun _ _ hstep => after.since.step hstep
  began d hle hmade := by
    -- A download that began before the step began as new as it is now.
    by_cases hold : d < s.downloads.made
    · obtain ⟨k, nowMs, hstarted⟩ := after.began d hle hold
      rw [began_step h hold]
      exact ⟨k, nowMs, List.mem_append_left _ hstarted⟩
    · cases h with
      | started stale empty =>
        obtain rfl : d = s.downloads.made := Nat.le_antisymm (Nat.le_of_lt_succ hmade) (Nat.not_lt.1 hold)
        have hbegan : s.start.began s.downloads.made = s.held := Function.update_self ..
        rw [hbegan]
        exact ⟨_, _, List.mem_append_right _ (List.mem_singleton_self _)⟩
      | _ => exact absurd hmade hold
  held _ := after.held_step h
  result _ _ := after.result_step h
  joined _ _ := after.joined_step h
  served k held nowMs hserved := by
    obtain hpassed | hnow := List.mem_append.1 hserved
    · exact (after.served k held nowMs hpassed).append [e]
    · obtain rfl := List.mem_singleton.1 hnow
      cases h with
      | served h hfresh =>
        obtain ⟨-, fetchedAtMs, hfetched, -⟩ := fresh_iff.1 hfresh
        refine IsNew.append ((after.held held h).resolve_left fun hnone => ?_) _
        rw [hfetched] at hnone
        cases hnone
  answered k d held hanswered := by
    obtain hpassed | hnow := List.mem_append.1 hanswered
    · exact (after.answered k d held hpassed).step h
    · obtain rfl := List.mem_singleton.1 hnow
      cases h with
      | answered waits stage => exact .inr stage

/-- An invalidation while no download is in its slot. -/
theorem After.start (tied : s.downloads.Tied) (empty : s.downloads.slot = none) :
    After s.downloads.made [] s.invalidate where
  since := tied.since empty
  began d hle hmade := absurd hmade (Nat.not_lt.2 hle)
  held held hheld := by
    obtain ⟨old, -, rfl⟩ := Option.map_eq_some_iff.1 hheld
    exact .inl rfl
  result d held hle has := absurd (Has.lt_made has tied) (Nat.not_lt.2 hle)
  joined k d h := by simp [Joined] at h
  served k held nowMs h := absurd h List.not_mem_nil
  answered k d held h := absurd h List.not_mem_nil

theorem renewed_of_run {nowMs : ℕ}
    (run : Run (fun s e s' => s.Step e s' ∧ s.Careful e) (ProverPolicy.new nowMs) es s) : Renewed es := by
  rintro before after k held rfl hserves
  obtain ⟨s₁, run₁, run₂⟩ := run.split
  have traced := traced_run (run₁.mono fun _ _ _ h => h.1)
  cases run₂ with
  | cons h run₃ =>
    obtain ⟨hstep, hcareful⟩ := h
    cases hstep with
    | invalidated =>
      have hafter : After s₁.downloads.made after s :=
        run₃.history (I := After s₁.downloads.made) (After.start traced.tied hcareful)
          fun _ _ _ _ _ after h => after.step h.1
      exact hafter.serves hserves

end After

end ProverPolicy

section Written

/-- A tree is read from the text it is written as. -/
theorem jsonParse_print (t : Json.Tree UInt16) : jsonParse (print t) = jsReader.read t := by
  have hvalue := value_print t (Nat.le_refl _) (s := ([] : List UInt16)) (by simp [Stops])
  rw [List.append_nil] at hvalue
  have hdepth := depth_lt_of_value hvalue
  rw [jsonParse, parse_print t (by omega)]
  rfl

theorem textDecode_utf8 {s : String} (hmark : s.toList.head? ≠ some byteOrderMark) :
    textDecode (utf8 s) = some (utf16Units s) := by
  have hwithout : withoutMark s.toList = s.toList := by
    cases hs : s.toList with
    | nil => rfl
    | cons c cs =>
      rw [hs] at hmark
      exact if_neg fun hc => hmark (congrArg some hc)
  rw [textDecode, fromUtf8_utf8, Option.map_some, hwithout]
  rfl

theorem readPayload_bytesToHex {s : String} (hmark : s.toList.head? ≠ some byteOrderMark) :
    readPayload (bytesToHex (utf8 s)) = isRecord (jsonParse (utf16Units s)) := by
  have hhex : decodeLowerHex (bytesToHex (utf8 s)) = .ok (utf8 s) := decodeLowerHex_eq_ok.2 rfl
  have htext : ofOption (textDecode (utf8 s)) ProverPolicyInvalid = .ok (utf16Units s) := by
    rw [textDecode_utf8 hmark]
    rfl
  rw [readPayload, hhex, expect, ok_bind, htext, ok_bind]

theorem isLowerHexText_bytesToHex (b : Bytes) : isLowerHexText (bytesToHex b) = true := by
  have hdigit : ∀ d : Fin 16, 48 ≤ (hexChar d).toNat ∧ (hexChar d).toNat ≤ 57 ∨
      97 ≤ (hexChar d).toNat ∧ (hexChar d).toNat ≤ 102 := by decide
  have hunits : bytesToHex b = asciiText (hexEncode b) := by
    rw [bytesToHex, Protocol.encodeLowerHex, utf16Units, String.toList_ofList,
      encode_ascii (hexEncode_ascii b)]
  have hlength : (hexEncode b).length = 2 * b.length := by
    rw [hexEncode, List.length_flatMap]
    simp [hexPair, mul_comm]
  rw [isLowerHexText, hunits, asciiText, List.length_map, hlength, Nat.mul_mod_right, List.all_map,
    Bool.and_eq_true, List.all_eq_true]
  refine ⟨rfl, fun c hc => ?_⟩
  obtain ⟨x, -, hx⟩ := List.mem_flatMap.1 hc
  have hcode : CodeUnit.code (CodeUnit.ascii c : UInt16) = c.toNat :=
    CodeUnit.code_ascii c (hexEncode_ascii b c hc)
  change (CodeUnit.ascii c : UInt16).toNat = c.toNat at hcode
  rw [Function.comp_apply, hcode, decide_eq_true_eq]
  rw [hexPair, List.mem_cons, List.mem_singleton] at hx
  obtain rfl | rfl := hx <;> exact hdigit _

/-- An object of two named members. -/
def pairTree (a b : String) (v w : Json.Tree UInt16) : Json.Tree UInt16 :=
  .obj [((utf16Units a).map pieceOf, v), ((utf16Units b).map pieceOf, w)]

theorem read_pairTree {a b : String} {v w : Json.Tree UInt16} {x y : JsValue}
    (hv : jsReader.read v = some x) (hw : jsReader.read w = some y)
    (hne : utf16Units a ≠ utf16Units b) (ha : arrayIndex (utf16Units a) = none)
    (hb : arrayIndex (utf16Units b) = none) :
    jsReader.read (pairTree a b v w) = some (.obj [(utf16Units a, x), (utf16Units b, y)]) := by
  have hunescape : ∀ s : JsString, jsReader.unescape (s.map pieceOf) = some s :=
    fun s => congrArg some (unescape_pieces s)
  have hmembers : ofMembers [(utf16Units a, x), (utf16Units b, y)] =
      [(utf16Units a, x), (utf16Units b, y)] := by
    simp [ofMembers, defineProperty, ownProperties, hne, ha, hb]
  simp only [pairTree, Reader.read, Reader.readMembers, hunescape, hv, hw, Option.bind_some,
    Option.map_some]
  show ((some (ofMembers _)).map Json.obj) = _
  rw [hmembers]
  rfl

end Written

section Proofs

/-- A prover's attestation for one nonce, and when the client fetched it. -/
structure ProverAttestation where
  nonce : JsString
  attestation : List (JsString × JsValue)
  fetchedAtMs : ℕ

/-- How long one attestation may serve further proofs. -/
def attestationReuseMs (held : HeldProverPolicy) (nowMs : ℕ) : ℕ :=
  min (held.maxAgeSecs * 1000) (held.expiresAt * 1000 - nowMs)

/-- Where `#sealAndProve` is in its loop. -/
inductive ProofStage where
  /-- About to ask for the policy. -/
  | policy
  | waiting (call download : ℕ)
  /-- About to attest under the policy. -/
  | attesting (held : HeldFile)
  /-- The enclave was asked to seal under the policy. -/
  | sealing (held : HeldFile)
  | submitting (held : HeldFile)
  | ended

/-- The variables of `#sealAndProve`, and the wallet that proves. -/
structure Proof where
  stage : ProofStage
  fresh : Bool
  attempt : ℕ
  wallet : ℕ

/-- The proofs over one source of the policy. Each wallet keeps an attestation. -/
structure Provers where
  source : ProverPolicy
  attested : ℕ → Option ProverAttestation
  proofs : ℕ → Proof

end Proofs

namespace Provers

inductive Event where
  /-- A step of the source that is no step of a proof. -/
  | source (e : ProverPolicy.Event)
  /-- A proof calls `current`, or its call ends. -/
  | policy (proof : ℕ) (e : ProverPolicy.Event)
  /-- A proof asks the enclave to seal under a policy. -/
  | asked (proof : ℕ) (held : HeldFile)
  /-- The enclave sealed. -/
  | sealed (proof : ℕ)
  /-- A proof forgets the prover, which invalidates the policy. -/
  | forgot (proof : ℕ)
  /-- A proof ends without more of the source. -/
  | ended (proof : ℕ)

/-- What an event is for the source. -/
def Event.ofSource : Event → List ProverPolicy.Event
  | .source e | .policy _ e => [e]
  | .forgot _ => [.invalidated]
  | .asked .. | .sealed _ | .ended _ => []

/-- No proof has asked for anything yet. -/
def new (nowMs : ℕ) (wallet : ℕ → ℕ) : Provers where
  source := .new nowMs
  attested _ := none
  proofs p := ⟨.policy, false, 0, wallet p⟩

def move (s : Provers) (p : ℕ) (stage : ProofStage) : Provers :=
  { s with proofs := Function.update s.proofs p { s.proofs p with stage := stage } }

def withSource (s : Provers) (source : ProverPolicy) : Provers := { s with source := source }

/-- `#attestation` uses the one that the wallet keeps. -/
def Reusable (s : Provers) (p : ℕ) (held : HeldFile) : Prop :=
  (s.proofs p).fresh = false ∧ ∃ cached, s.attested (s.proofs p).wallet = some cached ∧
    (s.source.nowMs : ℤ) - cached.fetchedAtMs < attestationReuseMs held.policy cached.fetchedAtMs

def attest (s : Provers) (p : ℕ) (attestation : ProverAttestation) : Provers :=
  { s with attested := Function.update s.attested (s.proofs p).wallet (some attestation) }

/-- `#forgetProver` -/
def forget (s : Provers) (p : ℕ) : Provers :=
  { s with
    attested := Function.update s.attested (s.proofs p).wallet none
    source := s.source.invalidate }

/-- The next turn of the loop. -/
def retry (s : Provers) (p : ℕ) : Provers :=
  { s with
    proofs := Function.update s.proofs p
      { s.proofs p with stage := .policy, fresh := true, attempt := (s.proofs p).attempt + 1 } }

/-- The event ends no call of a proof. -/
def Foreign (s : Provers) : ProverPolicy.Event → Prop
  | .answered k d _ | .failed k d _ | .cancelled k d => ∀ p, (s.proofs p).stage ≠ .waiting k d
  | _ => True

/-- What one microtask of the source or of a proof does. What the enclave and the prover answer is up
to them. -/
inductive Step (s : Provers) : Event → Provers → Prop where
  | source {e : ProverPolicy.Event} {source : ProverPolicy} (h : s.source.Step e source)
    (foreign : s.Foreign e) : Step s (.source e) (s.withSource source)
  | refused {p k : ℕ} {source : ProverPolicy} (stage : (s.proofs p).stage = .policy)
    (h : s.source.Step (.refused k) source) :
    Step s (.policy p (.refused k)) ((s.withSource source).move p .ended)
  | served {p k nowMs : ℕ} {held : HeldFile} {source : ProverPolicy}
    (stage : (s.proofs p).stage = .policy) (h : s.source.Step (.served k held nowMs) source) :
    Step s (.policy p (.served k held nowMs)) ((s.withSource source).move p (.attesting held))
  | started {p k d nowMs : ℕ} {held : Option HeldFile} {source : ProverPolicy}
    (stage : (s.proofs p).stage = .policy) (h : s.source.Step (.started k d held nowMs) source) :
    Step s (.policy p (.started k d held nowMs)) ((s.withSource source).move p (.waiting k d))
  | joined {p k d : ℕ} {source : ProverPolicy} (stage : (s.proofs p).stage = .policy)
    (h : s.source.Step (.joined k d) source) :
    Step s (.policy p (.joined k d)) ((s.withSource source).move p (.waiting k d))
  | answered {p k d : ℕ} {held : HeldFile} {source : ProverPolicy}
    (stage : (s.proofs p).stage = .waiting k d) (h : s.source.Step (.answered k d held) source) :
    Step s (.policy p (.answered k d held)) ((s.withSource source).move p (.attesting held))
  | failed {p k d : ℕ} {e : Thrown} {source : ProverPolicy}
    (stage : (s.proofs p).stage = .waiting k d) (h : s.source.Step (.failed k d e) source) :
    Step s (.policy p (.failed k d e)) ((s.withSource source).move p .ended)
  | cancelled {p k d : ℕ} {source : ProverPolicy} (stage : (s.proofs p).stage = .waiting k d)
    (h : s.source.Step (.cancelled k d) source) :
    Step s (.policy p (.cancelled k d)) ((s.withSource source).move p .ended)
  | reused {p : ℕ} {held : HeldFile} (stage : (s.proofs p).stage = .attesting held)
    (h : s.Reusable p held) : Step s (.asked p held) (s.move p (.sealing held))
  | attested {p : ℕ} {held : HeldFile} (stage : (s.proofs p).stage = .attesting held)
    (attestation : ProverAttestation) :
    Step s (.asked p held) ((s.attest p attestation).move p (.sealing held))
  | attestationFailed {p : ℕ} {held : HeldFile} (stage : (s.proofs p).stage = .attesting held) :
    Step s (.ended p) (s.move p .ended)
  | sealed {p : ℕ} {held : HeldFile} (stage : (s.proofs p).stage = .sealing held) :
    Step s (.sealed p) (s.move p (.submitting held))
  /-- The enclave refused the policy or the attestation for the first time. -/
  | sealRefused {p : ℕ} {held : HeldFile} (stage : (s.proofs p).stage = .sealing held)
    (first : (s.proofs p).fresh = false) : Step s (.forgot p) ((s.forget p).retry p)
  | sealFailed {p : ℕ} {held : HeldFile} (stage : (s.proofs p).stage = .sealing held) :
    Step s (.ended p) (s.move p .ended)
  /-- The prover lost its key at the first attempt. -/
  | keyLost {p : ℕ} {held : HeldFile} (stage : (s.proofs p).stage = .submitting held)
    (first : (s.proofs p).attempt = 0) : Step s (.forgot p) ((s.forget p).retry p)
  | keyLostAgain {p : ℕ} {held : HeldFile} (stage : (s.proofs p).stage = .submitting held)
    (again : 0 < (s.proofs p).attempt) : Step s (.forgot p) ((s.forget p).move p .ended)
  | submitted {p : ℕ} {held : HeldFile} (stage : (s.proofs p).stage = .submitting held) :
    Step s (.ended p) (s.move p .ended)

variable {s s' : Provers} {e : Event} {es : List Event} {p q : ℕ} {held : HeldFile}

section Source

theorem source_step (h : s.Step e s') : Run ProverPolicy.Step s.source e.ofSource s'.source := by
  cases h with
  | source h | refused stage h | served stage h | started stage h | joined stage h | answered stage h
  | failed stage h | cancelled stage h => exact .single h
  | sealRefused | keyLost | keyLostAgain => exact .single .invalidated
  | _ => exact .nil _

/-- What the events of a run are for the source. -/
def ofSource (es : List Event) : List ProverPolicy.Event := es.flatMap Event.ofSource

/-- No download is in its slot when the file is invalidated. -/
def Careful (s : Provers) (e : Event) : Prop :=
  ProverPolicy.Event.invalidated ∈ e.ofSource → s.source.downloads.slot = none

theorem careful_step (h : s.Step e s') (careful : s.Careful e) :
    Run (fun s e s' => s.Step e s' ∧ s.Careful e) s.source e.ofSource s'.source := by
  have hcareful : ∀ e' ∈ e.ofSource, s.source.Careful e' := by
    intro e' he'
    cases e' with
    | invalidated => exact careful he'
    | _ => trivial
  have run := source_step h
  cases hsource : e.ofSource with
  | nil =>
    rw [hsource] at run
    exact run.eq_of_nil ▸ .nil _
  | cons e' rest =>
    have hrest : rest = [] := by
      cases e <;> cases hsource <;> rfl
    subst hrest
    rw [hsource] at run hcareful
    exact .single ⟨run.of_single, hcareful e' List.mem_cons_self⟩

end Source

section Retry

/-- The second request of a proof carries a file that the retry got. -/
def Retried (es : List Event) (p : ℕ) : Prop :=
  ∀ before after held, es = before ++ .forgot p :: after → .asked p held ∈ after →
    ProverPolicy.IsNew (ofSource after) held

/-- Where a proof has the policy from that it is about to use. -/
def HasFrom (es : List Event) : ProofStage → Prop
  | .waiting k d => ProverPolicy.Joined (ofSource es) k d
  | .attesting held | .sealing held | .submitting held =>
    ∃ k, ProverPolicy.Serves (ofSource es) k held
  | .policy | .ended => True

theorem ofSource_append (es es' : List Event) : ofSource (es ++ es') = ofSource es ++ ofSource es' :=
  List.flatMap_append ..

theorem HasFrom.append {stage : ProofStage} (h : HasFrom es stage) (es' : List Event) :
    HasFrom (es ++ es') stage := by
  have hmem : ∀ e, e ∈ ofSource es → e ∈ ofSource (es ++ es') := by
    intro e he
    rw [ofSource_append]
    exact List.mem_append_left _ he
  have hjoined : ∀ {k d}, ProverPolicy.Joined (ofSource es) k d →
      ProverPolicy.Joined (ofSource (es ++ es')) k d := by
    rintro k d (⟨held, nowMs, h⟩ | h)
    · exact .inl ⟨held, nowMs, hmem _ h⟩
    · exact .inr (hmem _ h)
  have hserves : ∀ {held}, (∃ k, ProverPolicy.Serves (ofSource es) k held) →
      ∃ k, ProverPolicy.Serves (ofSource (es ++ es')) k held := by
    rintro held ⟨k, ⟨nowMs, h⟩ | ⟨d, h, h'⟩⟩
    · exact ⟨k, .inl ⟨nowMs, hmem _ h⟩⟩
    · exact ⟨k, .inr ⟨d, hjoined h, hmem _ h'⟩⟩
  cases stage with
  | policy | ended => trivial
  | waiting k d => exact hjoined h
  | attesting held | sealing held | submitting held => exact hserves h

theorem move_proofs {stage : ProofStage} : ((s.move p stage).proofs q).stage =
    if q = p then stage else (s.proofs q).stage := by
  by_cases h : q = p
  · subst h
    simp [move]
  · simp [move, h]

theorem hasFrom_step (h : s.Step e s') (start : HasFrom es (s.proofs q).stage) :
    HasFrom (es ++ [e]) (s'.proofs q).stage := by
  have kept := start.append [e]
  -- A step moves one proof, and what it moves to must come from an event of the policy's.
  have moved : ∀ {s₁ : Provers} {p : ℕ} {stage : ProofStage}, (s₁.proofs q).stage = (s.proofs q).stage →
      (q = p → HasFrom (es ++ [e]) stage) → HasFrom (es ++ [e]) ((s₁.move p stage).proofs q).stage := by
    intro s₁ p stage hsame hnew
    rw [move_proofs]
    split_ifs with hq
    · exact hnew hq
    · rwa [hsame]
  have retried : ∀ {p : ℕ}, HasFrom (es ++ [e]) (((s.forget p).retry p).proofs q).stage := by
    intro p
    by_cases hq : q = p
    · subst hq
      simp [retry, HasFrom]
    · simpa [retry, forget, hq] using kept
  have now : ∀ {e' : ProverPolicy.Event}, e' ∈ e.ofSource → e' ∈ ofSource (es ++ [e]) := by
    intro e' he'
    rw [ofSource_append]
    exact List.mem_append_right _ (List.mem_flatMap.2 ⟨e, List.mem_singleton_self _, he'⟩)
  cases h with
  | source h foreign => exact kept
  | refused stage h | failed stage h | cancelled stage h => exact moved rfl fun _ => trivial
  | served stage h =>
    exact moved rfl fun _ => ⟨_, .inl ⟨_, now (List.mem_singleton_self _)⟩⟩
  | started stage h => exact moved rfl fun _ => .inl ⟨_, _, now (List.mem_singleton_self _)⟩
  | joined stage h => exact moved rfl fun _ => .inr (now (List.mem_singleton_self _))
  | @answered p k d held source stage h =>
    refine moved rfl ?_
    rintro rfl
    rw [stage] at kept
    exact ⟨k, .inr ⟨d, kept, now (List.mem_singleton_self _)⟩⟩
  | reused stage h | attested stage attestation | sealed stage =>
    refine moved rfl ?_
    rintro rfl
    rw [stage] at kept
    exact kept
  | attestationFailed stage | sealFailed stage | submitted stage => exact moved rfl fun _ => trivial
  | sealRefused stage first | keyLost stage first => exact retried
  | keyLostAgain stage again => exact moved rfl fun _ => trivial

theorem asked_step (h : s.Step (.asked p held) s') : (s.proofs p).stage = .attesting held := by
  cases h with
  | reused stage h => exact stage
  | attested stage attestation => exact stage

theorem forgot_step (h : s.Step (.forgot p) s') :
    (s'.proofs p).stage = .policy ∨ (s'.proofs p).stage = .ended := by
  cases h with
  | sealRefused stage first | keyLost stage first => exact .inl (by simp [retry])
  | keyLostAgain stage again => exact .inr (by simp [move])

/-- What a proof asks the enclave for, it was served after the run began. -/
theorem served_of_asked (run : Run Step s es s') (start : (s.proofs p).stage = .policy ∨
    (s.proofs p).stage = .ended) (h : .asked p held ∈ es) :
    ∃ k, ProverPolicy.Serves (ofSource es) k held := by
  have hrun : HasFrom es (s'.proofs p).stage ∧ ∀ held, .asked p held ∈ es →
      HasFrom es (.sealing held) := by
    refine run.history (I := fun es s => HasFrom es (s.proofs p).stage ∧
      ∀ held, .asked p held ∈ es → HasFrom es (.sealing held)) ⟨?_, by simp⟩ ?_
    · obtain hpolicy | hended := start
      · rw [hpolicy]
        trivial
      · rw [hended]
        trivial
    · rintro passed s e s' - ⟨hfrom, hasked⟩ hstep
      refine ⟨hasFrom_step hstep hfrom, fun held h => ?_⟩
      obtain hpassed | hnow := List.mem_append.1 h
      · exact (hasked held hpassed).append [e]
      · obtain rfl := List.mem_singleton.1 hnow
        rw [asked_step hstep] at hfrom
        exact hfrom.append [.asked p held]
  exact hrun.2 held h

theorem retried_of_run {nowMs : ℕ} {wallet : ℕ → ℕ}
    (run : Run (fun s e s' => s.Step e s' ∧ s.Careful e) (Provers.new nowMs wallet) es s) :
    Retried es p := by
  rintro before after held rfl hasked
  obtain ⟨s₁, -, run₂⟩ := run.split
  cases run₂ with
  | @cons _ s₂ _ _ _ h run₃ =>
    obtain ⟨k, hserves⟩ := served_of_asked (run₃.mono fun _ _ _ h => h.1) (forgot_step h.1) hasked
    have hsource := run.simulate (g := Provers.source) (f := Event.ofSource)
      fun _ _ _ h => careful_step h.1 h.2
    refine ProverPolicy.renewed_of_run hsource (ofSource before) (ofSource after) k held ?_ hserves
    rw [List.flatMap_append, List.flatMap_cons]
    rfl

end Retry

section Count

/-- How often a proof may have asked the enclave to seal. -/
def mayHaveAsked (proof : Proof) : ℕ :=
  match proof.stage with
  | .policy | .waiting .. | .attesting _ => if proof.fresh then 1 else 0
  | .sealing _ | .submitting _ => if proof.fresh then 2 else 1
  | .ended => 2

/-- How often a proof asked the enclave to seal. -/
def asks (p : ℕ) (es : List Event) : ℕ :=
  es.countP fun
    | .asked q _ => decide (q = p)
    | _ => false

theorem asks_append (es es' : List Event) : asks p (es ++ es') = asks p es + asks p es' :=
  List.countP_append ..

/-- A proof that is not sealing yet has asked once if it retries, and a request in the making is its
second then. -/
structure Counted (p : ℕ) (es : List Event) (s : Provers) : Prop where
  attempt : (s.proofs p).attempt = 0 → (s.proofs p).fresh = false
  bound : asks p es ≤ mayHaveAsked (s.proofs p)

theorem mayHaveAsked_le (proof : Proof) : mayHaveAsked proof ≤ 2 := by
  unfold mayHaveAsked
  cases proof.stage <;> cases proof.fresh <;> simp

theorem asks_single_of_ne (h : ∀ held, e ≠ .asked p held) : asks p [e] = 0 := by
  rw [asks, List.countP_eq_zero]
  intro e' he'
  obtain rfl := List.mem_singleton.1 he'
  cases e' with
  | asked q held => simpa using fun hq : q = p => h held (by rw [hq])
  | _ => simp

theorem Counted.moved {s₁ : Provers} {stage : ProofStage} (counted : Counted p es s)
    (hsame : s₁.proofs = s.proofs) (other : q ≠ p → asks p [e] = 0)
    (own : q = p → mayHaveAsked (s.proofs p) + asks p [e] ≤
      mayHaveAsked { s.proofs p with stage := stage }) :
    Counted p (es ++ [e]) (s₁.move q stage) := by
  have hle := counted.bound
  by_cases hq : q = p
  · subst hq
    have hproof : (s₁.move q stage).proofs q = { s.proofs q with stage := stage } := by
      simp [move, hsame]
    refine ⟨fun h => ?_, ?_⟩
    · rw [hproof] at h ⊢
      exact counted.attempt h
    · rw [hproof, asks_append]
      exact (Nat.add_le_add_right hle _).trans (own rfl)
  · have hproof : (s₁.move q stage).proofs p = s.proofs p := by
      simp [move, hsame, Ne.symm hq]
    refine ⟨fun h => ?_, ?_⟩
    · rw [hproof] at h ⊢
      exact counted.attempt h
    · rwa [hproof, asks_append, other hq]

theorem Counted.retried (counted : Counted p es s) (hasks : asks p [e] = 0)
    (own : q = p → mayHaveAsked (s.proofs p) ≤ 1) : Counted p (es ++ [e]) ((s.forget q).retry q) := by
  have hle := counted.bound
  by_cases hq : q = p
  · subst hq
    have hproof : ((s.forget q).retry q).proofs q =
        { s.proofs q with stage := .policy, fresh := true, attempt := (s.proofs q).attempt + 1 } := by
      simp [retry, forget]
    refine ⟨fun h => ?_, ?_⟩
    · rw [hproof] at h
      cases h
    · rw [hproof, asks_append, hasks]
      exact hle.trans (own rfl)
  · have hproof : ((s.forget q).retry q).proofs p = s.proofs p := by
      simp [retry, forget, Ne.symm hq]
    refine ⟨fun h => ?_, ?_⟩
    · rw [hproof] at h ⊢
      exact counted.attempt h
    · rwa [hproof, asks_append, hasks]

theorem Counted.step (counted : Counted p es s) (h : s.Step e s') : Counted p (es ++ [e]) s' := by
  have silent : (∀ held, e ≠ .asked p held) → asks p [e] = 0 := asks_single_of_ne
  -- Only `reused` and `attested` ask, and only `sealRefused` and `keyLost` begin a second attempt.
  cases h with
  | source h foreign =>
    refine ⟨counted.attempt, ?_⟩
    rw [asks_append, silent fun _ h => nomatch h]
    exact counted.bound
  | refused stage h | failed stage h | cancelled stage h | attestationFailed stage | sealFailed stage
  | submitted stage | keyLostAgain stage again =>
    refine counted.moved rfl (fun _ => silent fun _ h => nomatch h) fun _ => ?_
    rw [silent fun _ h => nomatch h]
    exact mayHaveAsked_le _
  | served stage h | started stage h | joined stage h | answered stage h | sealed stage =>
    refine counted.moved rfl (fun _ => silent fun _ h => nomatch h) ?_
    rintro rfl
    rw [silent fun _ h => nomatch h]
    simp [mayHaveAsked, stage]
  | @reused q held stage h | @attested q held stage attestation =>
    refine counted.moved rfl (fun hq => silent fun held' h => hq (by cases h; rfl)) ?_
    rintro rfl
    have hone : asks q [.asked q held] = 1 := by simp [asks]
    rw [hone]
    simp only [mayHaveAsked, stage]
    split_ifs <;> omega
  | sealRefused stage first =>
    refine counted.retried (silent fun _ h => nomatch h) ?_
    rintro rfl
    simp [mayHaveAsked, stage, first]
  | keyLost stage first =>
    refine counted.retried (silent fun _ h => nomatch h) ?_
    rintro rfl
    simp [mayHaveAsked, stage, counted.attempt first]

theorem asks_le_two {nowMs : ℕ} {wallet : ℕ → ℕ} (run : Run Step (Provers.new nowMs wallet) es s) :
    asks p es ≤ 2 := by
  have counted : Counted p es s :=
    run.history (I := Counted p) ⟨fun _ => rfl, Nat.zero_le _⟩ fun _ _ _ _ _ counted h => counted.step h
  exact counted.bound.trans (mayHaveAsked_le _)

end Count

/-- While no download is in its slot when the file is invalidated, a call made after that is answered
with a file whose download began after it, or a later download failed while the held file was in
force; the retry of a proof asks the enclave to seal under such a file. No proof asks more than
twice. -/
theorem policy_renewed (nowMs : ℕ) (wallet : ℕ → ℕ) :
    (∀ es s, Run (fun s e s' => s.Step e s' ∧ s.Careful e) (ProverPolicy.new nowMs) es s →
      ProverPolicy.Renewed es) ∧
    (∀ es s, Run (fun s e s' => s.Step e s' ∧ s.Careful e) (Provers.new nowMs wallet) es s →
      ∀ p, Retried es p) ∧
    ∀ es s, Run Step (Provers.new nowMs wallet) es s → ∀ p, asks p es ≤ 2 :=
  ⟨fun _ _ run => ProverPolicy.renewed_of_run run, fun _ _ run _ => retried_of_run run,
    fun _ _ run _ => asks_le_two run⟩

section Overlap

def releaseText : String := "\x7b\"version\":1,\"expires_at\":9,\"policy\":\x7b\"max_age_secs\":1\x7d\x7d"

def freshnessText : String := "\x7b\"issued_at\":0,\"expires_at\":9\x7d"

def partTree (payload : String) : Json.Tree UInt16 :=
  pairTree "payload" "signatures" (.str ((bytesToHex (utf8 payload)).map pieceOf)) (.arr [])

/-- The publisher answers with a file that expires nine seconds into 1970. -/
def overlapResponse : PolicyResponse :=
  .body (.ok (print (pairTree "release" "freshness" (partTree releaseText) (partTree freshnessText))))

def overlapPolicy : HeldProverPolicy :=
  ⟨⟨⟨bytesToHex (utf8 releaseText), []⟩, ⟨bytesToHex (utf8 freshnessText), []⟩⟩, 1, 1, 0, 9, some 0⟩

def approved : List (JsString × JsValue) :=
  [(utf16Units "version", .num (ofNumeral (.ofInt 1))),
    (utf16Units "expires_at", .num (ofNumeral (.ofInt 9))),
    (utf16Units "policy", .obj [(utf16Units "max_age_secs", .num (ofNumeral (.ofInt 1)))])]

def freshPart : List (JsString × JsValue) :=
  [(utf16Units "issued_at", .num (ofNumeral (.ofInt 0))),
    (utf16Units "expires_at", .num (ofNumeral (.ofInt 9)))]

theorem isInteger_ofInt {least : ℕ} {n : ℤ} (hn : IsSafe n) (h : (least : ℤ) ≤ n) :
    isInteger least (some (.num (ofNumeral (.ofInt n)))) = .ok n.toNat := by
  have hvalue : (Binary64.ofInt n hn.le).value = (n : ℚ) := rfl
  rw [ofNumeral_ofInt hn, isInteger, hvalue, Rat.den_intCast, Rat.num_intCast]
  exact if_pos ⟨rfl, h, hn⟩

def partValue (payload : String) : JsValue :=
  .obj [(utf16Units "payload", .str (bytesToHex (utf8 payload))), (utf16Units "signatures", .arr [])]

theorem read_partTree (payload : String) : jsReader.read (partTree payload) = some (partValue payload) := by
  refine read_pairTree ?_ rfl (by decide) (by decide) (by decide)
  exact congrArg (fun s => some (Json.str s)) (unescape_pieces _)

theorem lookup_pair {a b : JsString} {v w : JsValue} (hne : a ≠ b) :
    List.lookup a [(a, v), (b, w)] = some v ∧ List.lookup b [(a, v), (b, w)] = some w := by
  constructor
  · exact List.lookup_cons_self
  · rw [List.lookup_cons, beq_eq_false_iff_ne.2 hne.symm]
    exact List.lookup_cons_self

theorem readPart_partValue (payload : String) :
    readPart (some (partValue payload)) = .ok ⟨bytesToHex (utf8 payload), []⟩ := by
  have hkeys : onlyKeys [(utf16Units "payload", .str (bytesToHex (utf8 payload))),
      (utf16Units "signatures", .arr [])] ["payload", "signatures"] := by
    simp [onlyKeys]
  have hne : utf16Units "payload" ≠ utf16Units "signatures" := by decide
  have hlower := isLowerHexText_bytesToHex (utf8 payload)
  rw [readPart]
  simp only [bind_eq_ok, refuse_eq_ok, exists_const]
  refine ⟨_, rfl, not_not.2 hkeys, bytesToHex (utf8 payload), ?_, ?_, ?_⟩
  · rw [(lookup_pair hne).1]
    rfl
  · rw [hlower]
    decide
  · rw [(lookup_pair hne).2]
    rfl

theorem jsonParse_releaseText : jsonParse (utf16Units releaseText) = some (.obj approved) := by
  decide +kernel
theorem jsonParse_freshnessText : jsonParse (utf16Units freshnessText) = some (.obj freshPart) := by
  decide +kernel

theorem downloaded_overlap : downloaded overlapResponse 0 = .ok overlapPolicy := by
  -- The file and its two parts are printed and read back, so that nothing is parsed here.
  have hfile : fetchPolicy overlapResponse =
      .ok (.obj [(utf16Units "release", partValue releaseText),
        (utf16Units "freshness", partValue freshnessText)]) := by
    rw [overlapResponse, fetchPolicy, jsonParse_print,
      read_pairTree (read_partTree _) (read_partTree _) (by decide) (by decide) (by decide)]
    rfl
  have hrelease : readPayload (bytesToHex (utf8 releaseText)) = .ok approved := by
    rw [readPayload_bytesToHex (by decide +kernel), jsonParse_releaseText]
    rfl
  have hfreshness : readPayload (bytesToHex (utf8 freshnessText)) = .ok freshPart := by
    rw [readPayload_bytesToHex (by decide +kernel), jsonParse_freshnessText]
    rfl
  simp only [downloaded, readPolicy, bind_eq_ok, refuse_eq_ok, pure_eq_ok, exists_const]
  have hne : utf16Units "release" ≠ utf16Units "freshness" := by decide
  have hinteger : ∀ (members : List (JsString × JsValue)) (name : String) (least : ℕ) (n : ℤ),
      members.lookup (utf16Units name) = some (.num (ofNumeral (.ofInt n))) → IsSafe n →
      (least : ℤ) ≤ n → isInteger least (members.lookup (utf16Units name)) = .ok n.toNat := by
    intro members name least n hlookup hsafe hle
    rw [hlookup]
    exact isInteger_ofInt hsafe hle
  refine ⟨_, hfile, _, rfl, ?_, ⟨bytesToHex (utf8 releaseText), []⟩, ?_,
    ⟨bytesToHex (utf8 freshnessText), []⟩, ?_, approved, ?_, freshPart, ?_, 1, ?_, 9, ?_,
    [(utf16Units "max_age_secs", .num (ofNumeral (.ofInt 1)))], ?_, 1, ?_, 9, ?_, 0, ?_, ?_, ?_, ?_⟩
  · simp [onlyKeys]
  · rw [(lookup_pair hne).1]
    exact readPart_partValue releaseText
  · rw [(lookup_pair hne).2]
    exact readPart_partValue freshnessText
  · simpa only using hrelease
  · simpa only using hfreshness
  · exact hinteger approved "version" 1 1 (by decide +kernel) (by decide) (by decide)
  · exact hinteger approved "expires_at" 1 9 (by decide +kernel) (by decide) (by decide)
  · have hpolicy : approved.lookup (utf16Units "policy") =
        some (.obj [(utf16Units "max_age_secs", .num (ofNumeral (.ofInt 1)))]) := by decide +kernel
    rw [hpolicy]
    rfl
  · exact hinteger _ "max_age_secs" 1 1 List.lookup_cons_self (by decide) (by decide)
  · exact hinteger freshPart "expires_at" 1 9 (by decide +kernel) (by decide) (by decide)
  · exact hinteger freshPart "issued_at" 0 0 (by decide +kernel) (by decide) (by decide)
  · decide
  · decide
  · rfl

/-- The file that the download brings. -/
def overlapFile (download : ℕ) : HeldFile := ⟨overlapPolicy, download⟩

/-- Two proofs lose the prover's key. The second of them invalidates the file while the download of the
first is under way. -/
def overlap : List Event :=
  [.policy 0 (.started 0 0 none 0), .policy 1 (.joined 1 0), .source (.landed 0 overlapResponse 0),
    .source (.settled 0), .policy 0 (.answered 0 0 (overlapFile 0)),
    .policy 1 (.answered 1 0 (overlapFile 0)), .asked 0 (overlapFile 0), .asked 1 (overlapFile 0),
    .sealed 0, .sealed 1, .forgot 0,
    .policy 0 (.started 2 1 (some ⟨{ overlapPolicy with fetchedAtMs := none }, 0⟩) 0)] ++
  .forgot 1 ::
  [.policy 1 (.joined 3 1), .source (.landed 1 overlapResponse 0), .source (.settled 1),
    .policy 1 (.answered 3 1 (overlapFile 1)), .asked 1 (overlapFile 1)]

theorem refresh_overlap (d : ℕ) (held : Option HeldFile) :
    ProverPolicy.refresh d held false overlapResponse 0 = .ok (overlapFile d) :=
  ProverPolicy.refresh_of_ok downloaded_overlap

theorem run_overlap : ∃ s, Run Step (Provers.new 0 id) overlap s := by
  refine ⟨_, .cons (.started rfl (.started (fun _ h => nomatch h) rfl)) <|
    .cons (.joined rfl (.joined (fun _ h => nomatch h) rfl)) <|
    .cons (.source (.landed (by decide) rfl (refresh_overlap _ _)) trivial) <|
    .cons (.source (.settled rfl) trivial) <|
    .cons (.answered rfl (.answered (by decide) rfl)) <|
    .cons (.answered rfl (.answered (by decide) rfl)) <|
    .cons (.attested rfl ⟨[], [], 0⟩) <|
    .cons (.attested rfl ⟨[], [], 0⟩) <|
    .cons (.sealed rfl) <|
    .cons (.sealed rfl) <|
    .cons (.keyLost rfl rfl) <|
    .cons (.started rfl (.started ?_ rfl)) <|
    .cons (.keyLost rfl rfl) <|
    .cons (.joined rfl (.joined ?_ rfl)) <|
    .cons (.source (.landed (by decide) rfl (refresh_overlap _ _)) trivial) <|
    .cons (.source (.settled rfl) trivial) <|
    .cons (.answered rfl (.answered (by decide) rfl)) <|
    .cons (.attested rfl ⟨[], [], 0⟩) <| .nil _⟩
  all_goals
    intro held hheld
    obtain rfl := Option.some.inj hheld
    rfl

/-- An invalidation during a download is lost: the retry asks with a file whose download began before. -/
theorem overlapped_not_retried : (∃ s, Run Step (Provers.new 0 id) overlap s) ∧ ¬Retried overlap 1 := by
  refine ⟨run_overlap, fun h => ?_⟩
  obtain ⟨k, held, nowMs, hstarted⟩ | ⟨k, d, old, nowMs, response, nowMs', e, hstarted, -⟩ :=
    h _ _ (overlapFile 1) rfl (by simp)
  all_goals simp [ofSource, Event.ofSource] at hstarted

end Overlap

end Provers

end ZolanaTvc.Wallet
