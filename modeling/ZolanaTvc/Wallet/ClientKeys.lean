import ZolanaTvc.Wallet.SessionKey

/-!
# The Turnkey client keys

Each Turnkey session key the client meets is enrolled on its own, for as long as the client lives.

## Main results

* `SessionKey.singleFlight_run`: what a run of one session key brings about.
* `ClientKeys.singleFlight_of_run`: every session key of the client enrolls in a single flight.
-/

namespace ZolanaTvc.Wallet

open Except Json Protocol

namespace SessionKey

variable {s s' : SessionKey} {e : Event} {es es' : List Event} {d k : ℕ} {config : OperationsConfig}
  {setup : KeySetup}

/-- The event is a call of `operations` at an instant. -/
def Event.CallAt (nowMs : ℤ) : Event → Prop
  | .served _ _ now | .started _ _ now | .joined _ _ now => now = nowMs
  | _ => False

/-- Whoever calls `operations` gets this flight's descriptor. -/
structure Shares (s : SessionKey) (d : ℕ) : Prop where
  started : ∀ k d' nowMs s', ¬s.Step (.started k d' nowMs) s'
  joined : ∀ k d' nowMs s', s.Step (.joined k d' nowMs) s' → d' = d
  served : ∀ k config nowMs s', s.Step (.served k config nowMs) s' → config.flight = d

/-- The flight can go on with the owner's signature, and with the gateway's answer after it. -/
def GoesOn (s : SessionKey) (d : ℕ) : Prop :=
  (∃ s', s.Step (.posted d) s') ∨ ∃ expected, s.phase d = .posting expected ∧
    ∀ text descriptor, enrolledDescriptor text expected = .ok descriptor →
      ∃ s', s.Step (.enrolled d ⟨descriptor, d⟩) s'

/-- What an enrollment in a single flight is, in a state of the key reached by these events. -/
structure SingleFlight (setup : KeySetup) (es : List Event) (s : SessionKey) : Prop where
  single : ∀ d d', s.flights.Open d → s.flights.Open d' → d = d'
  /-- An enrollment is abandoned only when nobody waits for it and its signature is not recorded. -/
  abandoned : ∀ e s' d, s.Step e s' → s.flights.aborted d = false → s'.flights.aborted d = true →
    (∀ k, (k, d) ∉ s'.flights.waiting) ∧ .signed d ∉ es
  /-- A recorded one is never abandoned, and later callers share it until it has settled. -/
  recorded : ∀ d, .signed d ∈ es → s.flights.aborted d = false → ∀ es' s', Run Step s es' s' →
    s'.flights.aborted d = false ∧ ((∀ r, s'.flights.stage d ≠ .settled r) → s'.Shares d) ∧
      (s'.flights.stage d = .running → s'.GoesOn d)
  /-- Its descriptor is kept. -/
  kept : ∀ d config s', s.Step (.enrolled d config) s' → s'.enrolled = some config
  never : ∀ d, s.flights.aborted d = true → ∀ config, .enrolled d config ∉ es
  held : ∀ config, s.enrolled = some config → .enrolled config.flight config ∈ es
  /-- However often one descriptor is refused from here on, once another is enrolled no third is, as long
  as every call finds the margin of that one ahead. -/
  once : ∀ d₀ config₀, .enrolled d₀ config₀ ∈ es → ∀ before d config after s',
    Run Step s (before ++ .enrolled d config :: after) s' →
    (∀ d', .expired d' ∈ before ++ .enrolled d config :: after → d' = d₀) →
    (∀ e ∈ after, ∀ nowMs, e.CallAt nowMs → current config nowMs = true) →
    ∀ d' config', .enrolled d' config' ∉ after
  /-- What is handed out from memory has the margin ahead. -/
  served : ∀ k config nowMs, .served k config nowMs ∈ es →
    ∃ expiry, expiresAtMs config.descriptor = .ok expiry ∧ DESCRIPTOR_RENEWAL_MARGIN_MS < expiry - nowMs
  /-- Whatever is handed out lists the key for the wallet. -/
  listed : ∀ k config, (∃ nowMs, .served k config nowMs ∈ es) ∨ (∃ d, .answered k d config ∈ es) →
    Listed setup es config

section Proofs

theorem current_iff {nowMs : ℤ} : current config nowMs = true ↔
    ∃ expiry, expiresAtMs config.descriptor = .ok expiry ∧ DESCRIPTOR_RENEWAL_MARGIN_MS < expiry - nowMs := by
  unfold current
  cases expiresAtMs config.descriptor with
  | ok expiry => simp
  | error e => simp

/-- A flight that has not settled and was not aborted is the one that calls share. -/
theorem Sound.shares (sound : s.Sound) (hslot : s.flights.slot = some d) : s.Shares d where
  started k d' nowMs s' h := by
    cases h with
    | started stale empty =>
      rw [hslot] at empty
      cases empty
  joined k d' nowMs s' h := by
    cases h with
    | joined stale slot => exact Option.some.inj (slot.symm.trans hslot)
  served k config nowMs s' h := by
    cases h with
    | served h hcurrent => exact (sound.slot config h d hslot).symm

theorem Traced.made (traced : Traced setup es s) (hsigned : .signed d ∈ es) : d < s.flights.made := by
  by_contra hge
  have hkept := (traced.sound.tied.unmade d (Nat.not_lt.1 hge)).2.2
  rw [(traced.signed d).2 hsigned] at hkept
  cases hkept

theorem Traced.goesOn (traced : Traced setup es s) (hsigned : .signed d ∈ es)
    (hlive : s.flights.aborted d = false) (hrunning : s.flights.stage d = .running) : s.GoesOn d := by
  obtain ⟨expected, hrecorded | hposting⟩ := traced.going d hsigned
  · exact .inl ⟨_, .posted hrunning hlive hrecorded⟩
  · exact .inr ⟨expected, hposting, fun _ _ h =>
      ⟨_, .enrolled (traced.made hsigned) hrunning hposting h⟩⟩

/-- A kept flight is never aborted, in whatever run. -/
theorem Traced.lasts (traced : Traced setup es s) (hsigned : .signed d ∈ es)
    (hlive : s.flights.aborted d = false) (run : Run Step s es' s') : s'.flights.aborted d = false :=
  (run.invariant (I := fun s => s.flights.Tied ∧ s.flights.kept d = true ∧ s.flights.aborted d = false)
    ⟨traced.sound.tied, (traced.signed d).2 hsigned, hlive⟩
    fun _ _ _ _ ⟨tied, hlasts⟩ h => ⟨tied_step tied h, lasts_step tied h hlasts⟩).2.2

/-- While a descriptor is in memory, calls find its margin ahead and it is not refused, it stays there
and no other is enrolled. -/
theorem Sound.enrolled_run (sound : s.Sound) (hconfig : s.enrolled = some config) (run : Run Step s es s')
    (hexpired : .expired config.flight ∉ es)
    (hcurrent : ∀ e ∈ es, ∀ nowMs, e.CallAt nowMs → current config nowMs = true) :
    ∀ d' config', .enrolled d' config' ∉ es := by
  refine (run.history (I := fun passed s => s.Sound ∧ s.enrolled = some config ∧
    ∀ d' config', .enrolled d' config' ∉ passed) ⟨sound, hconfig, fun _ _ h => (nomatch h)⟩ ?_).2.2
  rintro passed s e s' hmem ⟨sound, hconfig, hnone⟩ h
  refine ⟨sound.step h, ?_, fun d' config' hmem' => ?_⟩
  · obtain hsame | ⟨-, ⟨k, d, nowMs, hcall, stale⟩ | ⟨config', hconfig', rfl⟩⟩ | ⟨d, config', rfl, -⟩ :=
      enrolled_cases h
    · rw [hsame, hconfig]
    · -- a call that renews found the margin gone
      have hmargin := hcurrent e hmem nowMs (by obtain rfl | rfl := hcall <;> rfl)
      rw [stale config hconfig] at hmargin
      cases hmargin
    · rw [hconfig] at hconfig'
      cases hconfig'
      exact absurd hmem hexpired
    · exact absurd h (sound.not_enrolled hconfig)
  · obtain hpassed | hnow := List.mem_append.1 hmem'
    · exact hnone d' config' hpassed
    · obtain rfl := List.mem_singleton.1 hnow
      exact sound.not_enrolled hconfig h

theorem Traced.once (traced : Traced setup es s) {d₀ : ℕ} {config₀ : OperationsConfig}
    (hrefused : .enrolled d₀ config₀ ∈ es) {before after : List Event}
    (run : Run Step s (before ++ .enrolled d config :: after) s')
    (hexpired : ∀ d', .expired d' ∈ before ++ .enrolled d config :: after → d' = d₀)
    (hcurrent : ∀ e ∈ after, ∀ nowMs, e.CallAt nowMs → current config nowMs = true) :
    ∀ d' config', .enrolled d' config' ∉ after := by
  obtain ⟨s₁, run₁, run₂⟩ := run.split
  cases run₂ with
  | @cons _ s₂ _ _ _ h run₂ =>
    have traced₁ := traced.run run₁
    have hflight : config.flight = d :=
      ((traced₁.step h).enrolled d config (List.mem_append_right _ (List.mem_singleton_self _))).1
    have hset : s₂.enrolled = some config := by
      cases h with
      | enrolled => rfl
    -- the refused descriptor is that of an earlier flight
    have hne : d ≠ d₀ := by
      rintro rfl
      obtain ⟨-, -, -, hrunning⟩ := traced₁.sound.slot_of_enrolled h
      obtain ⟨-, hhas | hhas, -⟩ := traced₁.enrolled d config₀ (List.mem_append_left _ hrefused)
      all_goals
        rw [hrunning] at hhas
        cases hhas
    refine (traced₁.sound.step h).enrolled_run hset run₂ (fun hmem => hne ?_) hcurrent
    rw [← hflight]
    exact hexpired _ (List.mem_append_right _ (List.mem_cons_of_mem _ hmem))

theorem Traced.handed (traced : Traced setup es s) (h : .enrolled d config ∈ es) : Listed setup es config :=
  (traced.enrolled d config h).2.2.2.2

theorem Traced.flown (traced : Traced setup es s) : SingleFlight setup es s where
  single _ _ := traced.sound.tied.single
  abandoned e s' d h hlive haborted := by
    -- Only an unsigned flight that the last of its callers left is aborted.
    obtain hold | ⟨hkept, hleft⟩ := aborted_cases traced.sound.tied h haborted
    · rw [hlive] at hold
      cases hold
    · refine ⟨hleft, fun hsigned => ?_⟩
      rw [(traced.signed d).2 hsigned] at hkept
      cases hkept
  recorded d hsigned hlive es' s' run := by
    have traced' := traced.run run
    have hlive' := traced.lasts hsigned hlive run
    have hsigned' : .signed d ∈ es ++ es' := List.mem_append_left _ hsigned
    refine ⟨hlive', fun hopen => ?_, traced'.goesOn hsigned' hlive'⟩
    exact traced'.sound.shares ((traced'.sound.tied.slot d).2 ⟨traced'.made hsigned', hlive', hopen⟩)
  kept d config s' h := by
    cases h with
    | enrolled => rfl
  never d haborted config henrolled := by
    have hlive := (traced.enrolled d config henrolled).2.2.2.1
    rw [haborted] at hlive
    cases hlive
  held := traced.held
  once _ _ hrefused _ _ _ _ _ run hexpired hcurrent := traced.once hrefused run hexpired hcurrent
  served k config nowMs hserved := current_iff.1 (traced.served k config nowMs hserved).1
  listed k config hhanded := by
    obtain ⟨nowMs, hserved⟩ | ⟨d, hanswered⟩ := hhanded
    · exact traced.handed (traced.served k config nowMs hserved).2
    · exact traced.handed (traced.answered k d config hanswered)

theorem singleFlight_run (run : Run Step (SessionKey.new setup) es s) : SingleFlight setup es s :=
  (traced_run run).flown

end Proofs

end SessionKey

/-- The active Turnkey session, as `getSession` answers it. -/
structure TurnkeySession where
  publicKey : Option JsString
  organizationId : JsString

/-- `turnkeyClientKeys`: its configuration, and a key for every session key met. -/
structure ClientKeys where
  network : Network
  solanaAddress : Option JsString
  keys : JsString → Option SessionKey

namespace ClientKeys

section

-- the uncompressed SEC1 form of a session key, in lowercase hex
variable (uncompressedSessionKey : JsString → Except Thrown JsString)

inductive Event where
  /-- `current` finds its key. -/
  | current (session : TurnkeySession)
  | key (publicKey : JsString) (e : SessionKey.Event)

def new (network : Network) (solanaAddress : Option JsString) : ClientKeys where
  network := network
  solanaAddress := solanaAddress
  keys _ := none

def set (s : ClientKeys) (publicKey : JsString) (key : SessionKey) : ClientKeys :=
  { s with keys := Function.update s.keys publicKey (some key) }

/-- What a session key is enrolled with. -/
def setup (s : ClientKeys) (organizationId clientPublicKey : JsString) : KeySetup :=
  ⟨s.network, s.solanaAddress, organizationId, clientPublicKey⟩

/-- `current`, once the session is there. -/
def current (s : ClientKeys) (session : Option TurnkeySession) :
    Except Thrown (ClientKeys × SessionKey) := do
  let session ← ofOption session (spr "TurnkeySessionRequired")
  let publicKey ← ofOption session.publicKey (spr "TurnkeySessionRequired")
  refuse (publicKey = []) (spr "TurnkeySessionRequired")
  match s.keys publicKey with
  | some key => return (s, key)
  | none =>
    let clientPublicKey ← uncompressedSessionKey publicKey
    let key := SessionKey.new (s.setup session.organizationId clientPublicKey)
    return (s.set publicKey key, key)

inductive Step (s : ClientKeys) : Event → ClientKeys → Prop where
  | current {session : TurnkeySession} {s' : ClientKeys} {key : SessionKey}
    (h : s.current uncompressedSessionKey (some session) = .ok (s', key)) : Step s (.current session) s'
  | key {publicKey : JsString} {key key' : SessionKey} {e : SessionKey.Event}
    (h : s.keys publicKey = some key) (hstep : key.Step e key') :
    Step s (.key publicKey e) (s.set publicKey key')

/-- The events of one session key. -/
def eventsOf (publicKey : JsString) (es : List Event) : List SessionKey.Event :=
  es.filterMap fun
    | .current _ => none
    | .key publicKey' e => if publicKey' = publicKey then some e else none

variable {uncompressedSessionKey} {s s' : ClientKeys} {e : Event} {es : List Event} {publicKey : JsString}
  {key : SessionKey} {network : Network} {solanaAddress : Option JsString}

theorem set_keys (publicKey' : JsString) : (s.set publicKey key).keys publicKey' =
    if publicKey' = publicKey then some key else s.keys publicKey' := by
  by_cases h : publicKey' = publicKey
  · subst h
    simp [set]
  · simp [set, h]

theorem keys_set : (s.set publicKey key).keys publicKey = some key := Function.update_self ..

theorem eventsOf_append_current (session : TurnkeySession) :
    eventsOf publicKey (es ++ [.current session]) = eventsOf publicKey es := by
  simp [eventsOf]

theorem eventsOf_append_key (publicKey' : JsString) (e : SessionKey.Event) :
    eventsOf publicKey (es ++ [.key publicKey' e]) =
      eventsOf publicKey es ++ if publicKey' = publicKey then [e] else [] := by
  by_cases h : publicKey' = publicKey
  · simp [eventsOf, h]
  · simp [eventsOf, h]

/-- Each key has run on its own since it was met. -/
structure Separate (uncompressedSessionKey : JsString → Except Thrown JsString) (network : Network)
    (solanaAddress : Option JsString) (es : List Event) (s : ClientKeys) : Prop where
  same : s.network = network ∧ s.solanaAddress = solanaAddress
  unmet : ∀ publicKey, s.keys publicKey = none → eventsOf publicKey es = []
  met : ∀ publicKey key, s.keys publicKey = some key → ∃ organizationId clientPublicKey,
    .current ⟨some publicKey, organizationId⟩ ∈ es ∧ uncompressedSessionKey publicKey = .ok clientPublicKey ∧
      Run SessionKey.Step (.new ⟨network, solanaAddress, organizationId, clientPublicKey⟩)
        (eventsOf publicKey es) key

/-- `current` makes the key of a session key that it meets first. -/
theorem current_eq_ok {session : TurnkeySession}
    (h : s.current uncompressedSessionKey (some session) = .ok (s', key)) :
    s' = s ∨ ∃ publicKey clientPublicKey, session.publicKey = some publicKey ∧
      s.keys publicKey = none ∧ uncompressedSessionKey publicKey = .ok clientPublicKey ∧
      s' = s.set publicKey (.new (s.setup session.organizationId clientPublicKey)) := by
  simp only [current, bind_eq_ok, ofOption_eq_ok, refuse_eq_ok] at h
  obtain ⟨_, hsession, publicKey, hpublicKey, -, -, h⟩ := h
  obtain rfl := Option.some.inj hsession
  cases hkeys : s.keys publicKey with
  | some key =>
    simp only [hkeys, pure_eq_ok, Prod.mk.injEq] at h
    exact .inl h.1.symm
  | none =>
    simp only [hkeys, bind_eq_ok, pure_eq_ok, Prod.mk.injEq] at h
    obtain ⟨clientPublicKey, hclient, rfl, -⟩ := h
    exact .inr ⟨publicKey, clientPublicKey, hpublicKey, hkeys, hclient, rfl⟩

theorem Separate.step (separate : Separate uncompressedSessionKey network solanaAddress es s)
    (h : Step uncompressedSessionKey s e s') :
    Separate uncompressedSessionKey network solanaAddress (es ++ [e]) s' := by
  -- What was met before the step was met by the end of it.
  have hmet : ∀ publicKey key, s.keys publicKey = some key → ∃ organizationId clientPublicKey,
      .current ⟨some publicKey, organizationId⟩ ∈ es ++ [e] ∧
      uncompressedSessionKey publicKey = .ok clientPublicKey ∧
      Run SessionKey.Step (.new ⟨network, solanaAddress, organizationId, clientPublicKey⟩)
        (eventsOf publicKey es) key := by
    intro publicKey key hkey
    obtain ⟨organizationId, clientPublicKey, hcurrent, hrest⟩ := separate.met publicKey key hkey
    exact ⟨organizationId, clientPublicKey, List.mem_append_left _ hcurrent, hrest⟩
  cases h with
  | @current session _ key h =>
    -- A session asks for its key: either it is there, or a new one is made for it.
    obtain rfl | ⟨publicKey, clientPublicKey, hpublicKey, hkeys, hclient, rfl⟩ := current_eq_ok h
    · refine ⟨separate.same, fun publicKey h => ?_, fun publicKey key h => ?_⟩
      · rw [eventsOf_append_current]
        exact separate.unmet publicKey h
      · rw [eventsOf_append_current]
        exact hmet publicKey key h
    · refine ⟨separate.same, fun publicKey' hkey => ?_, fun publicKey' key hkey => ?_⟩
      all_goals
        rw [set_keys] at hkey
        rw [eventsOf_append_current]
        split_ifs at hkey with hsame
      · exact separate.unmet publicKey' hkey
      · subst hsame
        obtain rfl := Option.some.inj hkey
        refine ⟨session.organizationId, clientPublicKey, ?_, hclient, ?_⟩
        · rw [← hpublicKey]
          exact List.mem_append_right _ (List.mem_singleton_self _)
        · rw [separate.unmet publicKey' hkeys, setup, separate.same.1, separate.same.2]
          exact .nil _
      · exact hmet publicKey' key hkey
  | @key publicKey key key' e h hstep =>
    -- A step of one key is no event of any other.
    refine ⟨separate.same, fun publicKey' hkey => ?_, fun publicKey' key'' hkey => ?_⟩
    all_goals
      rw [set_keys] at hkey
      rw [eventsOf_append_key]
      split_ifs at hkey with hsame
    · rw [if_neg (Ne.symm hsame), List.append_nil]
      exact separate.unmet publicKey' hkey
    · subst hsame
      obtain rfl := Option.some.inj hkey
      obtain ⟨organizationId, clientPublicKey, hcurrent, hclient, run⟩ := hmet publicKey' key h
      rw [if_pos rfl]
      exact ⟨organizationId, clientPublicKey, hcurrent, hclient, run.append (.single hstep)⟩
    · rw [if_neg (Ne.symm hsame), List.append_nil]
      exact hmet publicKey' key'' hkey

theorem separate_run (run : Run (Step uncompressedSessionKey) (.new network solanaAddress) es s) :
    Separate uncompressedSessionKey network solanaAddress es s :=
  run.history (I := Separate uncompressedSessionKey network solanaAddress)
    ⟨⟨rfl, rfl⟩, fun _ _ => rfl, fun _ _ h => nomatch h⟩ fun _ _ _ _ _ separate h => separate.step h

/-- Whatever the client's runs, each session key it meets enrolls in a single flight, for the organization
of a session it came with. -/
theorem singleFlight_of_run (run : Run (Step uncompressedSessionKey) (.new network solanaAddress) es s)
    (h : s.keys publicKey = some key) : ∃ organizationId clientPublicKey,
      .current ⟨some publicKey, organizationId⟩ ∈ es ∧ uncompressedSessionKey publicKey = .ok clientPublicKey ∧
      SessionKey.SingleFlight ⟨network, solanaAddress, organizationId, clientPublicKey⟩
        (eventsOf publicKey es) key := by
  obtain ⟨organizationId, clientPublicKey, hcurrent, hclient, run'⟩ := (separate_run run).met publicKey key h
  exact ⟨organizationId, clientPublicKey, hcurrent, hclient, SessionKey.singleFlight_run run'⟩

/-- The only caller leaves once the owner has signed, and the enrollment goes on. -/
theorem singleFlight_signedAndLeft : ∃ expected message key organizationId clientPublicKey,
    SessionKey.SingleFlight ⟨.devnet, none, organizationId, clientPublicKey⟩
      [.started 0 0 0, .found 0 expected message, .signed 0, .cancelled 0 0, .posted 0] key := by
  obtain ⟨message, h⟩ := @prepareEnrollment_of_walletAccount
    ⟨.devnet, none, utf16Units "org", utf16Units "04"⟩
    [⟨utf16Units "wallet", [⟨utf16Units "addr", SOLANA, none⟩]⟩] 0 (utf16Units "wallet")
    ⟨utf16Units "addr", SOLANA, none⟩ rfl (by decide) (by decide)
  have run : Run (Step fun _ => .ok (utf16Units "04")) (.new .devnet none)
      [.current ⟨some (utf16Units "02"), utf16Units "org"⟩, .key (utf16Units "02") (.started 0 0 0),
        .key (utf16Units "02") (.found 0 _ message), .key (utf16Units "02") (.signed 0),
        .key (utf16Units "02") (.cancelled 0 0), .key (utf16Units "02") (.posted 0)] _ :=
    .cons (.current rfl) <|
    .cons (.key keys_set (.started (fun _ h => nomatch h) rfl)) <|
    .cons (.key keys_set (.found Nat.zero_lt_one rfl rfl h)) <|
    .cons (.key keys_set (.signed Nat.zero_lt_one rfl)) <|
    .cons (.key keys_set (.cancelled List.mem_cons_self)) <|
    .cons (.key keys_set (.posted rfl rfl rfl)) <|
    .nil _
  obtain ⟨organizationId, clientPublicKey, -, -, hflight⟩ := singleFlight_of_run run keys_set
  exact ⟨_, message, _, organizationId, clientPublicKey, hflight⟩

end

end ClientKeys

end ZolanaTvc.Wallet
