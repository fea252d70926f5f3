import ZolanaTvc.Control.Flight
import ZolanaTvc.Wallet.AppProof
import ZolanaTvc.Wallet.Enrollment

/-!
# Session keys

A session key is enrolled on first use: the wallet owner signs the enrollment, and the gateway answers
with a descriptor, which the client keeps for the key. Callers share an enrollment. The last that leaves
aborts it, unless the owner's signature is recorded by then.

## Main results

* `SessionKey.Sound.step`: an enrollment that is posted is recorded and not aborted, and the descriptor in
  memory is that of the last enrollment.
* `SessionKey.traced_run`: what a run tells about the state it leads to.
-/

namespace ZolanaTvc.Wallet

open Except Json Protocol

section Descriptor

/-- What the descriptor has to list. -/
structure ExpectedDescriptor where
  network : JsString
  organizationId : JsString
  walletId : JsString
  address : JsString
  clientPublicKey : JsString

def DESCRIPTOR_KEYS : List String :=
  ["version", "security_domain_id", "network", "turnkey_organization_id", "turnkey_wallet_id", "address",
    "allowed_clients", "expires_at_ms", "provisioning_signature"]

def CLIENT_GRANT_KEYS : List String := ["client_public_key", "allowed_operations"]

def DESCRIPTOR_RENEWAL_MARGIN_MS : ℤ := 300000

/-- `expires_at_ms` of a descriptor, where it is a decimal `u64`. -/
def expiresAtMs (descriptor : List (JsString × JsValue)) : Except Thrown ℤ :=
  match descriptor.lookup (utf16Units "expires_at_ms") with
  | some (.str text) => decodeDecimalU64 text
  | _ => throw (spr "InvalidDescriptor")

/-- The descriptor lists the key for the wallet. -/
def Lists (expected : ExpectedDescriptor) (descriptor : List (JsString × JsValue)) : Prop :=
  descriptor.lookup (utf16Units "version") = some apiVersion ∧
  descriptor.lookup (utf16Units "network") = some (.str expected.network) ∧
  descriptor.lookup (utf16Units "turnkey_organization_id") = some (.str expected.organizationId) ∧
  descriptor.lookup (utf16Units "turnkey_wallet_id") = some (.str expected.walletId) ∧
  descriptor.lookup (utf16Units "address") = some (.str expected.address)

instance decidableLists (expected : ExpectedDescriptor) (descriptor : List (JsString × JsValue)) :
    Decidable (Lists expected descriptor) :=
  inferInstanceAs (Decidable (_ ∧ _ ∧ _ ∧ _ ∧ _))

def allowedClients (descriptor : List (JsString × JsValue)) : List JsValue :=
  match descriptor.lookup (utf16Units "allowed_clients") with
  | some (.arr clients) => clients
  | _ => []

/-- `grant?.client_public_key` -/
def clientPublicKeyOf : Option JsValue → Option JsValue
  | some (.obj grant) => grant.lookup (utf16Units "client_public_key")
  | _ => none

/-- The descriptor the gateway answered, checked to list this key for this wallet on this network. -/
def enrolledDescriptor (text : JsString) (expected : ExpectedDescriptor) :
    Except Thrown (List (JsString × JsValue)) := do
  let answer ← parseStrictJson text (some [utf16Units "descriptor"])
  let value ← property answer "descriptor"
  assertExactObjectKeys value DESCRIPTOR_KEYS "InvalidDescriptor"
  match value with
  | some (.obj descriptor) =>
    let clients := allowedClients descriptor
    assertExactObjectKeys clients.head? CLIENT_GRANT_KEYS "InvalidDescriptor"
    let _ ← expiresAtMs descriptor
    refuse (clients.tail ≠ [] ∨ ¬Lists expected descriptor ∨
      clientPublicKeyOf clients.head? ≠ some (.str expected.clientPublicKey)) (spr "InvalidDescriptor")
    return descriptor
  | _ => throw (spr "InvalidDescriptor")

/-- What an accepted descriptor is. -/
structure Enrolled (expected : ExpectedDescriptor) (descriptor : List (JsString × JsValue)) : Prop where
  lists : Lists expected descriptor
  client : ∃ grant, descriptor.lookup (utf16Units "allowed_clients") = some (.arr [.obj grant]) ∧
    grant.lookup (utf16Units "client_public_key") = some (.str expected.clientPublicKey)
  expires : ∃ expiry, expiresAtMs descriptor = .ok expiry

theorem obj_of_assertExactObjectKeys {value : Option JsValue} {expected : List String} {code : String}
    {u : Unit} (h : assertExactObjectKeys value expected code = .ok u) :
    ∃ members, value = some (.obj members) := by
  unfold assertExactObjectKeys at h
  split at h
  · exact ⟨_, rfl⟩
  · cases h

theorem enrolled_of_enrolledDescriptor {text : JsString} {expected : ExpectedDescriptor}
    {descriptor : List (JsString × JsValue)} (h : enrolledDescriptor text expected = .ok descriptor) :
    Enrolled expected descriptor := by
  simp only [enrolledDescriptor, bind_eq_ok] at h
  obtain ⟨answer, -, value, -, ⟨⟩, hkeys, h⟩ := h
  obtain ⟨members, rfl⟩ := obj_of_assertExactObjectKeys hkeys
  simp only [bind_eq_ok, refuse_eq_ok, pure_eq_ok, exists_const, not_or, not_not] at h
  obtain ⟨u, hgrant, expiry, hexpiry, ⟨htail, hlists, hclient⟩, rfl⟩ := h
  obtain ⟨grant, hhead⟩ := obj_of_assertExactObjectKeys hgrant
  rw [hhead] at hclient
  have hclients : allowedClients members = [.obj grant] := by
    rw [← List.cons_head?_tail hhead, htail]
  refine ⟨hlists, ⟨grant, ?_, hclient⟩, expiry, hexpiry⟩
  unfold allowedClients at hclients
  split at hclients
  · rename_i clients hlookup
    rw [hlookup, hclients]
  · cases hclients

end Descriptor

section Accounts

structure TurnkeyWalletAccount where
  address : JsString
  addressFormat : JsString
  source : Option JsString

structure TurnkeyWallet where
  walletId : JsString
  accounts : List TurnkeyWalletAccount

def SOLANA : JsString := utf16Units "ADDRESS_FORMAT_SOLANA"

/-- The wallet account to enroll: the one named, or the organization's only embedded Solana account. -/
def walletAccount (wallets : List TurnkeyWallet) (solanaAddress : Option JsString) :
    Except Thrown (JsString × TurnkeyWalletAccount) :=
  let candidates := wallets.flatMap fun wallet =>
    ((wallet.accounts.filter fun account => decide (account.addressFormat = SOLANA ∧
        account.source ≠ some (utf16Units "connected"))).filter fun account =>
      decide (solanaAddress = none ∨ solanaAddress = some account.address)).map fun account =>
    (wallet.walletId, account)
  match candidates with
  | [] => throw (spr "WalletAccountNotFound")
  | [only] => return only
  | _ => throw (spr "WalletAccountAmbiguous")

def ENROLLMENT_DOMAINS : Network → String
  | .devnet => "devnet.helius-rpc.com"
  | .mainnet => "mainnet.helius-rpc.com"

/-- What a session key is enrolled with. -/
structure KeySetup where
  network : Network
  solanaAddress : Option JsString
  organizationId : JsString
  clientPublicKey : JsString

/-- What `enroll` does once the wallets are fetched: the message the owner is to sign, and what the
descriptor has to list. -/
def prepareEnrollment (setup : KeySetup) (wallets : List TurnkeyWallet) (nowMs : ℤ) :
    Except Thrown (ExpectedDescriptor × JsString) := do
  let (walletId, account) ← walletAccount wallets setup.solanaAddress
  let message ← Enrollment.walletEnrollmentMessage {
    domain := utf16Units (ENROLLMENT_DOMAINS setup.network)
    network := utf16Units setup.network.asStr
    organizationId := setup.organizationId
    turnkeyWalletId := walletId
    solanaAddress := account.address
    clientPublicKey := setup.clientPublicKey
    issuedAtMs := ofNumeral (.ofInt nowMs) }
  return (⟨utf16Units setup.network.asStr, setup.organizationId, walletId, account.address,
    setup.clientPublicKey⟩, message)

/-- A wallet account is enrolled at any time, when none of the fields breaks the message's lines. -/
theorem prepareEnrollment_of_walletAccount {setup : KeySetup} {wallets : List TurnkeyWallet} {nowMs : ℤ}
    {walletId : JsString} {account : TurnkeyWalletAccount}
    (hwallet : walletAccount wallets setup.solanaAddress = .ok (walletId, account))
    (hnow : 0 ≤ nowMs ∧ nowMs ≤ Enrollment.MAX_ISSUED_AT_MS)
    (hlines : ([utf16Units (ENROLLMENT_DOMAINS setup.network), setup.organizationId, walletId,
      account.address, setup.clientPublicKey].any Enrollment.hasLineBreak) = false) :
    ∃ message, prepareEnrollment setup wallets nowMs = .ok (⟨utf16Units setup.network.asStr,
      setup.organizationId, walletId, account.address, setup.clientPublicKey⟩, message) := by
  have hsafe : IsSafe nowMs := by
    have hmax : Enrollment.MAX_ISSUED_AT_MS = 253402300499999 := by decide
    unfold IsSafe
    rw [abs_of_nonneg hnow.1]
    omega
  simp only [prepareEnrollment, hwallet, Enrollment.walletEnrollmentMessage,
    Enrollment.safeInteger_ofNumeral hsafe, Enrollment.requireNetwork_asStr, bind_eq_ok, ofOption_eq_ok,
    refuse_eq_ok, pure_eq_ok]
  exact ⟨_, _, rfl, _, ⟨nowMs, rfl, (), by omega, _, rfl, (), Bool.not_eq_true _ ▸ hlines, rfl⟩, rfl⟩

end Accounts

/-- Where `enroll` is. -/
inductive EnrollPhase where
  /-- It waits for the wallets. -/
  | looking
  /-- It waits for the owner's signature. -/
  | signing (expected : ExpectedDescriptor)
  /-- `onSigned` recorded the signature, and `enroll` has not gone on. -/
  | recorded (expected : ExpectedDescriptor)
  /-- It waits for the gateway. -/
  | posting (expected : ExpectedDescriptor)

/-- The descriptor of a flight; it is one object. -/
structure OperationsConfig where
  descriptor : List (JsString × JsValue)
  flight : ℕ

/-- The variables of `sessionKey`. A flight is kept when its `signed` is set. -/
structure SessionKey where
  setup : KeySetup
  enrolled : Option OperationsConfig
  flights : Flights (Except Thrown OperationsConfig)
  phase : ℕ → EnrollPhase

namespace SessionKey

inductive Event where
  /-- A call of `operations` whose signal is aborted already. -/
  | refused (call : ℕ)
  /-- A call that is handed the descriptor in memory. -/
  | served (call : ℕ) (config : OperationsConfig) (nowMs : ℤ)
  | started (call flight : ℕ) (nowMs : ℤ)
  | joined (call flight : ℕ) (nowMs : ℤ)
  /-- The wallets are fetched, and the owner is asked to sign. -/
  | found (flight : ℕ) (expected : ExpectedDescriptor) (message : JsString)
  /-- The owner's signature comes, and `onSigned` is its first reaction. -/
  | signed (flight : ℕ)
  | posted (flight : ℕ)
  | enrolled (flight : ℕ) (config : OperationsConfig)
  /-- A flight fails, at whichever of its awaits. -/
  | lost (flight : ℕ) (e : Thrown)
  | settled (flight : ℕ)
  | answered (call flight : ℕ) (config : OperationsConfig)
  | failed (call flight : ℕ) (e : Thrown)
  /-- A call ends because its own signal aborted. -/
  | cancelled (call flight : ℕ)
  /-- `expire` of the descriptor of a flight. -/
  | expired (flight : ℕ)

def new (setup : KeySetup) : SessionKey where
  setup := setup
  enrolled := none
  flights := .new
  phase _ := .looking

/-- The descriptor still has the renewal margin ahead of it. -/
def current (config : OperationsConfig) (nowMs : ℤ) : Bool :=
  match expiresAtMs config.descriptor with
  | .ok expiry => decide (DESCRIPTOR_RENEWAL_MARGIN_MS < expiry - nowMs)
  | .error _ => false

/-- Nothing in memory serves a call now. -/
def Stale (s : SessionKey) (nowMs : ℤ) : Prop :=
  ∀ config, s.enrolled = some config → current config nowMs = false

def withFlights (s : SessionKey) (flights : Flights (Except Thrown OperationsConfig)) : SessionKey :=
  { s with flights := flights }

def setEnrolled (s : SessionKey) (enrolled : Option OperationsConfig) : SessionKey :=
  { s with enrolled := enrolled }

def setPhase (s : SessionKey) (flight : ℕ) (phase : EnrollPhase) : SessionKey :=
  { s with phase := Function.update s.phase flight phase }

def expire (s : SessionKey) (flight : ℕ) : SessionKey :=
  s.setEnrolled (s.enrolled.filter fun config => decide (config.flight ≠ flight))

/-- What one microtask or one call does. An aborted flight may still ask for the signature, but it does
not go on with it. -/
inductive Step (s : SessionKey) : Event → SessionKey → Prop where
  | refused : Step s (.refused s.flights.calls) (s.withFlights s.flights.pass)
  | served {config : OperationsConfig} {nowMs : ℤ} (h : s.enrolled = some config)
    (hcurrent : current config nowMs = true) :
    Step s (.served s.flights.calls config nowMs) (s.withFlights s.flights.pass)
  | started {nowMs : ℤ} (stale : s.Stale nowMs) (empty : s.flights.slot = none) :
    Step s (.started s.flights.calls s.flights.made nowMs)
      ((s.withFlights (s.flights.start.wait s.flights.made)).setEnrolled none)
  | joined {d : ℕ} {nowMs : ℤ} (stale : s.Stale nowMs) (slot : s.flights.slot = some d) :
    Step s (.joined s.flights.calls d nowMs) ((s.withFlights (s.flights.wait d)).setEnrolled none)
  | found {d : ℕ} {wallets : List TurnkeyWallet} {nowMs : ℤ} {expected : ExpectedDescriptor}
    {message : JsString} (made : d < s.flights.made) (running : s.flights.stage d = .running)
    (phase : s.phase d = .looking)
    (h : prepareEnrollment s.setup wallets nowMs = .ok (expected, message)) :
    Step s (.found d expected message) (s.setPhase d (.signing expected))
  | signed {d : ℕ} {expected : ExpectedDescriptor} (made : d < s.flights.made)
    (phase : s.phase d = .signing expected) :
    Step s (.signed d) ((s.withFlights (s.flights.keep d)).setPhase d (.recorded expected))
  | posted {d : ℕ} {expected : ExpectedDescriptor} (running : s.flights.stage d = .running)
    (live : s.flights.aborted d = false) (phase : s.phase d = .recorded expected) :
    Step s (.posted d) (s.setPhase d (.posting expected))
  | enrolled {d : ℕ} {text : JsString} {expected : ExpectedDescriptor}
    {descriptor : List (JsString × JsValue)} (made : d < s.flights.made)
    (running : s.flights.stage d = .running) (phase : s.phase d = .posting expected)
    (h : enrolledDescriptor text expected = .ok descriptor) :
    Step s (.enrolled d ⟨descriptor, d⟩)
      ((s.withFlights (s.flights.setStage d (.landed (.ok ⟨descriptor, d⟩)))).setEnrolled
        (some ⟨descriptor, d⟩))
  | lost {d : ℕ} {e : Thrown} (made : d < s.flights.made) (running : s.flights.stage d = .running) :
    Step s (.lost d e) (s.withFlights (s.flights.setStage d (.landed (.error e))))
  | settled {d : ℕ} {result : Except Thrown OperationsConfig}
    (stage : s.flights.stage d = .landed result) :
    Step s (.settled d) (s.withFlights (s.flights.settle d result))
  | answered {k d : ℕ} {config : OperationsConfig} (waits : (k, d) ∈ s.flights.waiting)
    (stage : s.flights.stage d = .settled (.ok config)) :
    Step s (.answered k d config) (s.withFlights (s.flights.leave k d))
  | failed {k d : ℕ} {e : Thrown} (waits : (k, d) ∈ s.flights.waiting)
    (stage : s.flights.stage d = .settled (.error e)) :
    Step s (.failed k d e) (s.withFlights (s.flights.leave k d))
  | cancelled {k d : ℕ} (waits : (k, d) ∈ s.flights.waiting) :
    Step s (.cancelled k d) (s.withFlights (s.flights.leave k d))
  | expired {d : ℕ} : Step s (.expired d) (s.expire d)

variable {s s' : SessionKey} {e : Event} {es : List Event} {d k : ℕ} {config : OperationsConfig}

section Steps

theorem flights_step (h : s.Step e s') :
    s'.flights = s.flights ∨ ∃ fe, s.flights.Step fe s'.flights := by
  cases h with
  | refused | served h hcurrent => exact .inr ⟨_, .passed⟩
  | started stale empty => exact .inr ⟨_, .started empty⟩
  | joined stale slot => exact .inr ⟨_, .joined slot⟩
  | found made running phase h => exact .inl rfl
  | signed made phase => exact .inr ⟨_, .kept made⟩
  | posted running live phase => exact .inl rfl
  | enrolled made running phase h => exact .inr ⟨_, .landed made running⟩
  | lost made running => exact .inr ⟨_, .landed made running⟩
  | settled stage => exact .inr ⟨_, .settled stage⟩
  | answered waits stage | failed waits stage | cancelled waits => exact .inr ⟨_, .left waits⟩
  | expired => exact .inl rfl

/-- What every step of the flights keeps, every step keeps. -/
theorem flights_keep {I : Flights (Except Thrown OperationsConfig) → Prop} (h : s.Step e s')
    (start : I s.flights) (keep : ∀ fe f', s.flights.Step fe f' → I f') : I s'.flights := by
  obtain hsame | ⟨fe, hstep⟩ := flights_step h
  · rwa [hsame]
  · exact keep fe _ hstep

theorem tied_step (tied : s.flights.Tied) (h : s.Step e s') : s'.flights.Tied :=
  flights_keep h tied fun _ _ hstep => tied.step hstep

theorem setup_step (h : s.Step e s') : s'.setup = s.setup := by
  cases h <;> rfl

/-- `signed` is set by `onSigned` alone. -/
theorem kept_step (h : s.Step e s') :
    s'.flights.kept d = true ↔ s.flights.kept d = true ∨ e = .signed d := by
  cases h with
  | @signed d' expected made phase =>
    by_cases hd : d = d'
    · subst hd
      simp [withFlights, setPhase, Flights.keep]
    · simp [withFlights, setPhase, Flights.keep, hd, Ne.symm hd]
  | _ =>
    refine ⟨.inl, fun h => h.resolve_right ?_⟩
    rintro ⟨⟩

/-- A flight is aborted by the last that leaves it, unless it is kept. -/
theorem aborted_cases (tied : s.flights.Tied) (h : s.Step e s') (haborted : s'.flights.aborted d = true) :
    s.flights.aborted d = true ∨ s.flights.kept d = false ∧ ∀ k, (k, d) ∉ s'.flights.waiting := by
  obtain hsame | ⟨fe, hstep⟩ := flights_step h
  · rw [hsame] at haborted
    exact .inl haborted
  · exact (Flights.aborted_cases tied hstep haborted).imp_right And.right

/-- How `enroll` goes on. -/
theorem phase_cases (h : s.Step e s') (d : ℕ) : s'.phase d = s.phase d ∨
    (∃ expected message wallets nowMs, e = .found d expected message ∧ s.phase d = .looking ∧
      prepareEnrollment s.setup wallets nowMs = .ok (expected, message) ∧
      s'.phase d = .signing expected) ∨
    (∃ expected, e = .signed d ∧ s.phase d = .signing expected ∧ s'.phase d = .recorded expected) ∨
    ∃ expected, e = .posted d ∧ s.flights.aborted d = false ∧ s.phase d = .recorded expected ∧
      s'.phase d = .posting expected := by
  have hset : ∀ (s : SessionKey) d' phase,
      (s.setPhase d' phase).phase d = if d = d' then phase else s.phase d := by
    intro s d' phase
    by_cases hd : d = d'
    · subst hd
      simp [setPhase]
    · simp [setPhase, hd]
  -- Only the three events of `enroll` itself move a phase, and each moves that of its own flight.
  cases h with
  | @found d' wallets nowMs expected message made running phase h =>
    by_cases hd : d = d'
    · subst hd
      exact .inr (.inl ⟨expected, message, wallets, nowMs, rfl, phase, h, by rw [hset, if_pos rfl]⟩)
    · exact .inl (by rw [hset, if_neg hd])
  | @signed d' expected made phase =>
    by_cases hd : d = d'
    · subst hd
      exact .inr (.inr (.inl ⟨expected, rfl, phase, by rw [hset, if_pos rfl]⟩))
    · exact .inl (by rw [hset, if_neg hd]; rfl)
  | @posted d' expected running live phase =>
    by_cases hd : d = d'
    · subst hd
      exact .inr (.inr (.inr ⟨expected, rfl, live, phase, by rw [hset, if_pos rfl]⟩))
    · exact .inl (by rw [hset, if_neg hd])
  | _ => exact .inl rfl

theorem phase_signed (h : s.Step (.signed d) s') : ∃ expected, s'.phase d = .recorded expected := by
  cases h with
  | signed made phase => exact ⟨_, Function.update_self ..⟩

/-- What sets the descriptor in memory, and what clears it. -/
theorem enrolled_cases (h : s.Step e s') : s'.enrolled = s.enrolled ∨
    s'.enrolled = none ∧ ((∃ k d nowMs, (e = .started k d nowMs ∨ e = .joined k d nowMs) ∧ s.Stale nowMs) ∨
      ∃ config, s.enrolled = some config ∧ e = .expired config.flight) ∨
    ∃ d config, e = .enrolled d config ∧ s'.enrolled = some config := by
  cases h with
  | started stale empty => exact .inr (.inl ⟨rfl, .inl ⟨_, _, _, .inl rfl, stale⟩⟩)
  | joined stale slot => exact .inr (.inl ⟨rfl, .inl ⟨_, _, _, .inr rfl, stale⟩⟩)
  | enrolled made running phase h => exact .inr (.inr ⟨_, _, rfl, rfl⟩)
  | @expired d =>
    cases hs : s.enrolled with
    | none => exact .inl (by simp [expire, setEnrolled, hs])
    | some config =>
      by_cases hd : config.flight = d
      · subst hd
        exact .inr (.inl ⟨by simp [expire, setEnrolled, hs], .inr ⟨config, rfl, rfl⟩⟩)
      · exact .inl (by simp [expire, setEnrolled, hs, hd])
  | _ => exact .inl rfl

end Steps

section Sound

/-- The flight has the descriptor. -/
def Has (s : SessionKey) (d : ℕ) (config : OperationsConfig) : Prop :=
  s.flights.stage d = .landed (.ok config) ∨ s.flights.stage d = .settled (.ok config)

/-- How a flight comes to a descriptor. -/
theorem has_cases (h : s.Step e s') (has : s'.Has d config) : s.Has d config ∨
    e = .enrolled d config := by
  -- Landing and settling write a stage; of these only `enrolled` writes a descriptor.
  cases h with
  | @enrolled d' text expected descriptor made running phase h =>
    obtain hstage | hstage := has
    all_goals
      have hset : (s.flights.setStage d' (.landed (.ok ⟨descriptor, d'⟩))).stage d = _ := hstage
      rw [Flights.setStage_stage] at hset
      split_ifs at hset with hd
    · subst hd
      cases hset
      exact .inr rfl
    · exact .inl (.inl hset)
    · exact .inl (.inr hset)
  | @lost d' e made running =>
    obtain hstage | hstage := has
    all_goals
      have hset : (s.flights.setStage d' (.landed (.error e))).stage d = _ := hstage
      rw [Flights.setStage_stage] at hset
      split_ifs at hset with hd
    · cases hset
    · exact .inl (.inl hset)
    · exact .inl (.inr hset)
  | @settled d' result stage =>
    obtain hstage | hstage := has
    all_goals
      have hset : (s.flights.setStage d' (.settled result)).stage d = _ := hstage
      rw [Flights.setStage_stage] at hset
      split_ifs at hset with hd
    · exact .inl (.inl hset)
    · subst hd
      cases hset
      exact .inl (.inl stage)
    · exact .inl (.inr hset)
  | _ => exact .inl has

theorem Has.step (has : s.Has d config) (h : s.Step e s') : s'.Has d config := by
  have hstages : s'.flights.stage d = s.flights.stage d ∨
      ∃ r, s.flights.stage d = .landed r ∧ s'.flights.stage d = .settled r := by
    obtain hsame | ⟨fe, hstep⟩ := flights_step h
    · exact .inl (by rw [hsame])
    · obtain hsame | ⟨r, -, hrunning, -⟩ | ⟨r, -, hlanded, hsettled⟩ := Flights.stage_cases hstep d
      · exact .inl hsame
      · obtain has | has := has <;> rw [hrunning] at has <;> cases has
      · exact .inr ⟨r, hlanded, hsettled⟩
  obtain hsame | ⟨r, hlanded, hsettled⟩ := hstages
  · rwa [Has, hsame]
  · obtain has | has := has
    · rw [hlanded] at has
      cases has
      exact .inr hsettled
    · rw [hlanded] at has
      cases has

/-- What holds of the flights, of where they are and of what is in memory. -/
structure Sound (s : SessionKey) : Prop where
  tied : s.flights.Tied
  recorded : ∀ d expected, s.phase d = .recorded expected → s.flights.kept d = true
  posting : ∀ d expected, s.phase d = .posting expected →
    s.flights.kept d = true ∧ s.flights.aborted d = false
  /-- The descriptor in memory is that of a flight that its signature kept. -/
  enrolled : ∀ config, s.enrolled = some config → s.Has config.flight config ∧
    s.flights.kept config.flight = true ∧ s.flights.aborted config.flight = false
  /-- No other flight is open next to it. -/
  slot : ∀ config, s.enrolled = some config → ∀ d, s.flights.slot = some d → d = config.flight

theorem Sound.new (setup : KeySetup) : (SessionKey.new setup).Sound where
  tied := .new
  recorded _ _ h := nomatch h
  posting _ _ h := nomatch h
  enrolled _ h := nomatch h
  slot _ h := nomatch h

/-- A kept flight that was not aborted is never aborted. -/
theorem lasts_step (tied : s.flights.Tied) (h : s.Step e s')
    (hlasts : s.flights.kept d = true ∧ s.flights.aborted d = false) :
    s'.flights.kept d = true ∧ s'.flights.aborted d = false := by
  refine ⟨(kept_step h).2 (.inl hlasts.1), ?_⟩
  rw [← Bool.not_eq_true]
  intro haborted
  obtain hold | ⟨hkept, -⟩ := aborted_cases tied h haborted
  · rw [hlasts.2] at hold
    cases hold
  · rw [hlasts.1] at hkept
    cases hkept

/-- A flight that answers a descriptor is the one in the slot. -/
theorem Sound.slot_of_enrolled (sound : s.Sound) (h : s.Step (.enrolled d config) s') :
    s.flights.slot = some d ∧ s.flights.kept d = true ∧ s.flights.aborted d = false ∧
      s.flights.stage d = .running := by
  cases h with
  | enrolled made running phase h =>
    obtain ⟨hkept, hlive⟩ := sound.posting d _ phase
    refine ⟨(sound.tied.slot d).2 ⟨made, hlive, fun r => ?_⟩, hkept, hlive, running⟩
    rw [running]
    exact fun h => nomatch h

theorem Sound.step (sound : s.Sound) (h : s.Step e s') : s'.Sound := by
  refine ⟨tied_step sound.tied h, fun d expected hphase => ?_, fun d expected hphase => ?_,
    fun config hconfig => ?_, fun config hconfig d hslot => ?_⟩
  -- A recorded flight was recorded before, or is now.
  · rw [kept_step h]
    obtain hsame | ⟨_, _, _, _, -, -, -, hnew⟩ | ⟨_, rfl, -, -⟩ | ⟨_, -, -, -, hnew⟩ := phase_cases h d
    · exact .inl (sound.recorded d expected (hsame ▸ hphase))
    · rw [hnew] at hphase
      cases hphase
    · exact .inr rfl
    · rw [hnew] at hphase
      cases hphase
  · obtain hsame | ⟨_, _, _, _, -, -, -, hnew⟩ | ⟨_, -, -, hnew⟩ | ⟨_, -, hlive, hold, -⟩ := phase_cases h d
    · exact lasts_step sound.tied h (sound.posting d expected (hsame ▸ hphase))
    · rw [hnew] at hphase
      cases hphase
    · rw [hnew] at hphase
      cases hphase
    · exact lasts_step sound.tied h ⟨sound.recorded d _ hold, hlive⟩
  -- The descriptor kept is the old one, none after an expiry, or the one just enrolled.
  · obtain hsame | ⟨hnone, -⟩ | ⟨d, config', rfl, hset⟩ := enrolled_cases h
    · obtain ⟨has, hlasts⟩ := sound.enrolled config (hsame ▸ hconfig)
      exact ⟨has.step h, lasts_step sound.tied h hlasts⟩
    · rw [hnone] at hconfig
      cases hconfig
    · obtain ⟨-, hkept, hlive, -⟩ := sound.slot_of_enrolled h
      obtain rfl : config' = config := Option.some.inj (hset.symm.trans hconfig)
      have hlasts := lasts_step sound.tied h ⟨hkept, hlive⟩
      cases h with
      | enrolled => exact ⟨.inl (Flights.setStage_stage.trans (if_pos rfl)), hlasts⟩
  -- While a flight holds the slot, the descriptor kept is that flight's.
  · obtain hsame | ⟨hnone, -⟩ | ⟨d', config', rfl, hset⟩ := enrolled_cases h
    · have hold : s.enrolled = some config := hsame ▸ hconfig
      obtain hflights | ⟨fe, hstep⟩ := flights_step h
      · exact sound.slot config hold d (hflights ▸ hslot)
      · cases h with
        | started | joined => cases hconfig
        | settled stage => exact sound.slot config hold d (Flights.settle_slot.1 hslot).1
        | answered waits stage | failed waits stage | cancelled waits =>
          exact sound.slot config hold d (Flights.leave_slot.1 hslot).1
        | _ => exact sound.slot config hold d hslot
    · rw [hnone] at hconfig
      cases hconfig
    · obtain ⟨hold, -⟩ := sound.slot_of_enrolled h
      obtain rfl : config' = config := Option.some.inj (hset.symm.trans hconfig)
      cases h with
      | enrolled => exact Option.some.inj (hslot.symm.trans hold)

/-- While a descriptor is in memory, no other is enrolled. -/
theorem Sound.not_enrolled (sound : s.Sound) (hconfig : s.enrolled = some config)
    {config' : OperationsConfig} : ¬s.Step (.enrolled d config') s' := by
  intro h
  obtain ⟨hslot, -, -, hrunning⟩ := sound.slot_of_enrolled h
  obtain rfl := sound.slot config hconfig d hslot
  obtain hhas | hhas := (sound.enrolled config hconfig).1 <;> rw [hrunning] at hhas <;> cases hhas

end Sound

section Traced

variable {setup : KeySetup}

/-- What `enroll` goes on with, once the wallets are fetched. -/
def Expects (phase : EnrollPhase) (expected : ExpectedDescriptor) : Prop :=
  phase = .signing expected ∨ phase = .recorded expected ∨ phase = .posting expected

/-- The descriptor lists the key for the wallet that the owner signed the enrollment of. -/
def Listed (setup : KeySetup) (es : List Event) (config : OperationsConfig) : Prop :=
  ∃ expected message wallets nowMs, .found config.flight expected message ∈ es ∧
    prepareEnrollment setup wallets nowMs = .ok (expected, message) ∧ Enrolled expected config.descriptor

theorem Listed.append (h : Listed setup es config) (es' : List Event) : Listed setup (es ++ es') config := by
  obtain ⟨expected, message, wallets, nowMs, hfound, hrest⟩ := h
  exact ⟨expected, message, wallets, nowMs, List.mem_append_left _ hfound, hrest⟩

/-- What the events tell about a state that they lead to. -/
structure Traced (setup : KeySetup) (es : List Event) (s : SessionKey) : Prop where
  sound : s.Sound
  same : s.setup = setup
  signed : ∀ d, s.flights.kept d = true ↔ .signed d ∈ es
  /-- The owner's signature is followed by the gateway's answer. -/
  going : ∀ d, .signed d ∈ es → ∃ expected, s.phase d = .recorded expected ∨ s.phase d = .posting expected
  phase : ∀ d expected, Expects (s.phase d) expected → ∃ message wallets nowMs,
    .found d expected message ∈ es ∧ prepareEnrollment setup wallets nowMs = .ok (expected, message)
  enrolled : ∀ d config, .enrolled d config ∈ es → config.flight = d ∧ s.Has d config ∧
    s.flights.kept d = true ∧ s.flights.aborted d = false ∧ Listed setup es config
  held : ∀ config, s.enrolled = some config → .enrolled config.flight config ∈ es
  result : ∀ d config, s.Has d config → .enrolled d config ∈ es
  served : ∀ k config nowMs, .served k config nowMs ∈ es →
    current config nowMs = true ∧ .enrolled config.flight config ∈ es
  answered : ∀ k d config, .answered k d config ∈ es → .enrolled d config ∈ es

theorem Traced.new (setup : KeySetup) : Traced setup [] (SessionKey.new setup) where
  sound := .new setup
  same := rfl
  signed _ := ⟨fun h => (nomatch h), fun h => (nomatch h)⟩
  going _ h := nomatch h
  phase _ _ h := by obtain h | h | h := h <;> cases h
  enrolled _ _ h := nomatch h
  held _ h := nomatch h
  result _ _ h := by obtain h | h := h <;> cases h
  served _ _ _ h := nomatch h
  answered _ _ _ h := nomatch h

theorem Traced.going_step (traced : Traced setup es s) (h : s.Step e s') (hsigned : .signed d ∈ es ++ [e]) :
    ∃ expected, s'.phase d = .recorded expected ∨ s'.phase d = .posting expected := by
  obtain hpassed | hnow := List.mem_append.1 hsigned
  · obtain ⟨expected, hgoing⟩ := traced.going d hpassed
    obtain hsame | ⟨_, _, _, _, -, hlooking, -, -⟩ | ⟨expected', -, -, hnew⟩ | ⟨expected', -, -, -, hnew⟩ :=
      phase_cases h d
    · rw [hsame]
      exact ⟨expected, hgoing⟩
    · rw [hlooking] at hgoing
      obtain hgoing | hgoing := hgoing <;> cases hgoing
    · exact ⟨expected', .inl hnew⟩
    · exact ⟨expected', .inr hnew⟩
  · obtain rfl := List.mem_singleton.1 hnow
    obtain ⟨expected, hnew⟩ := phase_signed h
    exact ⟨expected, .inl hnew⟩

theorem Traced.phase_step (traced : Traced setup es s) (h : s.Step e s') {expected : ExpectedDescriptor}
    (hphase : Expects (s'.phase d) expected) : ∃ message wallets nowMs,
      .found d expected message ∈ es ++ [e] ∧
        prepareEnrollment setup wallets nowMs = .ok (expected, message) := by
  have hold : Expects (s.phase d) expected → ∃ message wallets nowMs,
      .found d expected message ∈ es ++ [e] ∧
        prepareEnrollment setup wallets nowMs = .ok (expected, message) := by
    intro hphase
    obtain ⟨message, wallets, nowMs, hfound, hprepare⟩ := traced.phase d expected hphase
    exact ⟨message, wallets, nowMs, List.mem_append_left _ hfound, hprepare⟩
  obtain hsame | ⟨expected', message, wallets, nowMs, rfl, -, hprepare, hnew⟩ |
    ⟨expected', -, hsigning, hnew⟩ | ⟨expected', -, -, hrecorded, hnew⟩ := phase_cases h d
  · rw [hsame] at hphase
    exact hold hphase
  all_goals
    rw [hnew] at hphase
    obtain hphase | hphase | hphase := hphase <;> cases hphase
  · exact ⟨message, wallets, nowMs, List.mem_append_right _ (List.mem_singleton_self _),
      traced.same ▸ hprepare⟩
  · exact hold (.inl hsigning)
  · exact hold (.inr (.inl hrecorded))

theorem Traced.enrolled_step (traced : Traced setup es s) (h : s.Step e s')
    (henrolled : .enrolled d config ∈ es ++ [e]) : config.flight = d ∧ s'.Has d config ∧
      s'.flights.kept d = true ∧ s'.flights.aborted d = false ∧ Listed setup (es ++ [e]) config := by
  obtain hpassed | hnow := List.mem_append.1 henrolled
  · obtain ⟨hflight, has, hkept, hlive, hlisted⟩ := traced.enrolled d config hpassed
    obtain ⟨hkept', hlive'⟩ := lasts_step traced.sound.tied h ⟨hkept, hlive⟩
    exact ⟨hflight, has.step h, hkept', hlive', hlisted.append [e]⟩
  · obtain rfl := List.mem_singleton.1 hnow
    obtain ⟨-, hkept, hlive, -⟩ := traced.sound.slot_of_enrolled h
    obtain ⟨hkept', hlive'⟩ := lasts_step traced.sound.tied h ⟨hkept, hlive⟩
    cases h with
    | enrolled made running phase h =>
      obtain ⟨message, wallets, nowMs, hfound, hprepare⟩ := traced.phase d _ (.inr (.inr phase))
      exact ⟨rfl, .inl (Flights.setStage_stage.trans (if_pos rfl)), hkept', hlive', _, message, wallets,
        nowMs, List.mem_append_left _ hfound, hprepare, enrolled_of_enrolledDescriptor h⟩

theorem Traced.result_step (traced : Traced setup es s) (h : s.Step e s') (has : s'.Has d config) :
    .enrolled d config ∈ es ++ [e] := by
  obtain hold | rfl := has_cases h has
  · exact List.mem_append_left _ (traced.result d config hold)
  · exact List.mem_append_right _ (List.mem_singleton_self _)

theorem Traced.held_step (traced : Traced setup es s) (h : s.Step e s') (hconfig : s'.enrolled = some config) :
    .enrolled config.flight config ∈ es ++ [e] :=
  traced.result_step h ((traced.sound.step h).enrolled config hconfig).1

theorem Traced.served_step (traced : Traced setup es s) (h : s.Step e s') {nowMs : ℤ}
    (hserved : .served k config nowMs ∈ es ++ [e]) :
    current config nowMs = true ∧ .enrolled config.flight config ∈ es ++ [e] := by
  obtain hpassed | hnow := List.mem_append.1 hserved
  · obtain ⟨hcurrent, henrolled⟩ := traced.served k config nowMs hpassed
    exact ⟨hcurrent, List.mem_append_left _ henrolled⟩
  · obtain rfl := List.mem_singleton.1 hnow
    cases h with
    | served h hcurrent => exact ⟨hcurrent, List.mem_append_left _ (traced.held config h)⟩

theorem Traced.answered_step (traced : Traced setup es s) (h : s.Step e s')
    (hanswered : .answered k d config ∈ es ++ [e]) : .enrolled d config ∈ es ++ [e] := by
  obtain hpassed | hnow := List.mem_append.1 hanswered
  · exact List.mem_append_left _ (traced.answered k d config hpassed)
  · obtain rfl := List.mem_singleton.1 hnow
    cases h with
    | answered waits stage => exact List.mem_append_left _ (traced.result d config (.inr stage))

theorem Traced.step (traced : Traced setup es s) (h : s.Step e s') : Traced setup (es ++ [e]) s' where
  sound := traced.sound.step h
  same := (setup_step h).trans traced.same
  signed d := by
    rw [kept_step h, traced.signed d, List.mem_append, List.mem_singleton, eq_comm (a := e)]
  going _ := traced.going_step h
  phase _ _ := traced.phase_step h
  enrolled _ _ := traced.enrolled_step h
  held _ := traced.held_step h
  result _ _ := traced.result_step h
  served _ _ _ := traced.served_step h
  answered _ _ _ := traced.answered_step h

theorem traced_run (run : Run Step (SessionKey.new setup) es s) : Traced setup es s :=
  run.history (I := Traced setup) (.new setup) fun _ _ _ _ _ traced h => traced.step h

/-- A run that goes on. -/
theorem Traced.run (traced : Traced setup es s) {es' : List Event} (run : Run Step s es' s') :
    Traced setup (es ++ es') s' :=
  run.history (I := fun es' => Traced setup (es ++ es')) ((List.append_nil es).symm ▸ traced)
    fun _ _ _ _ _ traced h => List.append_assoc _ _ _ ▸ traced.step h

end Traced

end SessionKey

end ZolanaTvc.Wallet
