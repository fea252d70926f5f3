import ZolanaTvc.EndToEnd.Issuance
import ZolanaTvc.Gateway.Ownership
import ZolanaTvc.Protocol.Binding

/-!
# Projects are isolated

The gateway checks whose the sub-organization of a descriptor is, and the enclave runs a request that it
alone can read, which holds a descriptor of its own. What ties them is the digest in the grant that the
gateway puts on every request that it forwards.

## Main results

* `Isolation.projects_isolated`: what the enclave runs is for a wallet whose sub-organization is the project's.
-/

namespace ZolanaTvc.EndToEnd.Isolation

open Protocol Gateway Except

section System

variable (N V : Type)

/-- A request to `/operations`, or an enrollment, of which the check of its sub-organization alone
matters here. -/
inductive Caller where
  | operations (project : ProjectId) (descriptor : WalletDescriptor) (request : EncryptedRequest)
    (readings : AppState.OperationsReadings)
  | enroll (project : ProjectId) (organizationId : String)

def Caller.subOrgCall : Caller → SubOrgCall
  | .operations project descriptor _ _ => ⟨project, descriptor.turnkeyOrganizationId⟩
  | .enroll project organizationId => ⟨project, organizationId⟩

/-- A gateway and the replicas of the enclave, and the calls that are made to the gateway. -/
structure System where
  gateway : Gateway.AppState
  ownershipTtl : ℕ
  enclave : ℕ → Enclave.AppState N V
  caller : ℕ → Caller
  /-- `serde_json::to_vec` -/
  write : EncryptedRequest → Bytes

/-- What has become of the calls, and what the enclave has run. -/
structure State where
  owners : SubOrgProjects
  admitted : ℕ → Bool
  /-- The grant that a call's request was forwarded with. -/
  granted : ℕ → Option WalletGrant
  /-- What a replica ran of the request that the gateway forwarded for a call. -/
  ran : List (ℕ × Enclave.Admitted)
  /-- What a replica ran of a body that anyone sent. -/
  reached : List (ℕ × Enclave.Admitted)

def State.start (now : ℕ) : State := ⟨.start now, fun _ => false, fun _ => none, [], []⟩

inductive Event where
  | owners (e : SubOrgEvent)
  | admitted (i : ℕ)
  | granted (i : ℕ)
  | ran (i k : ℕ)
  | reached (k : ℕ)

variable {N V}

/-- What a call is put through before its sub-organization is checked. -/
def Caller.Admits (gateway : Gateway.AppState) : Caller → Prop
  | .operations _ descriptor _ readings => gateway.admits descriptor readings = .ok ()
  | .enroll .. => True

/-- The claim of a ciphertext is new when it is admitted. The enclave reads its clock, and everything
else that it does not control, at will. -/
inductive System.Step (g : System N V) (w : State) : Event → State → Prop where
  | owners {e : SubOrgEvent} {s : SubOrgProjects}
      (step : SubOrgProjects.Step g.ownershipTtl (fun i => (g.caller i).subOrgCall) w.owners e s)
      (admitted : ∀ i, w.owners.check i ≠ s.check i → w.admitted i = true) :
      g.Step w (.owners e) { w with owners := s }
  | admitted {i : ℕ} (admits : (g.caller i).Admits g.gateway) :
      g.Step w (.admitted i) { w with admitted := Function.update w.admitted i true }
  | granted {i : ℕ} {project : ProjectId} {descriptor : WalletDescriptor} {request : EncryptedRequest}
      {readings : AppState.OperationsReadings} {subOrg : SubOrgReadings} {since : ℕ} {grant : WalletGrant}
      (caller : g.caller i = .operations project descriptor request readings)
      (admitted : w.admitted i = true) (fresh : w.granted i = none)
      (found : w.owners.check i = .found subOrg since)
      (grants : (g.gateway.granted project descriptor { readings with subOrg := subOrg }).result =
        .ok grant) :
      g.Step w (.granted i) { w with granted := Function.update w.granted i (some grant) }
  | ran {i k : ℕ} {project : ProjectId} {descriptor : WalletDescriptor} {request : EncryptedRequest}
      {readings : AppState.OperationsReadings} {grant : WalletGrant} {env : Enclave.Environment}
      {a : Enclave.Admitted} (caller : g.caller i = .operations project descriptor request readings)
      (granted : w.granted i = some grant)
      (ran : (Enclave.execute (g.enclave k) env
        (g.write { request with walletGrant := some grant })).ran = some a) :
      g.Step w (.ran i k) { w with ran := (i, a) :: w.ran }
  | reached {k : ℕ} {body : Bytes} {env : Enclave.Environment} {a : Enclave.Admitted}
      (ran : (Enclave.execute (g.enclave k) env body).ran = some a) :
      g.Step w (.reached k) { w with reached := (k, a) :: w.reached }

/-- What a replica runs for the wallet of a descriptor, and by whose leave. -/
structure Isolated (g : System N V) (w : State) (i : ℕ) (project : ProjectId)
    (descriptor : WalletDescriptor) (a : Enclave.Admitted) : Prop where
  /-- The gateway has verified the descriptor of the call. -/
  verified : ∃ now, g.gateway.provisioner.verify g.gateway.crypto descriptor now = .ok ()
  /-- It is the one inside the ciphertext, but for the signature. -/
  inner : a.request.walletDescriptor.signed = descriptor.signed
  wallet : a.wallet.organizationId = descriptor.turnkeyOrganizationId
  /-- Turnkey's answer that the check went by named the project, and was no older than it may be. -/
  named : ∃ subOrg since, w.owners.check i = .found subOrg since ∧
    (subOrgProject project subOrg).result = .ok project.text ∧
    SubOrgProjects.Known g.ownershipTtl w.owners descriptor.turnkeyOrganizationId project.text since
  client : ∃ client, descriptor.allowedClients = [client] ∧
    clientKeyId g.gateway.crypto.toCrypto client.clientPublicKey ∉
      g.gateway.walletGrants.revokedClientKeyIds

/-- Two descriptors are not a collision. -/
def Apart (sha256 : Bytes → ByteArrayOf 32) (d e : WalletDescriptor) : Prop :=
  ∀ x y, descriptorDigestInput d = some x → descriptorDigestInput e = some y → sha256 x = sha256 y → x = y

end System

section Runs

variable {N V : Type} {g : System N V} {w w' : State} {e : Event} {es : List Event} {i k : ℕ}
  {project : ProjectId} {descriptor : WalletDescriptor} {grant grant' : WalletGrant} {a : Enclave.Admitted}

/-- The gateway has granted the call, by what its check of the sub-organization found. -/
def GrantedTo (g : System N V) (w : State) (i : ℕ) (grant : WalletGrant) : Prop :=
  ∃ project descriptor request readings subOrg since,
    g.caller i = .operations project descriptor request readings ∧ w.admitted i = true ∧
      w.owners.check i = .found subOrg since ∧
      (g.gateway.granted project descriptor { readings with subOrg := subOrg }).result = .ok grant

/-- A replica has run the request that the gateway forwarded for the call. -/
def RanFor (g : System N V) (w : State) (i : ℕ) (a : Enclave.Admitted) : Prop :=
  ∃ project descriptor request readings grant k env,
    g.caller i = .operations project descriptor request readings ∧ w.granted i = some grant ∧
      (Enclave.execute (g.enclave k) env (g.write { request with walletGrant := some grant })).ran = some a

/-- What holds after every run. -/
structure Sound (g : System N V) (w : State) : Prop where
  owners : w.owners.Dated g.ownershipTtl fun i => (g.caller i).subOrgCall
  admitted : ∀ i, w.admitted i = true → (g.caller i).Admits g.gateway
  granted : ∀ i grant, w.granted i = some grant → GrantedTo g w i grant
  ran : ∀ i a, (i, a) ∈ w.ran → RanFor g w i a
  reached : ∀ k a, (k, a) ∈ w.reached → ∃ env body, (Enclave.execute (g.enclave k) env body).ran = some a

theorem sound_start (g : System N V) (now : ℕ) : Sound g (.start now) where
  owners := SubOrgProjects.dated_start now
  admitted _ h := by cases h
  granted _ _ h := by cases h
  ran _ _ h := by cases h
  reached _ _ h := by cases h

/-- Whom the gateway has admitted, what it found and what it granted stay. -/
structure Later (w w' : State) : Prop where
  admitted : ∀ i, w.admitted i = true → w'.admitted i = true
  found : ∀ i subOrg since, w.owners.check i = .found subOrg since → w'.owners.check i = .found subOrg since
  granted : ∀ i grant, w.granted i = some grant → w'.granted i = some grant

theorem later_of_step (h : g.Step w e w') : Later w w' := by
  cases h with
  | owners step => exact ⟨fun _ h => h, (SubOrgProjects.step_mono step).2, fun _ _ h => h⟩
  | @admitted i admits =>
    refine ⟨fun j hj => ?_, fun _ _ _ h => h, fun _ _ h => h⟩
    show Function.update w.admitted i true j = true
    by_cases hij : j = i
    · rw [hij, Function.update_self]
    · rwa [Function.update_of_ne hij]
  | @granted i _ _ _ _ _ _ grant caller admitted fresh =>
    refine ⟨fun _ h => h, fun _ _ _ h => h, fun j grant' hj => ?_⟩
    show Function.update w.granted i (some grant) j = some grant'
    have hij : j ≠ i := by
      rintro rfl
      rw [fresh] at hj
      cases hj
    rwa [Function.update_of_ne hij]
  | ran | reached => exact ⟨fun _ h => h, fun _ _ _ h => h, fun _ _ h => h⟩

theorem GrantedTo.later (h : GrantedTo g w i grant) (later : Later w w') : GrantedTo g w' i grant := by
  obtain ⟨project, descriptor, request, readings, subOrg, since, hcaller, hadmitted, hfound, hgrants⟩ := h
  exact ⟨project, descriptor, request, readings, subOrg, since, hcaller, later.admitted i hadmitted,
    later.found i subOrg since hfound, hgrants⟩

theorem RanFor.later (h : RanFor g w i a) (later : Later w w') : RanFor g w' i a := by
  obtain ⟨project, descriptor, request, readings, grant, k, env, hcaller, hgranted, hran⟩ := h
  exact ⟨project, descriptor, request, readings, grant, k, env, hcaller, later.granted i grant hgranted, hran⟩

theorem Sound.step (h : Sound g w) (hstep : g.Step w e w') : Sound g w' := by
  have later := later_of_step hstep
  have hgranted := fun i grant (hi : w.granted i = some grant) => (h.granted i grant hi).later later
  have hran := fun i a (hi : (i, a) ∈ w.ran) => (h.ran i a hi).later later
  -- Each invariant speaks of one field, and each step sets one field: for the caller of the step
  -- the new fact is its guard, for the others nothing has changed.
  cases hstep with
  | owners step => exact ⟨h.owners.step step, h.admitted, hgranted, hran, h.reached⟩
  | @admitted i admits =>
    refine ⟨h.owners, fun j hj => ?_, hgranted, hran, h.reached⟩
    by_cases hij : j = i
    · exact hij ▸ admits
    · exact h.admitted j ((Function.update_of_ne hij true w.admitted).symm.trans hj)
  | @granted i project descriptor request readings subOrg since grant caller admitted fresh found grants =>
    refine ⟨h.owners, h.admitted, fun j grant' hj => ?_, hran, h.reached⟩
    by_cases hij : j = i
    · subst hij
      obtain rfl := Option.some.inj ((Function.update_self j (some grant) w.granted).symm.trans hj)
      exact ⟨project, descriptor, request, readings, subOrg, since, caller, admitted, found, grants⟩
    · exact hgranted j grant' ((Function.update_of_ne hij (some grant) w.granted).symm.trans hj)
  | @ran i k project descriptor request readings grant env a caller granted ran =>
    refine ⟨h.owners, h.admitted, hgranted, fun j b hj => ?_, h.reached⟩
    obtain hj | hj := List.mem_cons.1 hj
    · obtain ⟨rfl, rfl⟩ := Prod.mk.inj hj
      exact ⟨project, descriptor, request, readings, grant, k, env, caller, granted, ran⟩
    · exact hran j b hj
  | @reached k body env a ran =>
    refine ⟨h.owners, h.admitted, hgranted, hran, fun j b hj => ?_⟩
    obtain hj | hj := List.mem_cons.1 hj
    · obtain ⟨rfl, rfl⟩ := Prod.mk.inj hj
      exact ⟨env, body, ran⟩
    · exact h.reached j b hj

theorem Sound.run (h : Sound g w) (run : Run g.Step w es w') : Sound g w' :=
  run.invariant h fun _ _ _ _ h hstep => h.step hstep

/-- Descriptors of one digest that are apart are alike but for their signatures. -/
theorem signed_eq_of_digest {sha256 : Bytes → ByteArrayOf 32} {d d' : WalletDescriptor}
    {digest : ByteArrayOf 32} (apart : Apart sha256 d d') (hd : descriptorDigest sha256 d = some digest)
    (hd' : descriptorDigest sha256 d' = some digest) : d.signed = d'.signed := by
  obtain ⟨x, hx, rfl⟩ := Option.map_eq_some_iff.1 hd
  obtain ⟨y, hy, heq⟩ := Option.map_eq_some_iff.1 hd'
  exact (descriptorDigestInput_eq_iff hx hy).1 (apart x y hx hy heq.symm)

/-- What ties the descriptor inside the ciphertext to the one that was granted. -/
theorem Sound.isolated (h : Sound g w) (hgranted : w.granted i = some grant) {env : Enclave.Environment}
    {body : Bytes} (authorized : Enclave.Authorized (g.enclave k) env body a)
    (bound : descriptorDigest g.gateway.crypto.sha256 a.request.walletDescriptor =
      some grant.descriptorDigest) :
    ∃ project descriptor request readings, g.caller i = .operations project descriptor request readings ∧
      (Apart g.gateway.crypto.sha256 a.request.walletDescriptor descriptor →
        Isolated g w i project descriptor a) := by
  obtain ⟨project, descriptor, request, readings, subOrg, since, hcaller, hadmitted, hfound, hgrants⟩ :=
    h.granted i grant hgranted
  refine ⟨project, descriptor, request, readings, hcaller, fun apart => ?_⟩
  have hadmits := h.admitted i hadmitted
  rw [hcaller] at hadmits
  -- The grant was issued after the check of the sub-organization, for a descriptor with the same
  -- digest as the enclave's.
  rw [AppState.granted, Effectful.result_bind, bind_eq_ok] at hgrants
  obtain ⟨_, hpassed, hgrants⟩ := hgrants
  rw [Effectful.result_bind, bind_eq_ok] at hgrants
  obtain ⟨now, -, hissue⟩ := hgrants
  have hissued := WalletGrants.issue_ok hissue
  have hsigned := signed_eq_of_digest apart bound hissued.digest
  rw [verifySubOrgProject, Effectful.result_bind, bind_eq_ok] at hpassed
  obtain ⟨name, hname, hproject⟩ := hpassed
  obtain rfl : name = project.text := not_ne_iff.1 (refuse_eq_ok.1 hproject)
  have hcall : (g.caller i).subOrgCall = ⟨project, descriptor.turnkeyOrganizationId⟩ := by rw [hcaller]; rfl
  -- Turnkey named that sub-organization after the project of the call.
  have hknown := h.owners.found i subOrg since project.text hfound (hcall ▸ hname)
  rw [hcall] at hknown
  refine ⟨?_, hsigned, ?_, ⟨subOrg, since, hfound, hname, hknown⟩, ?_⟩
  · obtain ⟨now, -, hverified⟩ := bind_eq_ok.1 hadmits
    obtain ⟨_, hverified, -⟩ := bind_eq_ok.1 hverified
    exact ⟨now, hverified⟩
  · rw [authorized.wallet.1]
    show a.request.walletDescriptor.signed.turnkeyOrganizationId = descriptor.signed.turnkeyOrganizationId
    rw [hsigned]
  · obtain ⟨client, hclient, hid⟩ := hissued.client
    exact ⟨client, hclient, hid ▸ hissued.unrevoked⟩

/-- The grant that an executed body bears is one that the gateway signed, by the digest that its signature
verifies for. -/
def Unforged (g : System N V) (w : State) (k : ℕ) (a : Enclave.Admitted) : Prop :=
  ∀ grant digest, a.encrypted.walletGrant = some grant →
    walletGrantDigest g.gateway.crypto.sha256 grant = some digest →
      (g.enclave k).runtime.crypto.Verifies (g.enclave k).runtime.grantPublic.val digest grant.signature →
        ∃ i granted, w.granted i = some granted ∧
          walletGrantDigest g.gateway.crypto.sha256 granted = some digest

/-- Two grants are not a collision. -/
def GrantsApart (sha256 : Bytes → ByteArrayOf 32) (grant grant' : WalletGrant) : Prop :=
  ∀ x y, walletGrantDigestInput grant = some x → walletGrantDigestInput grant' = some y →
    sha256 x = sha256 y → x = y

theorem descriptorDigest_eq_of_digest {sha256 : Bytes → ByteArrayOf 32} {digest : ByteArrayOf 32}
    (apart : GrantsApart sha256 grant grant') (hg : walletGrantDigest sha256 grant = some digest)
    (hg' : walletGrantDigest sha256 grant' = some digest) :
    grant.descriptorDigest = grant'.descriptorDigest := by
  obtain ⟨x, hx, rfl⟩ := Option.map_eq_some_iff.1 hg
  obtain ⟨y, hy, heq⟩ := Option.map_eq_some_iff.1 hg'
  have hsigned := (walletGrantDigestInput_eq_iff hx hy).1 (apart x y hx hy heq.symm)
  show grant.signed.descriptorDigest = grant'.signed.descriptorDigest
  rw [hsigned]

/-- Whatever anyone sends, and whatever the gateway is asked meanwhile: what a replica runs of a request
that the gateway forwarded for a call, and what it runs of any body whose grant is not forged, is for the
wallet of a descriptor whose sub-organization Turnkey named after the project of the call. -/
theorem projects_isolated (g : System N V)
    (same : ∀ k, (g.enclave k).runtime.crypto = g.gateway.crypto.toCrypto)
    (reads : ∀ request, ∃ t, fromUtf8 (g.write request) = some t ∧ parseEncryptedRequest t = some request)
    {now : ℕ} (run : Run g.Step (.start now) es w) :
    (∀ i a, (i, a) ∈ w.ran → ∃ project descriptor request readings,
      g.caller i = .operations project descriptor request readings ∧
        (Apart g.gateway.crypto.sha256 a.request.walletDescriptor descriptor →
          Isolated g w i project descriptor a)) ∧
    ∀ k a, (k, a) ∈ w.reached → Unforged g w k a → ∃ i project descriptor request readings grant grant',
      g.caller i = .operations project descriptor request readings ∧ w.granted i = some grant ∧
        a.encrypted.walletGrant = some grant' ∧
        (GrantsApart g.gateway.crypto.sha256 grant' grant →
          Apart g.gateway.crypto.sha256 a.request.walletDescriptor descriptor →
            Isolated g w i project descriptor a) := by
  have hsound := (sound_start g now).run run
  have hauthorized : ∀ k env body a, (Enclave.execute (g.enclave k) env body).ran = some a →
      Enclave.Authorized (g.enclave k) env body a := fun k env body a hran =>
    ((Enclave.execute_authorized (g.enclave k) env body).1 a).1 hran
  refine ⟨fun i a hmem => ?_, fun k a hmem unforged => ?_⟩
  -- What the gateway forwarded bears the gateway's own grant.
  · obtain ⟨-, -, request, -, grant, k, env, -, hgranted, hran⟩ := hsound.ran i a hmem
    have hexecuted := hauthorized k env _ a hran
    obtain ⟨t, ht, hparse⟩ := hexecuted.text
    obtain ⟨t', ht', hparse'⟩ := reads { request with walletGrant := some grant }
    obtain rfl := Option.some.inj (ht.symm.trans ht')
    have hencrypted := Option.some.inj (hparse.symm.trans hparse')
    obtain ⟨grant', now, hgrant, -, hforce⟩ := hexecuted.granted
    rw [hencrypted] at hgrant
    obtain rfl := Option.some.inj hgrant
    exact hsound.isolated hgranted hexecuted (same k ▸ hforce.descriptor)
  -- Any other body bears a grant whose signature the gateway made, for some call.
  · obtain ⟨env, body, hran⟩ := hsound.reached k a hmem
    have hexecuted := hauthorized k env body a hran
    obtain ⟨grant', now, hgrant', -, hforce⟩ := hexecuted.granted
    obtain ⟨digest, hdigest', hverified⟩ := hforce.signed
    rw [same k] at hdigest'
    obtain ⟨i, grant, hgranted, hdigest⟩ := unforged grant' digest hgrant' hdigest' hverified
    obtain ⟨project, descriptor, request, readings, subOrg, since, hcaller, -⟩ :=
      hsound.granted i grant hgranted
    refine ⟨i, project, descriptor, request, readings, grant, grant', hcaller, hgranted, hgrant',
      fun grantsApart apart => ?_⟩
    have hbound := hforce.descriptor
    rw [same k, descriptorDigest_eq_of_digest grantsApart hdigest' hdigest] at hbound
    obtain ⟨project', descriptor', request', readings', hcaller', hisolated⟩ :=
      hsound.isolated hgranted hexecuted hbound
    obtain ⟨rfl, rfl, rfl, rfl⟩ := Caller.operations.inj (hcaller.symm.trans hcaller')
    exact hisolated apart

end Runs

section Sample

/-- A request within the reader's limits has a digest. -/
theorem exists_requestDigest {sha256 : Bytes → ByteArrayOf 32} {r : OperationRequest}
    (h : r.operation.WithinReader) : ∃ digest, requestDigest sha256 r = some digest := by
  have hmembers : FloatFree (.obj (requestMembers r)) :=
    ((@OperationRequest.fits_iff r.unsigned).2 h).integral
  have hauthorization : FloatFree (.obj (authorizationMembers r)) :=
    (ClientAuthorization.fits 0 r.unsigned.authorization).integral
  obtain ⟨-, -, hvalues⟩ := Json.all_obj.1 hmembers
  obtain ⟨-, -, hclient⟩ := Json.all_obj.1 hauthorization
  have hwithout : FloatFree (.obj (Serde.Variants.without "signature" (authorizationMembers r))) :=
    Json.all_obj.2 ⟨trivial, fun _ _ => trivial, fun m hm => hclient m (List.mem_of_mem_filter hm)⟩
  have hreplaced : FloatFree (.obj (replaceMember "authorization"
      (.obj (Serde.Variants.without "signature" (authorizationMembers r))) (requestMembers r))) := by
    refine Json.all_obj.2 ⟨trivial, fun _ _ => trivial, fun m hm => ?_⟩
    obtain ⟨m', hm', rfl⟩ := List.mem_map.1 hm
    split_ifs
    · exact hwithout
    · exact hvalues m' hm'
  obtain ⟨t, ht⟩ := exists_canonicalize_iff.2 hreplaced
  exact ⟨_, congrArg (Option.map sha256)
    ((requestDigestInput_eq r).trans (congrArg (Option.map _) ht))⟩

/-- The descriptor of the sample enrollment. -/
def enrolled : WalletDescriptor where
  version := API_VERSION
  securityDomainId := samplePolicy.securityDomainId
  network := .devnet
  turnkeyOrganizationId := sampleInput.organizationId
  turnkeyWalletId := sampleInput.turnkeyWalletId
  address := sampleInput.solanaAddress
  allowedClients := [⟨lenientKey.val, OPERATIONS⟩]
  expiresAtMs := saturatingAdd 0 1
  provisioningSignature := List.replicate 64 0

theorem sign_enrolled : sampleState.provisioner.sign lenientCrypto sampleInput = .ok enrolled := by
  obtain ⟨digest, hdigest⟩ := @exists_descriptorDigest lenientCrypto.sha256 enrolled.signed
  simp only [Provisioner.sign, bind_eq_ok, ofOption_eq_ok, pure_eq_ok]
  exact ⟨digest, hdigest, _, rfl, rfl⟩

/-- A bootstrap for the enrolled wallet. -/
def enrolledRequest : OperationRequest where
  version := API_VERSION
  requestId := zeros
  issuedAtMs := 0
  expiresAtMs := 0
  targetReleaseId := samplePolicy.releaseId
  targetManifestDigest := zeros
  targetExecutableDigest := zeros
  quorumKeyId := samplePolicy.quorumKeyId
  quorumKeyEpoch := 0
  walletDescriptor := enrolled
  sealedSeed := none
  clientResponsePublicKey := lenientKey.val
  operation := .bootstrap
  authorization := ⟨clientKeyId lenientCrypto.toCrypto lenientKey.val, List.replicate 64 0⟩

def sampleReadings : AppState.OperationsReadings := { unreadable with grantClock := some 0 }

/-- A text in which a request is read back. -/
def writeCanonical (request : EncryptedRequest) : Bytes :=
  utf8 ((jcsSerialize EncryptedRequest.codec request).getD "")

theorem reads_writeCanonical (request : EncryptedRequest) :
    ∃ t, fromUtf8 (writeCanonical request) = some t ∧ parseEncryptedRequest t = some request := by
  obtain ⟨t, ht, -, hparse⟩ := roundTrips_of_norm_eq EncryptedRequest.norm_eq (EncryptedRequest.fits 125 request)
  refine ⟨t, ?_, hparse⟩
  rw [writeCanonical, ht]
  exact fromUtf8_utf8 t

/-- One request is made. -/
def sampleSystem (request : EncryptedRequest) : System Unit Unit where
  gateway := sampleState
  ownershipTtl := 1
  enclave _ := sampleEnclave
  caller _ := .operations (.sample 0) enrolled request sampleReadings
  write := writeCanonical

theorem checks_enrolled : DescriptorChecks sampleEnclave enrolled lenientKey.val :=
  (provisioned_of_sign sign_enrolled).checks sample_alike (validated_of_validate validate_sample)

theorem admits_enrolled : sampleState.admits enrolled sampleReadings = .ok () := by
  obtain ⟨digest, hdigest⟩ := @exists_descriptorDigest lenientCrypto.sha256 enrolled
  have hverified : verifyP256Prehash lenientCrypto.toCrypto lenientKey.val digest
      (List.replicate 64 0) = .ok () := rfl
  have hverify : sampleState.provisioner.verify lenientCrypto enrolled 0 = .ok () := by
    simp only [Provisioner.verify, bind_eq_ok, refuse_eq_ok, ofOption_eq_ok, expect_eq_ok]
    exact ⟨(), by decide, digest, hdigest, (), hverified, by decide⟩
  show sampleState.provisioner.verify lenientCrypto enrolled 0 >>= _ = _
  rw [hverify]
  decide

/-- The clock stands still. -/
def still : Enclave.Environment := ⟨fun _ => some 0, fun _ _ _ => .error .unavailable, fun _ => false, []⟩

/-- The request with this text. -/
def sealedRequest (t : String) : EncryptedRequest where
  version := API_VERSION
  quorumKeyId := samplePolicy.quorumKeyId
  quorumKeyEpoch := 0
  ciphertext := utf8 t
  walletGrant := none

/-- A replica runs what bears a grant, while the clock suits the request, the descriptor and the grant. -/
theorem ran_granted {p : Provisioner} {w : WalletGrants} (alike : Alike lenientCrypto p w sampleEnclave)
    {r : OperationRequest} (checks : DescriptorChecks sampleEnclave r.walletDescriptor lenientKey.val)
    {t : String}
    (hcanonical : isRfc8785 t = true) (hparse : parseOperationRequest t = some r) {env : Enclave.Environment}
    {now : UInt64} (hclock : ∀ reading, env.clock reading = some now)
    (hrequest : RequestChecks sampleEnclave now r lenientKey.val)
    (hcurrent : now.toNat ≤ r.walletDescriptor.expiresAtMs.toNat + MAX_CLOCK_SKEW_MS.toNat)
    (hresponse : r.clientResponsePublicKey = lenientKey.val) {project : ProjectId} {issuedAt : UInt64}
    {grant : WalletGrant} (hissue : w.issue lenientCrypto project r.walletDescriptor issuedAt = .ok grant)
    (hforce : grant.issuedAtMs.toNat ≤ now.toNat + 60000 ∧ now.toNat ≤ grant.expiresAtMs.toNat + 60000) :
    ∃ a, (Enclave.execute sampleEnclave env (writeCanonical
      { sealedRequest t with walletGrant := some grant })).ran = some a ∧ a.request = r := by
  have hgranted := (grant_in_force alike checks.client hissue).2 hforce
  obtain ⟨digest, hdigest, -⟩ := hrequest.signed
  obtain ⟨key, hkey⟩ := Option.isSome_iff_exists.1 checks.address
  obtain ⟨clientKey, hclientKey⟩ := checks.clientKey.2
  rw [hrequest.client.symm] at hgranted
  refine ⟨⟨{ sealedRequest t with walletGrant := some grant }, r,
    ⟨r.walletDescriptor.turnkeyOrganizationId, r.walletDescriptor.address, key⟩, digest⟩, ?_, rfl⟩
  -- What the enclave runs is what is authorized, so it is enough to name every check.
  refine ((Enclave.execute_authorized sampleEnclave env _).1 _).2
    { text := reads_writeCanonical _
      version := rfl
      quorumKey := rfl
      quorumKeyEpoch := rfl
      plaintext := ⟨utf8 t, t, rfl, fromUtf8_utf8 t, hcanonical, hparse⟩
      signed := ⟨now, hclock 0, (signed_iff checks).2 hrequest, hcurrent⟩
      wallet := ⟨rfl, rfl, hkey⟩
      granted := ⟨grant, now, rfl, hclock 1, verifyWalletGrant_eq_ok.1 hgranted⟩
      requestHash := hdigest
      responseKey := ⟨clientKey, hresponse ▸ hclientKey⟩ }

/-- The bootstrap is run at the instant that it is dated. -/
theorem ran_enrolled {t : String} (hcanonical : isRfc8785 t = true)
    (hparse : parseOperationRequest t = some enrolledRequest) {grant : WalletGrant}
    (hissue : sampleState.walletGrants.issue lenientCrypto (.sample 0) enrolled 0 = .ok grant) :
    ∃ a, (Enclave.execute sampleEnclave still (writeCanonical
      { sealedRequest t with walletGrant := some grant })).ran = some a ∧ a.request = enrolledRequest := by
  have hwithin : enrolledRequest.operation.WithinReader := trivial
  obtain ⟨digest, hdigest⟩ := @exists_requestDigest lenientCrypto.sha256 enrolledRequest hwithin
  have hissuedAt : grant.issuedAtMs.toNat ≤ (0 : UInt64).toNat + 60000 := by
    rw [(WalletGrants.issue_ok hissue).issuedAt]
    decide
  have hrequest : RequestChecks sampleEnclave 0 enrolledRequest lenientKey.val :=
    { version := rfl
      release := rfl
      manifest := rfl
      executable := rfl
      quorumKey := rfl
      quorumKeyEpoch := rfl
      supported := by decide
      seed := by decide
      unexpired := by decide
      issued := by decide
      ordered := by decide
      lifetime := by decide
      client := rfl
      signed := ⟨digest, hdigest, rfl⟩ }
  exact ran_granted sample_alike checks_enrolled hcanonical hparse (fun _ => rfl) hrequest (Nat.zero_le _) rfl
    hissue ⟨hissuedAt, Nat.zero_le _⟩

/-- The first caller has been granted, and has not been before. -/
theorem granted_enrolled (request : EncryptedRequest) {grant : WalletGrant}
    (hissue : sampleState.walletGrants.issue lenientCrypto (.sample 0) enrolled 0 = .ok grant) :
    ∃ w, Run (sampleSystem request).Step (.start 0)
      [.admitted 0, .owners (.asked 0), .owners (.answered 0), .granted 0] w ∧ w.granted 0 = some grant := by
  let subOrg : SubOrgReadings := ⟨none, ⟨true, true⟩, .ok (ProjectId.sample 0).text⟩
  have hgrants : (sampleState.granted (.sample 0) enrolled { sampleReadings with subOrg := subOrg }).result =
      .ok grant := granted_ok.2 ⟨.inr ⟨rfl, rfl, rfl⟩, 0, rfl, hissue⟩
  let w₀ := State.start 0
  let w₁ : State := { w₀ with admitted := Function.update w₀.admitted 0 true }
  let w₂ : State := { w₁ with owners := w₁.owners.set 0 (.asking ⟨true, true⟩) }
  let w₃ : State := { w₂ with owners := (w₂.owners.replied enrolled.turnkeyOrganizationId
    (.ok (ProjectId.sample 0).text)).set 0 (.found subOrg 0) }
  -- Only the first caller moves, and it has been admitted.
  have hadmitted : ∀ (s : SubOrgProjects) (check : Check) (i : ℕ), s.check i ≠ (s.set 0 check).check i →
      w₁.admitted i = true := by
    intro s check i hi
    by_cases h : i = 0
    · subst h
      rfl
    · simp [h] at hi
  have h₁ : (sampleSystem request).Step w₀ (.admitted 0) w₁ := .admitted admits_enrolled
  have h₂ : (sampleSystem request).Step w₁ (.owners (.asked 0)) w₂ :=
    .owners (.asked rfl rfl rfl) (hadmitted _ _)
  have h₃ : (sampleSystem request).Step w₂ (.owners (.answered 0)) w₃ := by
    refine .owners (.answered (.ok (ProjectId.sample 0).text) rfl) fun i hi => ?_
    rw [← SubOrgProjects.replied_check w₂.owners enrolled.turnkeyOrganizationId
      (.ok (ProjectId.sample 0).text)] at hi
    exact hadmitted _ _ i hi
  have h₄ : (sampleSystem request).Step w₃ (.granted 0)
      { w₃ with granted := Function.update w₃.granted 0 (some grant) } :=
    .granted rfl rfl rfl rfl hgrants
  refine ⟨_, .cons h₁ (.cons h₂ (.cons h₃ (.single h₄))), ?_⟩
  show Function.update w₃.granted 0 (some grant) 0 = some grant
  exact Function.update_self ..

theorem projects_isolated_sample : ∃ (request : EncryptedRequest) (es : List Event) (w : State)
    (a : Enclave.Admitted), Run (sampleSystem request).Step (.start 0) es w ∧ (0, a) ∈ w.ran ∧
      Isolated (sampleSystem request) w 0 (.sample 0) enrolled a := by
  have hwithin : enrolledRequest.operation.WithinReader := trivial
  obtain ⟨t, -, hcanonical, hparse⟩ :=
    jcsSerialize_roundTrip OperationRequest.exact (OperationRequest.fits_iff.2 hwithin)
  rw [OperationRequest.norm_eq] at hparse
  obtain ⟨grant, hissue⟩ := WalletGrants.exists_issue (c := lenientCrypto)
    (g := sampleState.walletGrants) (.sample 0) 0 checks_enrolled.client List.not_mem_nil fun _ => ⟨_, rfl⟩
  -- The gateway forwards the bootstrap with its grant, and a replica runs it.
  obtain ⟨a, hran, hrequest⟩ := ran_enrolled hcanonical hparse hissue
  obtain ⟨w, hrun, hgranted⟩ := granted_enrolled (sealedRequest t) hissue
  have hcaller : (sampleSystem (sealedRequest t)).caller 0 =
      .operations (.sample 0) enrolled (sealedRequest t) sampleReadings := rfl
  have henclave : (sampleSystem (sealedRequest t)).enclave 0 = sampleEnclave := rfl
  have hwrite : (sampleSystem (sealedRequest t)).write = writeCanonical := rfl
  rw [← henclave, ← hwrite] at hran
  have hran : (sampleSystem (sealedRequest t)).Step w (.ran 0 0) { w with ran := (0, a) :: w.ran } :=
    .ran hcaller hgranted hran
  have hrun := hrun.append (.single hran)
  obtain ⟨project, descriptor, request, readings, hcaller, hisolated⟩ :=
    (projects_isolated (sampleSystem (sealedRequest t)) (fun _ => rfl) reads_writeCanonical hrun).1 0 a
      List.mem_cons_self
  obtain ⟨rfl, rfl, rfl, rfl⟩ := Caller.operations.inj hcaller
  refine ⟨sealedRequest t, _, _, a, hrun, List.mem_cons_self, hisolated fun x y hx hy _ => ?_⟩
  rw [hrequest] at hx
  exact Option.some.inj (hx.symm.trans hy)

end Sample

end ZolanaTvc.EndToEnd.Isolation
