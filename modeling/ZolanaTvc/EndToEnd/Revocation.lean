import ZolanaTvc.Control.Run
import ZolanaTvc.EndToEnd.Isolation

/-!
# Revocation

A client key is revoked by signing no more grants for it. What was signed before is still sent, in whatever
request, to whatever replica and as often as anyone likes.

## Main results

* `Revocation.revocation_bound`: an hour and the clock skew after the last grant for a client key, no request
  of that key is run.
-/

namespace ZolanaTvc.EndToEnd.Revocation

open Protocol Gateway Except

section System

variable {N V : Type}

/-- The grants that were signed, and what was run, each with what the clock read when its grant was checked. -/
structure State where
  signed : List WalletGrant
  ran : List (Enclave.Admitted × UInt64)

def State.start : State := ⟨[], []⟩

inductive Event where
  | signed (grant : WalletGrant)
  | called (k : ℕ) (env : Enclave.Environment) (body : Bytes)

/-- The body bears a grant with a signature of the grant key. -/
def Bears (state : Enclave.AppState N V) (body : Bytes) (grant : WalletGrant) : Prop :=
  (∃ t e, fromUtf8 body = some t ∧ parseEncryptedRequest t = some e ∧ e.walletGrant = some grant) ∧
    ∃ digest, walletGrantDigest state.runtime.crypto.sha256 grant = some digest ∧
      state.runtime.crypto.Verifies state.runtime.grantPublic.val digest grant.signature

/-- A signature of the grant key that the body bears is over what was signed. -/
def Unforged (state : Enclave.AppState N V) (signed : List WalletGrant) (body : Bytes) : Prop :=
  ∀ grant, Bears state body grant → ∃ g ∈ signed, walletGrantDigestInput g = walletGrantDigestInput grant

/-- Whoever holds the grant key signs any grant, and anyone calls any replica with any body, in any order and
again and again. -/
inductive Step (replica : ℕ → Enclave.AppState N V) (w : State) : Event → State → Prop where
  | signed (grant : WalletGrant) : Step replica w (.signed grant) { w with signed := grant :: w.signed }
  | refused {k : ℕ} {env : Enclave.Environment} {body : Bytes}
      (refused : (Enclave.execute (replica k) env body).ran = none) : Step replica w (.called k env body) w
  | ran {k : ℕ} {env : Enclave.Environment} {body : Bytes} {a : Enclave.Admitted} {now : UInt64}
      (unforged : Unforged (replica k) w.signed body)
      (ran : (Enclave.execute (replica k) env body).ran = some a) (clock : env.clock 1 = some now) :
      Step replica w (.called k env body) { w with ran := (a, now) :: w.ran }

end System

section Runs

variable {N V : Type} {replica : ℕ → Enclave.AppState N V} {w w' : State} {e : Event} {es : List Event}

/-- A grant that was signed for the client key of a request was in force. -/
def Covered (signed : List WalletGrant) (a : Enclave.Admitted) (now : UInt64) : Prop :=
  ∃ g ∈ signed, g.clientKeyId = a.request.authorization.clientKeyId ∧
    now.toNat ≤ g.issuedAtMs.toNat + 3600000 + 60000

theorem Covered.mono {signed signed' : List WalletGrant} {a : Enclave.Admitted} {now : UInt64}
    (h : Covered signed a now) (later : ∀ g ∈ signed, g ∈ signed') : Covered signed' a now := by
  obtain ⟨g, hg, hclient, hnow⟩ := h
  exact ⟨g, later g hg, hclient, hnow⟩

theorem hour_toNat : MAX_WALLET_GRANT_LIFETIME_MS.toNat = 3600000 := by decide

theorem skew_toNat : MAX_CLOCK_SKEW_MS.toNat = 60000 := by decide

/-- What runs is covered by a grant that was signed, however the body came by it. -/
theorem covered_of_ran {state : Enclave.AppState N V} {env : Enclave.Environment} {body : Bytes}
    {a : Enclave.Admitted} {now : UInt64} {signed : List WalletGrant} (unforged : Unforged state signed body)
    (hran : (Enclave.execute state env body).ran = some a) (hclock : env.clock 1 = some now) :
    Covered signed a now := by
  have hauthorized := ((Enclave.execute_authorized state env body).1 a).1 hran
  obtain ⟨t, ht, hparse⟩ := hauthorized.text
  obtain ⟨grant, now', hgrant, hnow', hforce⟩ := hauthorized.granted
  obtain rfl := Option.some.inj (hclock.symm.trans hnow')
  obtain ⟨g, hg, hinput⟩ := unforged grant ⟨⟨t, a.encrypted, ht, hparse, hgrant⟩, hforce.signed⟩
  -- What is signed tells everything in a grant but its signature.
  obtain ⟨digest, hdigest, -⟩ := hforce.signed
  obtain ⟨x, hx, -⟩ := Option.map_eq_some_iff.1 hdigest
  have hsame : g.signed = grant.signed := (walletGrantDigestInput_eq_iff (hinput.trans hx) hx).1 rfl
  have hclient : g.signed.clientKeyId = grant.signed.clientKeyId := by rw [hsame]
  have hissued : g.signed.issuedAtMs = grant.signed.issuedAtMs := by rw [hsame]
  have hlifetime := hforce.lifetime
  have hunexpired := hforce.unexpired
  rw [hour_toNat] at hlifetime
  rw [skew_toNat] at hunexpired
  refine ⟨g, hg, Eq.trans hclient hforce.client, ?_⟩
  have hissuedAt : g.issuedAtMs = grant.issuedAtMs := hissued
  rw [hissuedAt]
  omega

theorem covered_step (h : ∀ x ∈ w.ran, Covered w.signed x.1 x.2) (hstep : Step replica w e w') :
    ∀ x ∈ w'.ran, Covered w'.signed x.1 x.2 := by
  cases hstep with
  | signed grant => exact fun x hx => (h x hx).mono fun _ => List.mem_cons_of_mem grant
  | refused => exact h
  | ran unforged ran clock =>
    intro x hx
    obtain rfl | hx := List.mem_cons.1 hx
    · exact covered_of_ran unforged ran clock
    · exact h x hx

theorem covered_run (run : Run (Step replica) .start es w) : ∀ x ∈ w.ran, Covered w.signed x.1 x.2 :=
  run.invariant (fun _ hx => by cases hx) fun _ _ _ _ h hstep => covered_step h hstep

/-- The times of a grant accepted are those of integers. And in every run in which no grant was signed for a
client key after `T`, no request of that key was run when the clock read more than an hour and the clock skew
after `T`, whatever was sent, in whatever order. -/
theorem revocation_bound :
    (∀ (c : Crypto) (grant : WalletGrant) (grantPublic : Bytes) (d : WalletDescriptor)
      (client : String) (now : UInt64),
      verifyWalletGrant c grant grantPublic d client now = .ok () →
        grant.issuedAtMs.toNat ≤ grant.expiresAtMs.toNat ∧
        grant.expiresAtMs.toNat ≤ grant.issuedAtMs.toNat + 3600000 ∧
        grant.issuedAtMs.toNat ≤ now.toNat + 60000 ∧
        now.toNat ≤ grant.expiresAtMs.toNat + 60000) ∧
    ∀ (replica : ℕ → Enclave.AppState N V) (es : List Event) (w : State), Run (Step replica) .start es w →
      ∀ (client : String) (T : ℕ), (∀ g ∈ w.signed, g.clientKeyId = client → g.issuedAtMs.toNat ≤ T) →
        ∀ a now, (a, now) ∈ w.ran → a.request.authorization.clientKeyId = client →
          now.toNat ≤ T + 3600000 + 60000 := by
  refine ⟨fun c grant grantPublic d client now h => ?_,
    fun replica es w run client T hissued a now hran hclient => ?_⟩
  · have hforce := verifyWalletGrant_eq_ok.1 h
    exact ⟨hforce.ordered, hour_toNat ▸ hforce.lifetime, skew_toNat ▸ hforce.issued,
      skew_toNat ▸ hforce.unexpired⟩
  -- Whatever ran bore a grant that was signed, and that grant's own window covers the reading of
  -- the clock.
  · have hcovered : Covered w.signed a now := covered_run run (a, now) hran
    obtain ⟨g, hg, hid, hnow⟩ := hcovered
    have hT := hissued g hg (hid.trans hclient)
    omega

end Runs

section Sample

open Isolation

theorem lifetime_hour : (0 : UInt64) < 3600000 ∧ 3600000 ≤ MAX_WALLET_GRANT_LIFETIME_MS := by decide

/-- A gateway whose grants last as long as they may, and its descriptors for two hours. -/
def hourGrants : WalletGrants := ⟨zeros, 3600000, [], lifetime_hour⟩

def hourProvisioner : Provisioner := { sampleState.provisioner with descriptorTtlMs := 7200000 }

theorem hour_alike : Alike lenientCrypto hourProvisioner hourGrants sampleEnclave :=
  { sample_alike with granting := signs_lenient _ }

/-- The request for a bootstrap, dated a minute before an instant. -/
def datedRequest (d : WalletDescriptor) (issuedAtMs : UInt64) : OperationRequest :=
  { enrolledRequest with
    walletDescriptor := d
    issuedAtMs := issuedAtMs
    expiresAtMs := issuedAtMs + 60000 }

/-- The clock of a replica stands at an instant. -/
def standing (now : UInt64) : Enclave.Environment :=
  ⟨fun _ => some now, fun _ _ _ => .error .unavailable, fun _ => false, []⟩

theorem exists_hour : ∃ d grant, DescriptorChecks sampleEnclave d lenientKey.val ∧ d.expiresAtMs = 7200000 ∧
    hourGrants.issue lenientCrypto (.sample 0) d 0 = .ok grant := by
  obtain ⟨d, hsign⟩ : ∃ d, hourProvisioner.sign lenientCrypto sampleInput = .ok d := by
    simp only [Provisioner.sign, bind_eq_ok, ofOption_eq_ok, pure_eq_ok]
    obtain ⟨digest, hdigest⟩ := @exists_descriptorDigest lenientCrypto.sha256 _
    exact ⟨_, digest, hdigest, _, rfl, rfl⟩
  have hprovisioned := provisioned_of_sign hsign
  have hchecks := hprovisioned.checks hour_alike (validated_of_validate validate_sample)
  obtain ⟨grant, hissue⟩ := WalletGrants.exists_issue (c := lenientCrypto) (g := hourGrants) (.sample 0) 0
    hchecks.client List.not_mem_nil fun _ => ⟨_, rfl⟩
  exact ⟨d, grant, hchecks, hprovisioned.expires.trans (by decide), hissue⟩

/-- What bears a grant that was signed is not forged. -/
theorem unforged_writeCanonical {state : Enclave.AppState Unit Unit} {signed : List WalletGrant}
    {e : EncryptedRequest} {grant : WalletGrant} (hgrant : e.walletGrant = some grant)
    (hsigned : grant ∈ signed) : Unforged state signed (writeCanonical e) := by
  rintro grant' ⟨⟨t, e', ht, hparse, hgrant'⟩, -⟩
  obtain ⟨t', ht', hparse'⟩ := reads_writeCanonical e
  obtain rfl := Option.some.inj (ht.symm.trans ht')
  obtain rfl := Option.some.inj (hparse.symm.trans hparse')
  obtain rfl := Option.some.inj (hgrant.symm.trans hgrant')
  exact ⟨grant, hsigned, rfl⟩

/-- The request of an instant is run then, while its descriptor and the grant last. -/
theorem ran_dated {d : WalletDescriptor} {grant : WalletGrant}
    (checks : DescriptorChecks sampleEnclave d lenientKey.val)
    (hissue : hourGrants.issue lenientCrypto (.sample 0) d 0 = .ok grant) (now : UInt64)
    (hdescriptor : now ≤ d.expiresAtMs) (hgrant : now.toNat ≤ 3660000) :
    ∃ e a, e.walletGrant = some grant ∧
      (Enclave.execute sampleEnclave (standing now) (writeCanonical e)).ran = some a ∧
      a.request = datedRequest d now := by
  have hwithin : (datedRequest d now).operation.WithinReader := trivial
  obtain ⟨t, -, hcanonical, hparse⟩ :=
    jcsSerialize_roundTrip OperationRequest.exact (OperationRequest.fits_iff.2 hwithin)
  rw [OperationRequest.norm_eq] at hparse
  obtain ⟨digest, hdigest⟩ := @exists_requestDigest lenientCrypto.sha256 (datedRequest d now) hwithin
  have hissued := WalletGrants.issue_ok hissue
  have hlater : (now + 60000).toNat = now.toNat + 60000 := by
    rw [UInt64.toNat_add]
    exact Nat.mod_eq_of_lt (by show now.toNat + 60000 < 2 ^ 64; omega)
  have hsupported : OperationKind.bootstrap ∈ sampleEnclave.info.supportedOperations := by decide
  -- The request is dated at the instant at which it runs, so only the grant ages.
  have hrequest : RequestChecks sampleEnclave now (datedRequest d now) lenientKey.val :=
    { version := rfl
      release := rfl
      manifest := rfl
      executable := rfl
      quorumKey := rfl
      quorumKeyEpoch := rfl
      supported := hsupported
      seed := ⟨fun h => (Bool.false_ne_true h).elim, fun h => (h rfl).elim⟩
      unexpired := by
        show now.toNat ≤ (now + 60000).toNat
        omega
      issued := Nat.le_add_right _ _
      ordered := by
        show now.toNat ≤ (now + 60000).toNat
        omega
      lifetime := by
        show (now + 60000).toNat ≤ now.toNat + 300000
        omega
      client := rfl
      signed := ⟨digest, hdigest, rfl⟩ }
  have hexpires : grant.expiresAtMs = 3600000 := hissued.expiresAt.trans (by decide)
  have hexpires' : grant.expiresAtMs.toNat = 3600000 := by rw [hexpires]; rfl
  have hissuedAt : grant.issuedAtMs.toNat = 0 := by rw [hissued.issuedAt]; rfl
  have hcurrent := UInt64.le_iff_toNat_le.1 hdescriptor
  have hclock : ∀ reading, (standing now).clock reading = some now := fun _ => rfl
  obtain ⟨a, hran, hrequest⟩ := ran_granted (r := datedRequest d now) hour_alike checks hcanonical hparse
    hclock hrequest (hcurrent.trans (Nat.le_add_right _ _)) rfl hissue ⟨by omega, by omega⟩
  exact ⟨_, a, rfl, hran, hrequest⟩

/-- A grant signed at the beginning is replayed in another request an hour and a minute later, when the bound
is reached. -/
theorem revocation_bound_replayed : ∃ d grant a a' es w,
    Run (Step fun _ : ℕ => sampleEnclave) .start es w ∧ w.signed = [grant] ∧ grant.issuedAtMs = 0 ∧
      w.ran = [(a', 3660000), (a, 0)] ∧ a.request = datedRequest d 0 ∧ a'.request = datedRequest d 3660000 ∧
      (3660000 : UInt64).toNat ≤ 0 + 3600000 + 60000 := by
  obtain ⟨d, grant, hchecks, hexpires, hissue⟩ := exists_hour
  obtain ⟨e, a, hgrant, hran, hrequest⟩ :=
    ran_dated hchecks hissue 0 (by rw [hexpires]; decide) (by decide)
  obtain ⟨e', a', hgrant', hran', hrequest'⟩ :=
    ran_dated hchecks hissue 3660000 (by rw [hexpires]; decide) (by decide)
  have hissuedAt := (WalletGrants.issue_ok hissue).issuedAt
  -- One grant, two requests with it, the second one when the grant's lifetime and the skew have
  -- just passed.
  have hrun : Run (Step fun _ : ℕ => sampleEnclave) .start
      [.signed grant, .called 0 (standing 0) (writeCanonical e),
        .called 1 (standing 3660000) (writeCanonical e')]
      ⟨[grant], [(a', 3660000), (a, 0)]⟩ :=
    .cons (.signed grant) <|
    .cons (.ran (unforged_writeCanonical hgrant List.mem_cons_self) hran rfl) <|
    .single (.ran (unforged_writeCanonical hgrant' List.mem_cons_self) hran' rfl)
  refine ⟨d, grant, a, a', _, _, hrun, rfl, hissuedAt, rfl, hrequest, hrequest', ?_⟩
  refine revocation_bound.2 _ _ _ hrun a'.request.authorization.clientKeyId 0 ?_ a' 3660000
    List.mem_cons_self rfl
  rintro g hg -
  obtain rfl := List.mem_singleton.1 hg
  rw [hissuedAt]
  rfl

end Sample

end ZolanaTvc.EndToEnd.Revocation
