import ZolanaTvc.Enclave.Sealed
import ZolanaTvc.Protocol.Binding

/-!
# What a sealed seed is bound to

## Main results

* `sealedSeed_binding`: a sealed seed opens for the wallet and the quorum key it was sealed for, and
  for no other.
-/

namespace ZolanaTvc.Enclave

open Protocol Except

variable {N V : Type}

/-- The requests name one wallet and one quorum key: the fields that a sealed seed is bound to. -/
structure SameWallet (r s : OperationRequest) : Prop where
  network : r.walletDescriptor.network = s.walletDescriptor.network
  securityDomain : r.walletDescriptor.securityDomainId = s.walletDescriptor.securityDomainId
  organization : r.walletDescriptor.turnkeyOrganizationId = s.walletDescriptor.turnkeyOrganizationId
  wallet : r.walletDescriptor.turnkeyWalletId = s.walletDescriptor.turnkeyWalletId
  address : r.walletDescriptor.address = s.walletDescriptor.address
  quorumKey : r.quorumKeyId = s.quorumKeyId
  quorumKeyEpoch : r.quorumKeyEpoch = s.quorumKeyEpoch

theorem SameWallet.of_binding {r s : OperationRequest}
    (h : r.walletDescriptor.binding = s.walletDescriptor.binding)
    (hquorum : r.quorumKeyId = s.quorumKeyId) (hepoch : r.quorumKeyEpoch = s.quorumKeyEpoch) :
    SameWallet r s := by
  simp only [WalletDescriptor.binding, Prod.mk.injEq] at h
  obtain ⟨hnetwork, hdomain, horganization, hwallet, haddress⟩ := h
  exact ⟨hnetwork, hdomain, horganization, hwallet, haddress, hquorum, hepoch⟩

theorem SameWallet.walletBindingDigest_eq {r s : OperationRequest} (h : SameWallet r s)
    (sha256 : Bytes → ByteArrayOf 32) :
    walletBindingDigest sha256 r.walletDescriptor = walletBindingDigest sha256 s.walletDescriptor := by
  rw [walletBindingDigest, walletBindingDigest, walletBindingDigestInput, walletBindingDigestInput,
    h.network, h.securityDomain, h.organization, h.wallet, h.address]

/-- What `seal` puts into a blob. -/
def sealedContents (r : OperationRequest) (walletBinding : ByteArrayOf 32) (seed : ByteArrayOf 64) :
    UnsealedSeed :=
  ⟨API_VERSION, r.quorumKeyId, r.quorumKeyEpoch, walletBinding, DERIVATION_SUITE, seed⟩

/-- The bytes are a sealed seed with some contents. -/
structure Opens (rt : Runtime N V) (bytes : Bytes) (envelope : SealedSeed) (contents : UnsealedSeed) :
    Prop where
  outer : Borsh.tryFromSlice SealedSeed.borsh bytes = some envelope
  inner : ∃ p, rt.quorum.decrypt envelope.ciphertext = some p ∧
    Borsh.tryFromSlice UnsealedSeed.borsh p = some contents

theorem Opens.unique {rt : Runtime N V} {bytes : Bytes} {e e' : SealedSeed} {c c' : UnsealedSeed}
    (h : Opens rt bytes e c) (h' : Opens rt bytes e' c') : e = e' ∧ c = c' := by
  obtain rfl : e = e' := Option.some.inj (h.outer.symm.trans h'.outer)
  obtain ⟨p, hp, hc⟩ := h.inner
  obtain ⟨p', hp', hc'⟩ := h'.inner
  obtain rfl : p = p' := Option.some.inj (hp.symm.trans hp')
  exact ⟨rfl, Option.some.inj (hc.symm.trans hc')⟩

/-- A blob that `seal` makes opens to the seed, under the wallet and the quorum key of the request. -/
theorem opens_of_seal {r : OperationRequest} {rt : Runtime N V} {entropy : Bytes}
    {seed : ByteArrayOf 64} {bytes : Bytes} {digest : ByteArrayOf 32}
    (h : Sealed.seal r rt entropy seed = .ok (bytes, digest)) :
    digest = sealedSeedDigest rt.crypto.sha256 bytes ∧
    ∃ binding ciphertext, walletBindingDigest rt.crypto.sha256 r.walletDescriptor = some binding ∧
      Opens rt bytes
        ⟨API_VERSION, r.quorumKeyId, r.quorumKeyEpoch,
          walletIdHash rt.crypto.sha256 r.walletDescriptor.walletId, ciphertext⟩
        (sealedContents r binding seed) := by
  simp only [Sealed.seal, bind_eq_ok, ofOption_eq_ok, pure_eq_ok, Prod.mk.injEq] at h
  obtain ⟨binding, hbinding, plaintext, hplaintext, ciphertext, hciphertext, _, hbytes, rfl, rfl⟩ := h
  refine ⟨rfl, binding, ciphertext, hbinding, Borsh.tryFromSlice_eq_some_iff.2 hbytes, plaintext,
    rt.quorum.decrypt_encrypt _ _ _ hciphertext, Borsh.tryFromSlice_eq_some_iff.2 hplaintext⟩

/-- When `unseal` accepts, what it answers. -/
theorem unseal_eq_ok {r : OperationRequest} {rt : Runtime N V} {roles : Roles N V}
    {digest : ByteArrayOf 32} : Sealed.unseal r rt = .ok (roles, digest) ↔
      ∃ bytes envelope contents owner, r.sealedSeed = some bytes ∧ Opens rt bytes envelope contents ∧
        (envelope.version = API_VERSION ∧ envelope.quorumKeyId = r.quorumKeyId ∧
          envelope.quorumKeyEpoch = r.quorumKeyEpoch ∧
          envelope.walletIdHash = walletIdHash rt.crypto.sha256 r.walletDescriptor.walletId) ∧
        rt.keys.pubkeyFromStr r.walletDescriptor.address = some owner ∧
        (contents.version = API_VERSION ∧ contents.quorumKeyId = envelope.quorumKeyId ∧
          contents.quorumKeyEpoch = envelope.quorumKeyEpoch ∧
          walletBindingDigest rt.crypto.sha256 r.walletDescriptor = some contents.walletBinding ∧
          contents.derivationSuite = DERIVATION_SUITE) ∧
        Roles.fromSeed rt.keys owner contents.derivationSeed = .ok roles ∧
        digest = sealedSeedDigest rt.crypto.sha256 bytes := by
  simp only [Sealed.unseal, bind_eq_ok, ofOption_eq_ok, refuse_eq_ok, exists_const, pure_eq_ok,
    Prod.mk.injEq, not_or, not_not, ne_eq]
  constructor
  · rintro ⟨bytes, hbytes, envelope, henvelope, hbound, p, hp, contents, hcontents, owner, howner,
      ⟨hversion, hquorum, hepoch⟩, binding, hbinding, ⟨rfl, hsuite⟩, _, hroles, rfl, rfl⟩
    exact ⟨bytes, envelope, contents, owner, hbytes, ⟨henvelope, p, hp, hcontents⟩, hbound, howner,
      ⟨hversion, hquorum, hepoch, hbinding, hsuite⟩, hroles, rfl⟩
  · rintro ⟨bytes, envelope, contents, owner, hbytes, ⟨henvelope, p, hp, hcontents⟩, hbound, howner,
      ⟨hversion, hquorum, hepoch, hbinding, hsuite⟩, hroles, rfl⟩
    exact ⟨bytes, hbytes, envelope, henvelope, hbound, p, hp, contents, hcontents, owner, howner,
      ⟨hversion, hquorum, hepoch⟩, contents.walletBinding, hbinding, ⟨rfl, hsuite⟩, roles, hroles,
      rfl, rfl⟩

theorem unseal_of_seal {r s : OperationRequest} {rt : Runtime N V} {entropy : Bytes}
    {seed : ByteArrayOf 64} {bytes : Bytes} {digest : ByteArrayOf 32} {owner : ByteArrayOf 32}
    {roles : Roles N V} (h : Sealed.seal r rt entropy seed = .ok (bytes, digest))
    (howner : rt.keys.pubkeyFromStr r.walletDescriptor.address = some owner)
    (hroles : Roles.fromSeed rt.keys owner seed = .ok roles) (hsame : SameWallet r s)
    (hs : s.sealedSeed = some bytes) : Sealed.unseal s rt = .ok (roles, digest) := by
  obtain ⟨rfl, binding, ciphertext, hbinding, hopens⟩ := opens_of_seal h
  have hwallet : r.walletDescriptor.walletId = s.walletDescriptor.walletId :=
    congrArg ("wallet-" ++ ·) hsame.wallet
  refine unseal_eq_ok.2 ⟨bytes, _, _, owner, hs, hopens,
    ⟨rfl, hsame.quorumKey, hsame.quorumKeyEpoch, by rw [hwallet]⟩, hsame.address ▸ howner,
    ⟨rfl, rfl, rfl, ?_, rfl⟩, hroles, rfl⟩
  rw [← hsame.walletBindingDigest_eq, hbinding]
  rfl

/-- The wallet bindings of the descriptors are not a collision of the hash. -/
def NoCollision (sha256 : Bytes → ByteArrayOf 32) (d e : WalletDescriptor) : Prop :=
  ∀ x y, walletBindingDigestInput d = some x → walletBindingDigestInput e = some y →
    sha256 x = sha256 y → x = y

/-- Two wallet bindings of one digest, their byte strings not being a collision, are of one wallet. -/
theorem binding_eq_of_digest_eq {sha256 : Bytes → ByteArrayOf 32} {d e : WalletDescriptor}
    {b : ByteArrayOf 32} (hd : walletBindingDigest sha256 d = some b)
    (he : walletBindingDigest sha256 e = some b)
    (hcollision : NoCollision sha256 d e) : d.binding = e.binding := by
  obtain ⟨x, hx, hsha⟩ := Option.map_eq_some_iff.1 hd
  obtain ⟨y, hy, hsha'⟩ := Option.map_eq_some_iff.1 he
  exact (walletBindingDigestInput_eq_iff hx hy).1 (hcollision x y hx hy (hsha.trans hsha'.symm))

theorem sameWallet_of_unseal {r s : OperationRequest} {rt : Runtime N V} {entropy : Bytes}
    {seed : ByteArrayOf 64} {bytes : Bytes} {digest digest' : ByteArrayOf 32} {roles : Roles N V}
    (h : Sealed.seal r rt entropy seed = .ok (bytes, digest)) (hs : s.sealedSeed = some bytes)
    (hcollision : NoCollision rt.crypto.sha256 r.walletDescriptor s.walletDescriptor)
    (hunseal : Sealed.unseal s rt = .ok (roles, digest')) : SameWallet r s := by
  obtain ⟨-, binding, ciphertext, hbinding, hopens⟩ := opens_of_seal h
  obtain ⟨bytes', envelope, contents, owner, hs', hopens', ⟨-, hquorum, hepoch, -⟩, -,
    ⟨-, -, -, hbinding', -⟩, -, -⟩ := unseal_eq_ok.1 hunseal
  obtain rfl : bytes = bytes' := Option.some.inj (hs.symm.trans hs')
  obtain ⟨rfl, rfl⟩ := hopens.unique hopens'
  exact .of_binding (binding_eq_of_digest_eq hbinding hbinding' hcollision) hquorum hepoch

/-- A seed that is accepted is a signature of the wallet's address over its own derivation message. -/
theorem fromSeed_eq_ok {k : Keypair N V} {key : ByteArrayOf 32} {seed : ByteArrayOf 64}
    {roles : Roles N V} : Roles.fromSeed k key seed = .ok roles ↔
      k.verifyMessage key (k.derivationMessage key) seed = true ∧ roles.owner = key ∧
        k.expandRoles seed = some (roles.nullifierKey, roles.viewingKey) := by
  simp only [Roles.fromSeed, bind_eq_ok, refuse_eq_ok, ofOption_eq_ok, exists_const, pure_eq_ok,
    Bool.not_eq_false]
  refine and_congr_right fun _ => ?_
  constructor
  · rintro ⟨⟨n, v⟩, hexpand, rfl⟩
    exact ⟨rfl, hexpand⟩
  · rintro ⟨rfl, hexpand⟩
    exact ⟨_, hexpand, rfl⟩

/-- The identity that a bootstrap answers is that of the roles it sealed. -/
theorem bootstrap_eq_ok {r : OperationRequest} {w : WalletKey} {rt : Runtime N V} {env : Environment}
    {result : OperationResult} {digest : ByteArrayOf 32}
    (h : Bootstrap.run r w rt env = .ok (result, digest)) :
    ∃ (signed : RawSignature) (roles : Roles N V) (address : ShieldedAddress)
      (ownerHash : ByteArrayOf 32) (bytes : Bytes),
      Roles.fromSeed rt.keys w.publicKey signed.signature = .ok roles ∧
      roles.address rt.keys = .ok address ∧
      Sealed.seal r rt env.entropy signed.signature = .ok (bytes, digest) ∧
      rt.keys.ownerHash address.signingPubkey address.nullifierPubkey address.viewingPubkey =
        some ownerHash ∧
      result = .bootstrap w.signWith ownerHash address.nullifierPubkey address.viewingPubkey bytes
        signed.activityId := by
  simp only [Bootstrap.run, bind_eq_ok, expect_eq_ok, ofOption_eq_ok, pure_eq_ok, Prod.mk.injEq] at h
  obtain ⟨signed, -, roles, hroles, address, haddress, ⟨bytes, digest⟩, hseal, ownerHash, howner,
    rfl, rfl⟩ := h
  exact ⟨signed, roles, address, ownerHash, bytes, hroles, haddress, hseal, howner, rfl⟩

/-- The roles are of the identity that a bootstrap answered. -/
def Roles.HasIdentity (k : Keypair N V) (roles : Roles N V) : OperationResult → Prop
  | .bootstrap _ ownerHash nullifierPubkey viewingPubkey _ _ =>
    ∃ address, roles.address k = .ok address ∧ address.nullifierPubkey = nullifierPubkey ∧
      address.viewingPubkey = viewingPubkey ∧
      k.ownerHash address.signingPubkey nullifierPubkey viewingPubkey = some ownerHash
  | _ => False

/-- The sealed seed of a bootstrap's answer. -/
def bootstrapSeed : OperationResult → Option Bytes
  | .bootstrap _ _ _ _ sealedSeed _ => some sealedSeed
  | _ => none

theorem hasIdentity_of_bootstrap {r s : OperationRequest} {w : WalletKey} {rt : Runtime N V}
    {env : Environment} {result : OperationResult} {digest digest' : ByteArrayOf 32}
    {roles : Roles N V} (hw : w.Names rt.keys r.walletDescriptor)
    (h : Bootstrap.run r w rt env = .ok (result, digest))
    (hcollision : NoCollision rt.crypto.sha256 r.walletDescriptor s.walletDescriptor)
    (hs : s.sealedSeed = bootstrapSeed result)
    (hunseal : Sealed.unseal s rt = .ok (roles, digest')) : roles.HasIdentity rt.keys result := by
  obtain ⟨signed, roles', address, ownerHash, bytes, hroles, haddress, hseal, howner, rfl⟩ :=
    bootstrap_eq_ok h
  have hsame := sameWallet_of_unseal hseal hs hcollision hunseal
  have hunseal' := unseal_of_seal hseal hw.2.2 hroles hsame hs
  obtain ⟨rfl, -⟩ := Prod.mk.inj (Except.ok.inj (hunseal.symm.trans hunseal'))
  exact ⟨address, haddress, rfl, rfl, howner⟩

/-- A sealed seed opens under every request for its wallet and quorum key and under no other; a blob
that opens, whoever made it, holds a signature of the address it opens for; and the identity that a
bootstrap answers is that of the roles its sealed seed opens to. -/
theorem sealedSeed_binding (rt : Runtime N V) (r : OperationRequest) :
    (∀ entropy seed bytes digest, Sealed.seal r rt entropy seed = .ok (bytes, digest) →
      (∀ owner roles s, rt.keys.pubkeyFromStr r.walletDescriptor.address = some owner →
        Roles.fromSeed rt.keys owner seed = .ok roles → SameWallet r s →
        s.sealedSeed = some bytes → Sealed.unseal s rt = .ok (roles, digest)) ∧
      (∀ s, ¬SameWallet r s → NoCollision rt.crypto.sha256 r.walletDescriptor s.walletDescriptor →
        s.sealedSeed = some bytes → ∃ failure, Sealed.unseal s rt = .error failure)) ∧
    (∀ roles digest, Sealed.unseal r rt = .ok (roles, digest) →
      ∃ bytes envelope contents owner, r.sealedSeed = some bytes ∧ Opens rt bytes envelope contents ∧
        rt.keys.pubkeyFromStr r.walletDescriptor.address = some owner ∧
        rt.keys.verifyMessage owner (rt.keys.derivationMessage owner) contents.derivationSeed = true ∧
        Roles.fromSeed rt.keys owner contents.derivationSeed = .ok roles) ∧
    (∀ w env result digest, w.Names rt.keys r.walletDescriptor →
      Bootstrap.run r w rt env = .ok (result, digest) →
      ∀ s, s.sealedSeed = bootstrapSeed result →
        (SameWallet r s → ∃ roles, Sealed.unseal s rt = .ok (roles, digest)) ∧
        (NoCollision rt.crypto.sha256 r.walletDescriptor s.walletDescriptor → ∀ roles digest',
          Sealed.unseal s rt = .ok (roles, digest') → roles.HasIdentity rt.keys result)) := by
  refine ⟨fun entropy seed bytes digest hseal => ⟨fun owner roles s howner hroles hsame hs => ?_,
    fun s hother hcollision hs => ?_⟩, fun roles digest hunseal => ?_,
    fun w env result digest hw hrun s hs => ⟨fun hsame => ?_, fun hcollision roles digest' => ?_⟩⟩
  -- The same wallet.
  · exact unseal_of_seal hseal howner hroles hsame hs
  -- Another wallet: what opens for it was sealed for it.
  · cases hunseal : Sealed.unseal s rt with
    | error failure => exact ⟨failure, rfl⟩
    | ok opened => exact absurd (sameWallet_of_unseal hseal hs hcollision hunseal) hother
  -- Any blob that opens.
  · obtain ⟨bytes, envelope, contents, owner, hs, hopens, -, howner, -, hroles, -⟩ :=
      unseal_eq_ok.1 hunseal
    exact ⟨bytes, envelope, contents, owner, hs, hopens, howner, (fromSeed_eq_ok.1 hroles).1, hroles⟩
  -- A bootstrap's answer, under its own wallet and under others.
  · obtain ⟨signed, roles, address, ownerHash, bytes, hroles, -, hseal, -, rfl⟩ := bootstrap_eq_ok hrun
    exact ⟨roles, unseal_of_seal hseal hw.2.2 hroles hsame hs⟩
  · exact hasIdentity_of_bootstrap hw hrun hcollision hs

end ZolanaTvc.Enclave
