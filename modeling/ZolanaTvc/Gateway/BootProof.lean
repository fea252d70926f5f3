import ZolanaTvc.Control.Run
import ZolanaTvc.Gateway.Error
import ZolanaTvc.Store.Table

/-!
# Looking up a Boot Proof

Many callers look up the proofs of replicas at once. A caller reads the cache, then the flights, and
then starts a lookup of its own, which others may join. Each of these reads and writes is a step of its
own, and callers may leave while they wait.
-/

namespace ZolanaTvc.Gateway

open Protocol

def BOOT_PROOF_CACHE_CAPACITY : ℕ := 256

def EPHEMERAL_KEY_HEX_LEN : ℕ := 260

def isLowerHex (value : String) (len : ℕ) : Bool :=
  (utf8 value).length == len &&
    (utf8 value).all fun byte => (0x30 ≤ byte && byte ≤ 0x39) || (0x61 ≤ byte && byte ≤ 0x66)

/-- What a caller or Turnkey is answered. -/
abbrev Answer := Except ApiError Bytes

/-- A lookup at Turnkey, and the channel that its caller shares with those that join. -/
structure Lookup where
  /-- The key that it was made for. -/
  ephemeralKey : String
  /-- What Turnkey answered. -/
  outcome : Option Answer
  /-- What the channel holds. -/
  sent : Option Answer
  /-- The sending end of the channel is there. -/
  live : Bool

/-- Where in `boot_proof` a caller is. A lookup is named by its number. -/
inductive Stage where
  | idle
  | looping
  /-- The cache had no proof. -/
  | missed
  | waiting (lookup : ℕ)
  /-- There was no flight. -/
  | alone
  | permitted
  | looking (lookup : ℕ)
  | fetched (lookup : ℕ) (answer : Answer)
  | cached (lookup : ℕ) (answer : Answer)
  | sent (lookup : ℕ) (answer : Answer)
  /-- The flight was taken out, the channel's sending end not dropped yet. -/
  | landed (lookup : ℕ) (answer : Option Answer)
  | answered (answer : Answer)
  | dropped

/-- The part of `Turnkey` that the callers share, and where each of them is. -/
structure BootProofs where
  cache : Table String Bytes
  flights : Table String ℕ
  lookups : ℕ → Lookup
  /-- How many lookups were started. -/
  started : ℕ
  /-- The key that a caller looks up. -/
  key : ℕ → String
  stage : ℕ → Stage

/-- What a caller does in a step. -/
inductive Action where
  | call (ephemeralKey : String)
  | hit (body : Bytes)
  | miss
  | join (lookup : ℕ)
  | pass
  | hear (answer : Answer)
  | abandoned
  | refused
  | permit
  | yield
  | insert (lookup : ℕ)
  | fetch (answer : Answer)
  | store
  | send
  | land
  | leave
  | close

namespace BootProofs

def new : BootProofs where
  cache := ∅
  flights := ∅
  lookups := fun _ => ⟨"", none, none, false⟩
  started := 0
  key := fun _ => ""
  stage := fun _ => .idle

variable (b : BootProofs) (i n : ℕ)

def moveTo (stage : Stage) : BootProofs :=
  { b with stage := Function.update b.stage i stage }

def cacheBootProof (ephemeralKey : String) (body : Bytes) : BootProofs :=
  let cache := if BOOT_PROOF_CACHE_CAPACITY ≤ b.cache.size then ∅ else b.cache
  { b with cache := cache.insert ephemeralKey body }

/-- `FlightLanding`, dropped. -/
def landing (ephemeralKey : String) : BootProofs :=
  if b.flights.lookup ephemeralKey = some n then
    { b with flights := b.flights.erase ephemeralKey }
  else b

def setLookup (lookup : Lookup) : BootProofs :=
  { b with lookups := Function.update b.lookups n lookup }

/-- The flight of a new lookup. -/
def insertFlight (ephemeralKey : String) : BootProofs :=
  { (b.setLookup b.started ⟨ephemeralKey, none, none, true⟩) with
    flights := b.flights.insert ephemeralKey b.started
    started := b.started + 1 }

/-- A step of one caller. Slots are shared with calls that are not modelled here, so that one may be
given or refused at any time, whichever share it counts against. -/
inductive Step (b : BootProofs) : ℕ × Action → BootProofs → Prop where
  | call {i : ℕ} (ephemeralKey : String) (h : b.stage i = .idle) :
      Step b (i, .call ephemeralKey)
        ({ b with key := Function.update b.key i ephemeralKey }.moveTo i
          (if isLowerHex ephemeralKey EPHEMERAL_KEY_HEX_LEN then .looping
            else .answered (.error .invalidEnclaveAnswer)))
  | hit {i : ℕ} {body : Bytes} (h : b.stage i = .looping)
      (cached : b.cache.lookup (b.key i) = some body) :
      Step b (i, .hit body) (b.moveTo i (.answered (.ok body)))
  | miss {i : ℕ} (h : b.stage i = .looping) (cached : b.cache.lookup (b.key i) = none) :
      Step b (i, .miss) (b.moveTo i .missed)
  | join {i n : ℕ} (h : b.stage i = .missed) (flight : b.flights.lookup (b.key i) = some n) :
      Step b (i, .join n) (b.moveTo i (.waiting n))
  | pass {i : ℕ} (h : b.stage i = .missed) (flight : b.flights.lookup (b.key i) = none) :
      Step b (i, .pass) (b.moveTo i .alone)
  | hear {i n : ℕ} {answer : Answer} (h : b.stage i = .waiting n)
      (sent : (b.lookups n).sent = some answer) :
      Step b (i, .hear answer) (b.moveTo i (.answered answer))
  | abandoned {i n : ℕ} (h : b.stage i = .waiting n) (sent : (b.lookups n).sent = none)
      (live : (b.lookups n).live = false) : Step b (i, .abandoned) (b.moveTo i .looping)
  | refused {i : ℕ} (h : b.stage i = .alone) :
      Step b (i, .refused) (b.moveTo i (.answered (.error .tooManyInFlight)))
  | permit {i : ℕ} (h : b.stage i = .alone) : Step b (i, .permit) (b.moveTo i .permitted)
  | yield {i : ℕ} (h : b.stage i = .permitted) (flight : b.flights.lookup (b.key i) ≠ none) :
      Step b (i, .yield) (b.moveTo i .looping)
  -- The flights are read again under their lock, but the cache is not.
  | insert {i : ℕ} (h : b.stage i = .permitted) (flight : b.flights.lookup (b.key i) = none) :
      Step b (i, .insert b.started) ((b.insertFlight (b.key i)).moveTo i (.looking b.started))
  | fetch {i n : ℕ} (answer : Answer) (h : b.stage i = .looking n) :
      Step b (i, .fetch answer)
        ((b.setLookup n { b.lookups n with outcome := some answer }).moveTo i (.fetched n answer))
  | store {i n : ℕ} {answer : Answer} (h : b.stage i = .fetched n answer) :
      Step b (i, .store)
        ((match answer with
          | .ok body => b.cacheBootProof (b.key i) body
          | .error _ => b).moveTo i (.cached n answer))
  | send {i n : ℕ} {answer : Answer} (h : b.stage i = .cached n answer) :
      Step b (i, .send)
        ((b.setLookup n { b.lookups n with sent := some answer }).moveTo i (.sent n answer))
  | land {i n : ℕ} {answer : Answer} (h : b.stage i = .sent n answer) :
      Step b (i, .land) ((b.landing n (b.key i)).moveTo i (.landed n (some answer)))
  /-- The caller leaves while Turnkey has not answered. -/
  | leaveLookup {i n : ℕ} (h : b.stage i = .looking n) :
      Step b (i, .leave) ((b.landing n (b.key i)).moveTo i (.landed n none))
  /-- The caller leaves while another's lookup has not answered. -/
  | leaveFlight {i n : ℕ} (h : b.stage i = .waiting n) : Step b (i, .leave) (b.moveTo i .dropped)
  | close {i n : ℕ} {answer : Option Answer} (h : b.stage i = .landed n answer) :
      Step b (i, .close)
        ((b.setLookup n { b.lookups n with live := false }).moveTo i
          (match answer with
          | some answer => .answered answer
          | none => .dropped))

end BootProofs

/-- The lookup whose flight a caller takes out when it ends. -/
def Stage.guard : Stage → Option ℕ
  | .looking n | .fetched n _ | .cached n _ | .sent n _ => some n
  | _ => none

/-- The lookup of whose channel a caller has the sending end. -/
def Stage.sender : Stage → Option ℕ
  | .looking n | .fetched n _ | .cached n _ | .sent n _ | .landed n _ => some n
  | _ => none

/-- What Turnkey answered to a caller. -/
def Stage.outcome : Stage → Option Answer
  | .fetched _ answer | .cached _ answer | .sent _ answer => some answer
  | .landed _ answer => answer
  | _ => none

theorem Stage.sender_of_guard {stage : Stage} {n : ℕ} (h : stage.guard = some n) :
    stage.sender = some n := by
  cases stage <;> simp_all [guard, sender]

namespace BootProofs

variable {b b' : BootProofs} {i j n m : ℕ} {stage : Stage} {e : ℕ × Action}

@[simp] theorem moveTo_stage : (b.moveTo i stage).stage j = if j = i then stage else b.stage j := by
  simp [moveTo, Function.update_apply]

@[simp] theorem moveTo_flights : (b.moveTo i stage).flights = b.flights := rfl

@[simp] theorem moveTo_lookups : (b.moveTo i stage).lookups = b.lookups := rfl

@[simp] theorem moveTo_started : (b.moveTo i stage).started = b.started := rfl

@[simp] theorem moveTo_key : (b.moveTo i stage).key = b.key := rfl

@[simp] theorem moveTo_cache : (b.moveTo i stage).cache = b.cache := rfl

@[simp] theorem setLookup_lookups {lookup : Lookup} :
    (b.setLookup n lookup).lookups m = if m = n then lookup else b.lookups m := by
  simp [setLookup, Function.update_apply]

@[simp] theorem landing_stage {key : String} : (b.landing n key).stage = b.stage := by
  rw [landing]
  split_ifs <;> rfl

@[simp] theorem landing_lookups {key : String} : (b.landing n key).lookups = b.lookups := by
  rw [landing]
  split_ifs <;> rfl

@[simp] theorem landing_started {key : String} : (b.landing n key).started = b.started := by
  rw [landing]
  split_ifs <;> rfl

@[simp] theorem landing_key {key : String} : (b.landing n key).key = b.key := by
  rw [landing]
  split_ifs <;> rfl

@[simp] theorem landing_cache {key : String} : (b.landing n key).cache = b.cache := by
  rw [landing]
  split_ifs <;> rfl

/-- Who owns which flight and which channel. -/
structure Owned (b : BootProofs) : Prop where
  /-- A lookup's flight is in the map until the lookup takes it out. -/
  guard : ∀ i n, (b.stage i).guard = some n → b.flights.lookup (b.key i) = some n
  /-- A flight in the map is that of a lookup that has not ended. -/
  flight : ∀ key n, b.flights.lookup key = some n →
    ∃ i, b.key i = key ∧ (b.stage i).guard = some n
  sender : ∀ i n, (b.stage i).sender = some n →
    n < b.started ∧ (b.lookups n).live = true ∧ (b.lookups n).ephemeralKey = b.key i
  distinct : ∀ i j n, (b.stage i).sender = some n → (b.stage j).sender = some n → i = j
  live : ∀ n, n < b.started → (b.lookups n).live = true → ∃ i, (b.stage i).sender = some n

/-- A step that takes no lookup forward keeps the owners. -/
theorem Owned.quiet (owned : b.Owned) (hflights : b'.flights = b.flights)
    (hstarted : b'.started = b.started)
    (hlookups : ∀ n, (b'.lookups n).live = (b.lookups n).live ∧
      (b'.lookups n).ephemeralKey = (b.lookups n).ephemeralKey)
    (hstage : ∀ j, (b'.stage j).guard = (b.stage j).guard ∧
      (b'.stage j).sender = (b.stage j).sender)
    (hkey : ∀ j, b'.key j = b.key j ∨ (b.stage j).sender = none) : b'.Owned := by
  -- A caller keeps its key as long as it has a lookup of its own.
  have hown : ∀ j n, (b.stage j).sender = some n → b'.key j = b.key j := by
    intro j n h
    exact (hkey j).resolve_right (by simp [h])
  refine ⟨?_, ?_, ?_, ?_, ?_⟩
  · intro j n h
    rw [(hstage j).1] at h
    rw [hflights, hown j n (Stage.sender_of_guard h)]
    exact owned.guard j n h
  · intro key n h
    rw [hflights] at h
    obtain ⟨j, hj, hguard⟩ := owned.flight key n h
    exact ⟨j, (hown j n (Stage.sender_of_guard hguard)).trans hj, (hstage j).1.trans hguard⟩
  · intro j n h
    rw [(hstage j).2] at h
    rw [hstarted, (hlookups n).1, (hlookups n).2, hown j n h]
    exact owned.sender j n h
  · intro j k n hj hk
    rw [(hstage j).2] at hj
    rw [(hstage k).2] at hk
    exact owned.distinct j k n hj hk
  · intro n hn hlive
    rw [hstarted] at hn
    rw [(hlookups n).1] at hlive
    obtain ⟨j, hj⟩ := owned.live n hn hlive
    exact ⟨j, (hstage j).2.trans hj⟩

/-- A caller that moves between stages with the same guard and sender. -/
theorem Owned.move {old : Stage} (owned : b.Owned) (h : b.stage i = old)
    (hguard : stage.guard = old.guard) (hsender : stage.sender = old.sender) :
    (b.moveTo i stage).Owned := by
  refine owned.quiet rfl rfl (fun _ => ⟨rfl, rfl⟩) ?_ fun _ => .inl rfl
  intro j
  rw [moveTo_stage]
  by_cases hj : j = i
  · subst hj
    simp [h, hguard, hsender]
  · simp [hj]

theorem Owned.cache (owned : b.Owned) (ephemeralKey : String) (body : Bytes) :
    (b.cacheBootProof ephemeralKey body).Owned :=
  owned.quiet rfl rfl (fun _ => ⟨rfl, rfl⟩) (fun _ => ⟨rfl, rfl⟩) fun _ => .inl rfl

theorem Owned.setLookup {lookup : Lookup} (owned : b.Owned) (hlive : lookup.live = (b.lookups n).live)
    (hkey : lookup.ephemeralKey = (b.lookups n).ephemeralKey) : (b.setLookup n lookup).Owned := by
  refine owned.quiet rfl rfl ?_ (fun _ => ⟨rfl, rfl⟩) fun _ => .inl rfl
  intro m
  rw [setLookup_lookups]
  by_cases hm : m = n
  · subst hm
    simp [hlive, hkey]
  · simp [hm]

theorem Owned.insert (owned : b.Owned) (h : b.stage i = .permitted)
    (hflight : b.flights.lookup (b.key i) = none) :
    ((b.insertFlight (b.key i)).moveTo i (.looking b.started)).Owned := by
  have hnone : (b.stage i).sender = none := by rw [h]; rfl
  have hlookup : ∀ key, (b.flights.insert (b.key i) b.started).lookup key =
      if key = b.key i then some b.started else b.flights.lookup key :=
    fun key => Table.lookup_insert_eq
  -- No other caller has a guard for the key, nor a sender for the new lookup.
  have hother : ∀ j n, j ≠ i → (b.stage j).guard = some n → b.key j ≠ b.key i := by
    intro j n _ hguard hkey
    have := owned.guard j n hguard
    rw [hkey, hflight] at this
    cases this
  have hold : ∀ j n, (b.stage j).sender = some n → n ≠ b.started :=
    fun j n hj => (owned.sender j n hj).1.ne
  -- The new lookup has a number that no lookup had, and the key has no other flight.
  refine ⟨?_, ?_, ?_, ?_, ?_⟩
  · intro j n hj
    show (b.flights.insert (b.key i) b.started).lookup (b.key j) = some n
    rw [moveTo_stage] at hj
    by_cases hji : j = i
    · subst hji
      rw [if_pos rfl] at hj
      rw [hlookup, if_pos rfl]
      exact hj
    · rw [if_neg hji] at hj
      rw [hlookup, if_neg (hother j n hji hj)]
      exact owned.guard j n hj
  · intro key n hkey
    have hkey : (b.flights.insert (b.key i) b.started).lookup key = some n := hkey
    rw [hlookup] at hkey
    by_cases hk : key = b.key i
    · rw [if_pos hk] at hkey
      exact ⟨i, hk.symm, by rw [moveTo_stage, if_pos rfl]; exact hkey⟩
    · rw [if_neg hk] at hkey
      obtain ⟨j, hj, hguard⟩ := owned.flight key n hkey
      have hji : j ≠ i := by
        rintro rfl
        exact hk hj.symm
      exact ⟨j, hj, by rw [moveTo_stage, if_neg hji]; exact hguard⟩
  · intro j n hj
    show n < b.started + 1 ∧ ((b.setLookup b.started _).lookups n).live = true ∧
      ((b.setLookup b.started _).lookups n).ephemeralKey = b.key j
    rw [moveTo_stage] at hj
    rw [setLookup_lookups]
    by_cases hji : j = i
    · subst hji
      rw [if_pos rfl] at hj
      obtain rfl := Option.some.inj hj
      simp
    · rw [if_neg hji] at hj
      obtain ⟨hlt, hlive, hkey⟩ := owned.sender j n hj
      rw [if_neg (hold j n hj)]
      exact ⟨by omega, hlive, hkey⟩
  · intro j k n hj hk
    rw [moveTo_stage] at hj hk
    by_cases hji : j = i <;> by_cases hki : k = i
    · rw [hji, hki]
    · rw [if_pos hji] at hj
      rw [if_neg hki] at hk
      exact absurd (Option.some.inj hj).symm (hold k n hk)
    · rw [if_neg hji] at hj
      rw [if_pos hki] at hk
      exact absurd (Option.some.inj hk).symm (hold j n hj)
    · rw [if_neg hji] at hj
      rw [if_neg hki] at hk
      exact owned.distinct j k n hj hk
  · intro n hn hlive
    have hn : n < b.started + 1 := hn
    have hlive : ((b.setLookup b.started ⟨b.key i, none, none, true⟩).lookups n).live = true := hlive
    rw [setLookup_lookups] at hlive
    by_cases hnew : n = b.started
    · exact ⟨i, by rw [moveTo_stage, if_pos rfl, hnew]; rfl⟩
    · rw [if_neg hnew] at hlive
      obtain ⟨j, hj⟩ := owned.live n (by omega) hlive
      have hji : j ≠ i := by
        rintro rfl
        rw [hnone] at hj
        cases hj
      exact ⟨j, by rw [moveTo_stage, if_neg hji]; exact hj⟩

/-- The end of a lookup takes out its own flight. -/
theorem Owned.landing_flights (owned : b.Owned) (h : (b.stage i).guard = some n) :
    (b.landing n (b.key i)).flights = b.flights.erase (b.key i) := by
  rw [landing, if_pos (owned.guard i n h)]

theorem Owned.land {answer : Option Answer} (owned : b.Owned) (h : (b.stage i).guard = some n) :
    ((b.landing n (b.key i)).moveTo i (.landed n answer)).Owned := by
  -- The landing caller owns the flight of its key, so that exactly this flight goes.
  have hflights : ∀ key, ((b.landing n (b.key i)).flights).lookup key =
      if key = b.key i then none else b.flights.lookup key := by
    intro key
    rw [owned.landing_flights h]
    exact Table.lookup_erase_eq
  -- Landing drops the guard and keeps the sender.
  have hsender : ∀ j, (((b.landing n (b.key i)).moveTo i (.landed n answer)).stage j).sender =
      (b.stage j).sender := by
    intro j
    rw [moveTo_stage, landing_stage]
    by_cases hji : j = i
    · rw [if_pos hji, hji, Stage.sender_of_guard h]
      rfl
    · rw [if_neg hji]
  refine ⟨?_, ?_, ?_, ?_, ?_⟩
  · intro j m hj
    rw [moveTo_stage, landing_stage] at hj
    by_cases hji : j = i
    · rw [if_pos hji] at hj
      cases hj
    · rw [if_neg hji] at hj
      have hother : b.key j ≠ b.key i := by
        intro hkey
        have hm := owned.guard j m hj
        rw [hkey, owned.guard i n h] at hm
        obtain rfl := Option.some.inj hm
        exact hji (owned.distinct j i n (Stage.sender_of_guard hj) (Stage.sender_of_guard h))
      rw [moveTo_flights, moveTo_key, landing_key, hflights, if_neg hother]
      exact owned.guard j m hj
  · intro key m hkey
    rw [moveTo_flights, hflights] at hkey
    split_ifs at hkey with hk
    obtain ⟨j, hj, hguard⟩ := owned.flight key m hkey
    have hji : j ≠ i := by
      rintro rfl
      exact hk hj.symm
    refine ⟨j, ?_, ?_⟩
    · rw [moveTo_key, landing_key]
      exact hj
    · rw [moveTo_stage, if_neg hji, landing_stage]
      exact hguard
  · intro j m hj
    rw [hsender] at hj
    rw [moveTo_started, landing_started, moveTo_lookups, landing_lookups, moveTo_key, landing_key]
    exact owned.sender j m hj
  · intro j k m hj hk
    rw [hsender] at hj hk
    exact owned.distinct j k m hj hk
  · intro m hm hlive
    rw [moveTo_started, landing_started] at hm
    rw [moveTo_lookups, landing_lookups] at hlive
    obtain ⟨j, hj⟩ := owned.live m hm hlive
    exact ⟨j, (hsender j).trans hj⟩

theorem Owned.close {answer : Option Answer} (owned : b.Owned) (h : b.stage i = .landed n answer)
    (hsender : stage.sender = none) :
    ((b.setLookup n { b.lookups n with live := false }).moveTo i stage).Owned := by
  -- A caller without a sender has no guard either.
  have hguard : stage.guard = none := by
    by_contra hsome
    obtain ⟨m, hm⟩ := Option.ne_none_iff_exists'.1 hsome
    rw [Stage.sender_of_guard hm] at hsender
    cases hsender
  have hi : (b.stage i).sender = some n := by rw [h]; rfl
  have hstage : ∀ j, ((b.setLookup n { b.lookups n with live := false }).moveTo i stage).stage j =
      if j = i then stage else b.stage j := fun j => moveTo_stage
  refine ⟨?_, ?_, ?_, ?_, ?_⟩
  · intro j m hj
    rw [hstage] at hj
    split_ifs at hj
    · rw [hguard] at hj
      cases hj
    · exact owned.guard j m hj
  · intro key m hkey
    obtain ⟨j, hj, hm⟩ := owned.flight key m hkey
    have hji : j ≠ i := by
      rintro rfl
      rw [h] at hm
      cases hm
    exact ⟨j, hj, by rw [hstage, if_neg hji]; exact hm⟩
  · intro j m hj
    rw [hstage] at hj
    split_ifs at hj with hji
    · rw [hsender] at hj
      cases hj
    -- The lookup that ends was this caller's alone.
    · have hmn : m ≠ n := by
        rintro rfl
        exact hji (owned.distinct j i m hj hi)
      rw [moveTo_lookups, setLookup_lookups, if_neg hmn]
      exact owned.sender j m hj
  · intro j k m hj hk
    rw [hstage] at hj hk
    split_ifs at hj hk
    · rw [hsender] at hj
      cases hj
    · rw [hsender] at hj
      cases hj
    · rw [hsender] at hk
      cases hk
    · exact owned.distinct j k m hj hk
  · intro m hm hlive
    rw [moveTo_lookups, setLookup_lookups] at hlive
    split_ifs at hlive with hmn
    obtain ⟨j, hj⟩ := owned.live m hm hlive
    have hji : j ≠ i := by
      rintro rfl
      rw [hi] at hj
      exact hmn (Option.some.inj hj).symm
    exact ⟨j, by rw [hstage, if_neg hji]; exact hj⟩

theorem Owned.call {ephemeralKey : String} (owned : b.Owned) (h : b.stage i = .idle)
    (hguard : stage.guard = none) (hsender : stage.sender = none) :
    ({ b with key := Function.update b.key i ephemeralKey }.moveTo i stage).Owned := by
  refine owned.quiet rfl rfl (fun _ => ⟨rfl, rfl⟩) ?_ ?_
  · intro j
    rw [moveTo_stage]
    by_cases hj : j = i
    · rw [if_pos hj, hj, h]
      exact ⟨hguard, hsender⟩
    · rw [if_neg hj]
      exact ⟨rfl, rfl⟩
  · intro j
    by_cases hj : j = i
    · subst hj
      exact .inr (by rw [h]; rfl)
    · exact .inl (Function.update_of_ne hj _ _)

theorem Owned.step (owned : b.Owned) (h : Step b e b') : b'.Owned := by
  cases h with
  | call ephemeralKey h =>
    refine owned.call h ?_ ?_ <;> split_ifs <;> rfl
  | hit h | miss h | join h | pass h | hear h | abandoned h | refused h | permit h | yield h
  | leaveFlight h => exact owned.move h rfl rfl
  | insert h flight => exact owned.insert h flight
  | @fetch i n answer h =>
    have kept : (b.setLookup n { b.lookups n with outcome := some answer }).Owned :=
      owned.setLookup rfl rfl
    exact kept.move h rfl rfl
  | @store i n answer h =>
    cases answer with
    | ok body => exact (owned.cache (b.key i) body).move h rfl rfl
    | error => exact owned.move h rfl rfl
  | @send i n answer h =>
    have kept : (b.setLookup n { b.lookups n with sent := some answer }).Owned :=
      owned.setLookup rfl rfl
    exact kept.move h rfl rfl
  | land h => exact owned.land (by rw [h]; rfl)
  | leaveLookup h => exact owned.land (by rw [h]; rfl)
  | @close i n answer h =>
    refine owned.close h ?_
    cases answer <;> rfl

theorem Owned.new : BootProofs.new.Owned := by
  refine ⟨?_, ?_, ?_, ?_, ?_⟩
  · intro i n h
    cases h
  · intro key n h
    cases h
  · intro i n h
    cases h
  · intro i j n h
    cases h
  · intro n h
    cases h

end BootProofs

namespace BootProofs

variable {b b' : BootProofs} {i j n m : ℕ} {stage : Stage} {e : ℕ × Action}

/-- What the callers, the channels and the cache know is what Turnkey answered. -/
structure Told (b : BootProofs) : Prop where
  outcome : ∀ i n answer, (b.stage i).sender = some n → (b.stage i).outcome = some answer →
    (b.lookups n).outcome = some answer
  looking : ∀ i n, b.stage i = .looking n → (b.lookups n).outcome = none
  sent : ∀ n answer, n < b.started → (b.lookups n).sent = some answer →
    (b.lookups n).outcome = some answer
  cached : ∀ key body, b.cache.lookup key = some body →
    ∃ n < b.started, (b.lookups n).ephemeralKey = key ∧ (b.lookups n).outcome = some (.ok body)
  waiting : ∀ i n, b.stage i = .waiting n → n < b.started ∧ (b.lookups n).ephemeralKey = b.key i

theorem Told.move (told : b.Told)
    (houtcome : ∀ n answer, stage.sender = some n → stage.outcome = some answer →
      (b.lookups n).outcome = some answer)
    (hlooking : ∀ n, stage ≠ .looking n)
    (hwaiting : ∀ n, stage = .waiting n → n < b.started ∧ (b.lookups n).ephemeralKey = b.key i) :
    (b.moveTo i stage).Told := by
  refine ⟨?_, ?_, told.sent, told.cached, ?_⟩
  · intro j n answer hj
    rw [moveTo_stage] at hj ⊢
    split_ifs at hj ⊢
    · exact houtcome n answer hj
    · exact told.outcome j n answer hj
  · intro j n hj
    rw [moveTo_stage] at hj
    split_ifs at hj
    · exact absurd hj (hlooking n)
    · exact told.looking j n hj
  · intro j n hj
    rw [moveTo_stage] at hj
    split_ifs at hj with hji
    · rw [hji]
      exact hwaiting n hj
    · exact told.waiting j n hj

/-- A caller that has no part in a lookup. -/
theorem Told.step_aside (told : b.Told) (hsender : stage.sender = none)
    (hwaiting : ∀ n, stage = .waiting n → n < b.started ∧ (b.lookups n).ephemeralKey = b.key i) :
    (b.moveTo i stage).Told := by
  refine told.move ?_ ?_ hwaiting
  · intro n answer h
    rw [hsender] at h
    cases h
  · rintro n rfl
    cases hsender

/-- A caller that writes to the lookup it makes. -/
theorem Told.advance {lookup : Lookup} (told : b.Told) (owned : b.Owned)
    (hi : (b.stage i).sender = some n)
    (hkey : lookup.ephemeralKey = (b.lookups n).ephemeralKey)
    (hgrows : ∀ answer, (b.lookups n).outcome = some answer → lookup.outcome = some answer)
    (hsent : ∀ answer, lookup.sent = some answer → lookup.outcome = some answer)
    (houtcome : ∀ m answer, stage.sender = some m → stage.outcome = some answer →
      m = n ∧ lookup.outcome = some answer)
    (hlooking : ∀ n, stage ≠ .looking n) (hwaiting : ∀ n, stage ≠ .waiting n) :
    ((b.setLookup n lookup).moveTo i stage).Told := by
  have hlookup : ∀ m, ((b.setLookup n lookup).moveTo i stage).lookups m =
      if m = n then lookup else b.lookups m := fun m => setLookup_lookups
  have hstage : ∀ j, ((b.setLookup n lookup).moveTo i stage).stage j =
      if j = i then stage else b.stage j := fun j => moveTo_stage
  -- Only the caller that makes the lookup writes to it.
  have hother : ∀ j m, j ≠ i → (b.stage j).sender = some m → m ≠ n := by
    rintro j m hji hj rfl
    exact hji (owned.distinct j i m hj hi)
  have hsame : ∀ m, (if m = n then lookup else b.lookups m).ephemeralKey =
      (b.lookups m).ephemeralKey := by
    intro m
    split_ifs with hmn
    · rw [hmn, hkey]
    · rfl
  refine ⟨?_, ?_, ?_, ?_, ?_⟩
  · intro j m answer hj hanswer
    rw [hstage] at hj hanswer
    rw [hlookup]
    by_cases hji : j = i
    · rw [if_pos hji] at hj hanswer
      obtain ⟨rfl, h⟩ := houtcome m answer hj hanswer
      rw [if_pos rfl, h]
    · rw [if_neg hji] at hj hanswer
      rw [if_neg (hother j m hji hj)]
      exact told.outcome j m answer hj hanswer
  · intro j m hj
    rw [hstage] at hj
    split_ifs at hj with hji
    · exact absurd hj (hlooking m)
    · rw [hlookup, if_neg (hother j m hji (by rw [hj]; rfl))]
      exact told.looking j m hj
  · intro m answer hm h
    rw [hlookup] at h ⊢
    split_ifs at h ⊢
    · exact hsent answer h
    · exact told.sent m answer hm h
  · intro key body h
    -- An outcome, once there, is not changed: the cache goes by it.
    obtain ⟨m, hm, hmkey, houtcome⟩ := told.cached key body h
    refine ⟨m, hm, ?_, ?_⟩
    · rw [hlookup, hsame, hmkey]
    · rw [hlookup]
      split_ifs with hmn
      · exact hgrows _ (hmn ▸ houtcome)
      · exact houtcome
  · intro j m hj
    rw [hstage] at hj
    split_ifs at hj
    · exact absurd hj (hwaiting m)
    · obtain ⟨hm, hmkey⟩ := told.waiting j m hj
      exact ⟨hm, by rw [hlookup, hsame, hmkey]; rfl⟩

theorem Told.insert {key : String} (told : b.Told) (owned : b.Owned) :
    ((b.insertFlight key).moveTo i (.looking b.started)).Told := by
  have hlookup : ∀ m, ((b.insertFlight key).moveTo i (.looking b.started)).lookups m =
      if m = b.started then ⟨key, none, none, true⟩ else b.lookups m := fun m => setLookup_lookups
  have hstage : ∀ j, ((b.insertFlight key).moveTo i (.looking b.started)).stage j =
      if j = i then .looking b.started else b.stage j := fun j => moveTo_stage
  -- The new lookup has no outcome yet, and nobody goes by it.
  have hold : ∀ j m, (b.stage j).sender = some m → m ≠ b.started :=
    fun j m hj => (owned.sender j m hj).1.ne
  refine ⟨?_, ?_, ?_, ?_, ?_⟩
  · intro j m answer hj hanswer
    rw [hstage] at hj hanswer
    split_ifs at hj hanswer
    · cases hanswer
    · rw [hlookup, if_neg (hold j m hj)]
      exact told.outcome j m answer hj hanswer
  · intro j m hj
    rw [hstage] at hj
    rw [hlookup]
    split_ifs at hj with hji
    · obtain rfl := Stage.looking.inj hj
      rw [if_pos rfl]
    · rw [if_neg (hold j m (by rw [hj]; rfl))]
      exact told.looking j m hj
  · intro m answer hm h
    have hm : m < b.started + 1 := hm
    rw [hlookup] at h ⊢
    by_cases hnew : m = b.started
    · rw [if_pos hnew] at h
      cases h
    · rw [if_neg hnew] at h ⊢
      exact told.sent m answer (by omega) h
  · intro key body h
    obtain ⟨m, hm, hmkey, houtcome⟩ := told.cached key body h
    refine ⟨m, Nat.lt_succ_of_lt hm, ?_⟩
    rw [hlookup, if_neg hm.ne]
    exact ⟨hmkey, houtcome⟩
  · intro j m hj
    rw [hstage] at hj
    split_ifs at hj
    obtain ⟨hm, hmkey⟩ := told.waiting j m hj
    refine ⟨Nat.lt_succ_of_lt hm, ?_⟩
    rw [hlookup, if_neg hm.ne]
    exact hmkey

theorem Told.cacheBootProof {body : Bytes} (told : b.Told) (hn : n < b.started)
    (houtcome : (b.lookups n).outcome = some (.ok body)) :
    (b.cacheBootProof (b.lookups n).ephemeralKey body).Told := by
  refine ⟨told.outcome, told.looking, told.sent, ?_, told.waiting⟩
  intro key body' h
  have hlookup : ((if BOOT_PROOF_CACHE_CAPACITY ≤ b.cache.size then ∅ else b.cache).insert
      (b.lookups n).ephemeralKey body).lookup key = some body' := h
  rw [Table.lookup_insert_eq] at hlookup
  split_ifs at hlookup with hkey
  · obtain rfl := Option.some.inj hlookup
    exact ⟨n, hn, hkey.symm, houtcome⟩
  · cases hlookup
  · exact told.cached key body' hlookup

theorem Told.landing {key : String} (told : b.Told) : (b.landing n key).Told := by
  rw [BootProofs.landing]
  split_ifs
  · exact ⟨told.outcome, told.looking, told.sent, told.cached, told.waiting⟩
  · exact told

theorem Told.call {key : String} (told : b.Told) (h : b.stage i = .idle) :
    Told { b with key := Function.update b.key i key } := by
  refine ⟨told.outcome, told.looking, told.sent, told.cached, ?_⟩
  intro j n hj
  have hji : j ≠ i := by
    rintro rfl
    have hj : b.stage j = .waiting n := hj
    rw [h] at hj
    cases hj
  obtain ⟨hn, hkey⟩ := told.waiting j n hj
  exact ⟨hn, by rw [hkey]; exact (Function.update_of_ne hji _ _).symm⟩

theorem Told.step (told : b.Told) (owned : b.Owned) (h : Step b e b') : b'.Told := by
  cases h with
  | call ephemeralKey h =>
    refine (told.call h).step_aside ?_ ?_ <;> split_ifs <;> simp [Stage.sender]
  | hit h | miss h | pass h | hear h | abandoned h | refused h | permit h | yield h
  | leaveFlight h => exact told.step_aside rfl (by simp)
  | @join i n h flight =>
    -- Whoever joins waits for the lookup that the flight's owner makes.
    refine told.step_aside rfl ?_
    rintro m hm
    obtain rfl := Stage.waiting.inj hm
    obtain ⟨j, hkey, hguard⟩ := owned.flight _ n flight
    obtain ⟨hlt, -, hlookup⟩ := owned.sender j n (Stage.sender_of_guard hguard)
    exact ⟨hlt, hlookup.trans hkey⟩
  | insert h flight => exact told.insert owned
  | @fetch i n answer h =>
    have hn : n < b.started := (owned.sender i n (by rw [h]; rfl)).1
    -- Turnkey's answer becomes the outcome of a lookup that had none, and of which nothing was
    -- sent.
    have hlooking := told.looking i n h
    refine told.advance owned (by rw [h]; rfl) rfl ?_ ?_ ?_ (by simp) (by simp)
    · intro a ha
      rw [hlooking] at ha
      cases ha
    · intro a ha
      rw [told.sent n a hn ha] at hlooking
      cases hlooking
    · intro m a hm ha
      exact ⟨(Option.some.inj hm).symm, ha⟩
  | @store i n answer h =>
    have hsender : (b.stage i).sender = some n := by rw [h]; rfl
    obtain ⟨hn, -, hkey⟩ := owned.sender i n hsender
    -- The caller carries the outcome of its own lookup to the cache.
    have houtcome : (b.lookups n).outcome = some answer :=
      told.outcome i n answer hsender (by rw [h]; rfl)
    have hmove : ∀ m a, (Stage.cached n answer).sender = some m →
        (Stage.cached n answer).outcome = some a → (b.lookups m).outcome = some a := by
      rintro m a hm ha
      obtain rfl := Option.some.inj hm
      obtain rfl := Option.some.inj ha
      exact houtcome
    cases answer with
    | ok body =>
      have stored := told.cacheBootProof hn houtcome
      rw [hkey] at stored
      exact stored.move hmove (by simp) (by simp)
    | error => exact told.move hmove (by simp) (by simp)
  | @send i n answer h =>
    have hsender : (b.stage i).sender = some n := by rw [h]; rfl
    -- And then to those who wait for it.
    have houtcome : (b.lookups n).outcome = some answer :=
      told.outcome i n answer hsender (by rw [h]; rfl)
    refine told.advance owned hsender rfl (fun _ ha => ha) ?_ ?_ (by simp) (by simp)
    · intro a ha
      obtain rfl := Option.some.inj ha
      exact houtcome
    · intro m a hm ha
      obtain rfl := Option.some.inj ha
      exact ⟨(Option.some.inj hm).symm, houtcome⟩
  | @land i n answer h =>
    refine told.landing.move ?_ (by simp) (by simp)
    rintro m a hm ha
    obtain rfl := Option.some.inj hm
    rw [landing_lookups]
    exact told.outcome i n a (by rw [h]; rfl) (by rw [h]; exact ha)
  | leaveLookup h =>
    refine told.landing.move ?_ (by simp) (by simp)
    intro m a hm ha
    cases ha
  | @close i n answer h =>
    have hn : n < b.started := (owned.sender i n (by rw [h]; rfl)).1
    refine told.advance owned (by rw [h]; rfl) rfl (fun _ ha => ha) (fun a ha => told.sent n a hn ha)
      ?_ ?_ ?_ <;> cases answer <;> simp [Stage.sender]

theorem Told.new : BootProofs.new.Told := by
  refine ⟨?_, ?_, ?_, ?_, ?_⟩
  · intro i n answer h
    cases h
  · intro i n h
    cases h
  · intro n answer h
    cases h
  · intro key body h
    cases h
  · intro i n h
    cases h

end BootProofs

end ZolanaTvc.Gateway
