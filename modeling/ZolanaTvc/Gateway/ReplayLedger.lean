import ZolanaTvc.Gateway.Handlers
import ZolanaTvc.Gateway.Record

/-!
# The replay ledger

A project's first outcome of a ciphertext is kept in the process, or in a store that all tasks of the
gateway share. The store executes each command at one instant, and drops an entry at some time after its
expiry. Instants and windows are counted in nanoseconds.
-/

namespace ZolanaTvc.Gateway

open Protocol

section Keys

/-- What the digest of a key is taken of. -/
def Key.input (project : ProjectId) (ciphertext : Bytes) : Bytes := utf8 project.text ++ 0 :: ciphertext

def Key.of (sha256 : Bytes → ByteArrayOf 32) (project : ProjectId) (ciphertext : Bytes) : Key :=
  ⟨sha256 (Key.input project ciphertext)⟩

theorem ProjectId.zero_notMem (project : ProjectId) : 0 ∉ utf8 project.text := by
  intro hmem
  have hvalid := project.valid
  simp only [isProjectId, Bool.and_eq_true, List.all_eq_true] at hvalid
  have hzero := hvalid.2 0 hmem
  revert hzero
  decide

/-- A project's name holds no NUL, so the pair can be told from the input. -/
theorem Key.input_injective {project project' : ProjectId} {ciphertext ciphertext' : Bytes}
    (h : input project ciphertext = input project' ciphertext') :
    project = project' ∧ ciphertext = ciphertext' := by
  have hcut : ∀ {p q c d : Bytes}, 0 ∉ p → 0 ∉ q → p ++ 0 :: c = q ++ 0 :: d → p = q ∧ c = d := by
    intro p
    induction p with
    | nil =>
      rintro (_ | ⟨b, q⟩) c d - hq h
      · exact ⟨rfl, (List.cons.inj h).2⟩
      · exact absurd (List.mem_cons.2 (.inl (List.cons.inj h).1)) hq
    | cons a p ih =>
      rintro (_ | ⟨b, q⟩) c d hp hq h
      · exact absurd (List.mem_cons.2 (.inl (List.cons.inj h).1.symm)) hp
      · obtain ⟨rfl, htail⟩ := List.cons.inj h
        obtain ⟨rfl, rfl⟩ := ih (List.not_mem_of_not_mem_cons hp) (List.not_mem_of_not_mem_cons hq) htail
        exact ⟨rfl, rfl⟩
  obtain ⟨htext, rfl⟩ := hcut project.zero_notMem project'.zero_notMem h
  obtain ⟨text, valid⟩ := project
  obtain ⟨text', valid'⟩ := project'
  obtain rfl : text = text' := utf8_injective htext
  exact ⟨rfl, rfl⟩

end Keys

section Shared

def KEY_PREFIX : String := "tvc-gateway:replay:"

def NANOS_PER_SEC : ℕ := 1000000000

/-- A text that the store keeps until it expires. -/
structure Held where
  text : String
  expires : ℕ

/-- Every gateway task shares the ledger through one store. -/
structure SharedLedger where
  store : Table String Held
  windowSecs : ℕ

namespace SharedLedger

def redisKey (key : Key) : String := KEY_PREFIX ++ encodeLowerHex key.digest.val

def window (ledger : SharedLedger) : ℕ := ledger.windowSecs * NANOS_PER_SEC

def get (ledger : SharedLedger) (key : Key) : Option Held := ledger.store.lookup (redisKey key)

def put (ledger : SharedLedger) (key : Key) (text : String) (now : ℕ) : SharedLedger :=
  { ledger with store := ledger.store.insert (redisKey key) ⟨text, now + ledger.window⟩ }

/-- `SET key running NX GET EX window`, which answers what the key held. -/
def setNx (ledger : SharedLedger) (key : Key) (now : ℕ) : Option String × SharedLedger :=
  match ledger.get key with
  | none => (none, ledger.put key RUNNING now)
  | some held => (some held.text, ledger)

/-- `SET key text XX EX window` -/
def setXx (ledger : SharedLedger) (key : Key) (text : String) (now : ℕ) : SharedLedger :=
  if (ledger.get key).isSome then ledger.put key text now else ledger

/-- `DEL key`, and what an expired key comes to. -/
def del (ledger : SharedLedger) (key : Key) : SharedLedger :=
  { ledger with store := ledger.store.erase (redisKey key) }

end SharedLedger

end Shared

namespace SharedLedger

variable {ledger : SharedLedger} {key key' : Key} {text : String} {now : ℕ}

theorem redisKey_injective : Function.Injective redisKey := by
  intro key key' h
  have hchars := congrArg String.toList h
  rw [redisKey, redisKey, String.toList_append, String.toList_append] at hchars
  have hhex := encodeLowerHex_injective (String.toList_injective (List.append_cancel_left hchars))
  obtain ⟨digest⟩ := key
  obtain ⟨digest'⟩ := key'
  exact congrArg Key.mk (Subtype.ext hhex)

theorem get_put : (ledger.put key text now).get key' =
    if key' = key then some ⟨text, now + ledger.window⟩ else ledger.get key' := by
  rw [get, put, Table.lookup_insert_eq, get]
  simp only [redisKey_injective.eq_iff]

theorem get_del : (ledger.del key).get key' = if key' = key then none else ledger.get key' := by
  rw [get, del, Table.lookup_erase_eq, get]
  simp only [redisKey_injective.eq_iff]

theorem get_setXx : (ledger.setXx key text now).get key' =
    if key' = key then (ledger.get key).map fun _ => ⟨text, now + ledger.window⟩
    else ledger.get key' := by
  rw [setXx]
  by_cases hkey : key' = key
  · subst hkey
    cases hget : ledger.get key' with
    | none => simp [hget]
    | some held => simp [get_put]
  · split_ifs
    · rw [get_put, if_neg hkey]
    · rfl

@[simp] theorem window_put : (ledger.put key text now).window = ledger.window := rfl

@[simp] theorem window_setXx : (ledger.setXx key text now).window = ledger.window := by
  rw [setXx]
  split_ifs <;> rfl

variable {http : Http} {held : Option String}

theorem claim_eq_new {key' : Key} (h : claim http key (some held) = .ok (.new key')) : held = none := by
  cases held with
  | none => rfl
  | some text =>
    rw [claim_text] at h
    simp only [Except.bind_eq_ok, Except.pure_eq_ok] at h
    obtain ⟨_, -, record, -, outcome, -, hclaim⟩ := h
    cases hclaim

end SharedLedger

/-- The first outcome of each project's ciphertext within the window. -/
inductive ReplayLedger where
  | local (ledger : LocalLedger)
  | shared (ledger : SharedLedger)

namespace ReplayLedger

/-- `ReplayLedger::claim`, when the command is executed and its answer arrives. -/
def claim (http : Http) (key : Key) (now : ℕ) : ReplayLedger → Except ApiError Claim × ReplayLedger
  | .local ledger => ((ledger.claim key now).1, .local (ledger.claim key now).2)
  | .shared ledger =>
    (SharedLedger.claim http key (some (ledger.setNx key now).1), .shared (ledger.setNx key now).2)

/-- `ReplayLedger::release`, when the command is executed. -/
def release (key : Key) : ReplayLedger → ReplayLedger
  | .local ledger => .local (ledger.release key)
  | .shared ledger => .shared (ledger.del key)

/-- An answer that the ledger does not keep. -/
def Oversize (outcome : Outcome) : Prop :=
  ∃ answer, outcome = .ok answer ∧ AppState.MAX_KEPT_ANSWER_BYTES < answer.body.length

instance Oversize.decidable (outcome : Outcome) : Decidable (Oversize outcome) :=
  match outcome with
  | .ok answer => decidable_of_iff (AppState.MAX_KEPT_ANSWER_BYTES < answer.body.length) (by simp [Oversize])
  | .error _ => isFalse (by simp [Oversize])

/-- `ReplayLedger::record`, when the command is executed. -/
def record (http : Http) (key : Key) (outcome : Outcome) (now : ℕ) (ledger : ReplayLedger) :
    ReplayLedger :=
  if Oversize outcome then ledger.release key
  else
    match ledger with
    | .local ledger => .local (ledger.record key outcome)
    | .shared ledger =>
      match SharedLedger.stored http outcome with
      | some text => .shared (ledger.setXx key text now)
      | none => .shared ledger

end ReplayLedger

end ZolanaTvc.Gateway
