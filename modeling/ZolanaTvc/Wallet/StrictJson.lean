import Mathlib.Data.List.DropRight
import ZolanaTvc.Control.Loop
import ZolanaTvc.Wallet.JsonParse

/-!
# The strict JSON parser

`JSON.parse` keeps the last of two members with one name. A scanner of the client goes over the text
first and refuses such an object; it is looser than the grammar everywhere else, and leaves the rest to
`JSON.parse`.
-/

namespace ZolanaTvc.Wallet

open Except Json CodeUnit

section Scanner

def skipWs : JsString → JsString := List.dropWhile isWhite

/-- The text goes on with this character. -/
def startsWith (c : Char) (s : JsString) : Bool := s.head?.any (isChar c)

/-- `Number.parseInt(hex, 16)`; `none` is `NaN`. -/
def parseInt16 (hex : JsString) : Option ℤ :=
  let s := hex.dropWhile isWhite
  let negative := startsWith '-' s
  let s := if negative || startsWith '+' s then s.tail else s
  let s := if startsWith '0' s && (startsWith 'x' s.tail || startsWith 'X' s.tail) then s.drop 2
    else s
  let ds := (s.takeWhile fun u => (hexValue u.toNat).isSome).filterMap fun u => hexValue u.toNat
  if ds = [] then none
  else
    let n : ℤ := ofDigits 16 (ds.map Fin.val)
    some (if negative then -n else n)

/-- `String.fromCharCode`, to which `NaN` is zero. -/
def fromCharCode (n : Option ℤ) : UInt16 := UInt16.ofNat (n.getD 0 % 2 ^ 16).toNat

/-- A turn of the loop over a string: the value so far, and the text from the next unit on. -/
def stringTurn (state : JsString × JsString) :
    Except Thrown (Turn (JsString × JsString) (JsString × JsString)) :=
  match state with
  | (_, []) => throw (spr "InvalidCanonicalJson")
  | (value, ch :: s) =>
    if isChar '"' ch then return .done (value, s)
    else if isChar '\\' ch then
      match s with
      | [] => throw (spr "InvalidCanonicalJson")
      | next :: s =>
        match escapeValue next.toNat with
        | some v => return .again (value ++ [v], s)
        | none =>
          if isChar 'u' next then
            -- The index may pass the end of the text here; the loop then throws.
            return .again (value ++ [fromCharCode (parseInt16 (s.take 4))], s.drop 4)
          else throw (spr "InvalidCanonicalJson")
    else return .again (value ++ [ch], s)

/-- The value of the string a text starts with, and the rest. -/
def parseString (text : JsString) : Except Thrown (JsString × JsString) := do
  refuse (startsWith '"' text = false) (spr "InvalidCanonicalJson")
  loop .platform stringTurn text.length ([], text.tail)

/-- A turn of the loop over the members of an object: the names seen, and the text from the next
member on. -/
def memberTurn (parseValue : JsString → Except Thrown JsString) (state : List JsString × JsString) :
    Except Thrown (Turn (List JsString × JsString) JsString) := do
  let (seen, text) := state
  refuse (text = []) (spr "InvalidCanonicalJson")
  let (key, text) ← parseString (skipWs text)
  refuse (key ∈ seen) (spr "DuplicateJsonField")
  let text := skipWs text
  refuse (startsWith ':' text = false) (spr "InvalidCanonicalJson")
  let text ← parseValue text.tail
  let text := skipWs text
  if startsWith ',' text then return .again (key :: seen, text.tail)
  refuse (startsWith '}' text = false) (spr "InvalidCanonicalJson")
  return .done text.tail

/-- A turn of the loop over the items of an array. -/
def itemTurn (parseValue : JsString → Except Thrown JsString) (text : JsString) :
    Except Thrown (Turn JsString JsString) := do
  refuse (text = []) (spr "InvalidCanonicalJson")
  let text ← parseValue text
  let text := skipWs text
  if startsWith ',' text then return .again text.tail
  refuse (startsWith ']' text = false) (spr "InvalidCanonicalJson")
  return .done text.tail

/-- The code units of numbers and words. -/
def isLiteral (u : UInt16) : Bool :=
  (digitValue u.toNat).isSome ||
    ['e', 'E', '+', '.', '-', 't', 'r', 'u', 'f', 'a', 'l', 's', 'n'].any fun c => isChar c u

/-- One call of `parseValue`, given what the calls it makes return. -/
def valueWith (parseValue : JsString → Except Thrown JsString) (text : JsString) :
    Except Thrown JsString :=
  match skipWs text with
  | [] => throw (spr "InvalidCanonicalJson")
  | ch :: s =>
    if isChar '{' ch then
      let s := skipWs s
      if startsWith '}' s then return s.tail
      else loop .platform (memberTurn parseValue) (s.length + 1) ([], s)
    else if isChar '[' ch then
      let s := skipWs s
      if startsWith ']' s then return s.tail
      else loop .platform (itemTurn parseValue) (s.length + 1) s
    else if isChar '"' ch then do
      let (_, rest) ← parseString (ch :: s)
      return rest
    else if isChar 't' ch || isChar 'f' ch || isChar 'n' ch || isChar '-' ch ||
        (digitValue ch.toNat).isSome then
      -- A literal is skipped only; whether it is one, `JSON.parse` says.
      return (ch :: s).dropWhile isLiteral
    else throw (spr "InvalidCanonicalJson")

/-- The text after the value it starts with. The calls may nest `n` deep; running out of them is the
only error of the platform. -/
def parseValue : ℕ → JsString → Except Thrown JsString
  | 0, _ => throw .platform
  | n + 1, text => valueWith (parseValue n) text

end Scanner

/-- The value of a text in which no object names a member twice. -/
def parseStrictJson (text : JsString) (exactKeys : Option (List JsString)) :
    Except Thrown JsValue := do
  let rest ← parseValue (text.length + 1) text
  refuse (skipWs rest ≠ []) (spr "InvalidCanonicalJson")
  let value ← ofOption (jsonParse text) .platform
  match exactKeys, value with
  | some exactKeys, .obj members =>
    refuse (∃ m ∈ members, m.1 ∉ exactKeys) (spr "UnknownJsonField")
    refuse (members.length ≠ exactKeys.length) (spr "InvalidCanonicalJson")
    return value
  | _, _ => return value

section Progress

variable {nested : JsString → Except Thrown JsString}

theorem length_skipWs_le (s : JsString) : (skipWs s).length ≤ s.length :=
  List.length_dropWhile_le isWhite s

/-- What follows a character that a text goes on with is shorter. -/
theorem length_tail_lt {c : Char} {s : JsString} (h : startsWith c s = true) :
    s.tail.length < s.length := by
  cases s with
  | nil => simp [startsWith] at h
  | cons u s => exact Nat.lt_succ_self _

theorem length_tail_skipWs_lt {c : Char} {s : JsString} (h : startsWith c (skipWs s) = true) :
    (skipWs s).tail.length < s.length := by
  have hle := length_skipWs_le s
  have hlt := length_tail_lt h
  omega

theorem stringTurn_progress (x : JsString × JsString) :
    (∀ y, stringTurn x = .ok (.again y) → y.2.length < x.2.length) ∧
      (∀ r, stringTurn x = .ok (.done r) → r.2.length < x.2.length) ∧
      stringTurn x ≠ .error .platform := by
  obtain ⟨value, s⟩ := x
  cases s with
  | nil => simp [stringTurn]
  | cons ch s =>
    simp only [stringTurn]
    split_ifs with hquote hslash
    · simp
    · cases s with
      | nil => simp
      | cons next s =>
        cases hvalue : escapeValue next.toNat with
        | some v => simp [hvalue]
        | none =>
          by_cases hu : isChar 'u' next = true
          · simp [hvalue, hu]
            omega
          · simp [hvalue, hu]
    · simp

/-- What a turn over an object has gone over when it returns. -/
theorem memberTurn_eq_ok {x : List JsString × JsString} {t : Turn (List JsString × JsString) JsString} :
    memberTurn nested x = .ok t ↔ x.2 ≠ [] ∧ ∃ key s r,
      parseString (skipWs x.2) = .ok (key, s) ∧ key ∉ x.1 ∧ startsWith ':' (skipWs s) = true ∧
      nested (skipWs s).tail = .ok r ∧
      (startsWith ',' (skipWs r) = true ∧ t = .again (key :: x.1, (skipWs r).tail) ∨
        startsWith ',' (skipWs r) = false ∧ startsWith '}' (skipWs r) = true ∧
          t = .done (skipWs r).tail) := by
  obtain ⟨seen, text⟩ := x
  simp only [memberTurn, bind_eq_ok, refuse_eq_ok, exists_and_left, exists_const, Prod.exists,
    Bool.not_eq_false]
  refine and_congr_right fun _ => ?_
  refine exists_congr fun key => exists_congr fun s => ?_
  refine and_congr_right fun _ => and_congr_right fun _ => and_congr_right fun _ =>
    exists_congr fun r => and_congr_right fun _ => ?_
  by_cases hcomma : startsWith ',' (skipWs r) = true
  · simp only [hcomma, if_true, pure_eq_ok, true_and, Bool.true_eq_false, false_and, or_false]
    exact eq_comm
  · rw [Bool.not_eq_true] at hcomma
    simp only [hcomma, Bool.false_eq_true, if_false, bind_eq_ok, refuse_eq_ok, pure_eq_ok,
      exists_const, Bool.not_eq_false, false_and, false_or, true_and]
    exact and_congr_right fun _ => eq_comm

theorem itemTurn_eq_ok {text : JsString} {t : Turn JsString JsString} :
    itemTurn nested text = .ok t ↔ text ≠ [] ∧ ∃ r, nested text = .ok r ∧
      (startsWith ',' (skipWs r) = true ∧ t = .again (skipWs r).tail ∨
        startsWith ',' (skipWs r) = false ∧ startsWith ']' (skipWs r) = true ∧
          t = .done (skipWs r).tail) := by
  simp only [itemTurn, bind_eq_ok, refuse_eq_ok, exists_const]
  refine and_congr_right fun _ => exists_congr fun r => and_congr_right fun _ => ?_
  by_cases hcomma : startsWith ',' (skipWs r) = true
  · simp only [hcomma, if_true, pure_eq_ok, true_and, Bool.true_eq_false, false_and, or_false]
    exact eq_comm
  · rw [Bool.not_eq_true] at hcomma
    simp only [hcomma, Bool.false_eq_true, if_false, bind_eq_ok, refuse_eq_ok, pure_eq_ok,
      exists_const, Bool.not_eq_false, false_and, false_or, true_and]
    exact and_congr_right fun _ => eq_comm

/-- A string leaves a shorter text, and is gone over within the text's length. -/
theorem parseString_shortens {text value rest : JsString}
    (h : parseString text = .ok (value, rest)) : rest.length < text.length := by
  rw [parseString, bind_eq_ok] at h
  obtain ⟨_, hquote, h⟩ := h
  rw [refuse_eq_ok, Bool.not_eq_false] at hquote
  obtain ⟨x, hle, hdone⟩ := exists_turn_of_loop (fun x y => (stringTurn_progress x).1 y) h
  have hle : x.2.length ≤ text.tail.length := hle
  have hlt : rest.length < x.2.length := (stringTurn_progress x).2.1 _ hdone
  have htail := length_tail_lt hquote
  omega

theorem parseString_ne_platform (text : JsString) : parseString text ≠ .error .platform := by
  intro h
  rw [parseString, bind_eq_error] at h
  obtain h | ⟨_, hquote, h⟩ := h
  · simp at h
  · rw [refuse_eq_ok, Bool.not_eq_false] at hquote
    exact loop_ne_error (fun x y => (stringTurn_progress x).1 y) (length_tail_lt hquote)
      (fun x _ => (stringTurn_progress x).2.2) h

/-- The calls leave a shorter text than they are given. -/
def Forward (nested : JsString → Except Thrown JsString) : Prop :=
  ∀ s r, nested s = .ok r → r.length < s.length

theorem memberTurn_again (hnested : Forward nested) {x y : List JsString × JsString}
    (h : memberTurn nested x = .ok (.again y)) : y.2.length < x.2.length := by
  obtain ⟨-, key, s, r, hkey, -, hcolon, hvalue, ⟨hcomma, hy⟩ | ⟨-, -, hy⟩⟩ := memberTurn_eq_ok.1 h
  · obtain rfl := Turn.again.inj hy
    have h₁ := length_skipWs_le x.2
    have h₂ := parseString_shortens hkey
    have h₃ := length_tail_skipWs_lt hcolon
    have h₄ := hnested _ _ hvalue
    have h₅ := length_tail_skipWs_lt hcomma
    show (skipWs r).tail.length < x.2.length
    omega
  · exact absurd hy (by simp)

theorem memberTurn_done (hnested : Forward nested) {x : List JsString × JsString} {t : JsString}
    (h : memberTurn nested x = .ok (.done t)) : t.length < x.2.length := by
  obtain ⟨-, key, s, r, hkey, -, hcolon, hvalue, ⟨-, hy⟩ | ⟨-, hclose, hy⟩⟩ := memberTurn_eq_ok.1 h
  · exact absurd hy (by simp)
  · obtain rfl := Turn.done.inj hy
    have h₁ := length_skipWs_le x.2
    have h₂ := parseString_shortens hkey
    have h₃ := length_tail_skipWs_lt hcolon
    have h₄ := hnested _ _ hvalue
    have h₅ := length_tail_skipWs_lt hclose
    omega

theorem itemTurn_again (hnested : Forward nested) {x y : JsString}
    (h : itemTurn nested x = .ok (.again y)) : y.length < x.length := by
  obtain ⟨-, r, hvalue, ⟨hcomma, hy⟩ | ⟨-, -, hy⟩⟩ := itemTurn_eq_ok.1 h
  · obtain rfl := Turn.again.inj hy
    have h₁ := hnested _ _ hvalue
    have h₂ := length_tail_skipWs_lt hcomma
    omega
  · exact absurd hy (by simp)

theorem itemTurn_done (hnested : Forward nested) {x t : JsString}
    (h : itemTurn nested x = .ok (.done t)) : t.length < x.length := by
  obtain ⟨-, r, hvalue, ⟨-, hy⟩ | ⟨-, hclose, hy⟩⟩ := itemTurn_eq_ok.1 h
  · exact absurd hy (by simp)
  · obtain rfl := Turn.done.inj hy
    have h₁ := hnested _ _ hvalue
    have h₂ := length_tail_skipWs_lt hclose
    omega

/-- A turn over an object asks the calls about a later part of its text only. -/
theorem memberTurn_congr {nested' : JsString → Except Thrown JsString}
    {x : List JsString × JsString} (h : ∀ s, s.length < x.2.length → nested' s = nested s) :
    memberTurn nested' x = memberTurn nested x := by
  obtain ⟨seen, text⟩ := x
  simp only [memberTurn]
  congr 1
  funext _
  cases hkey : parseString (skipWs text) with
  | error e => rfl
  | ok r =>
    have h₁ := length_skipWs_le text
    have h₂ := parseString_shortens hkey
    have h₃ := length_skipWs_le r.2
    have htail : (skipWs r.2).tail.length ≤ (skipWs r.2).length := by simp
    have hsame := h (skipWs r.2).tail (by show _ < text.length; omega)
    show (do refuse _ _; refuse _ _; _) = _
    rw [hsame]
    rfl

theorem itemTurn_congr {nested' : JsString → Except Thrown JsString} {text : JsString}
    (h : nested' text = nested text) : itemTurn nested' text = itemTurn nested text := by
  simp only [itemTurn, h]

/-- A turn over an object runs out of calls only where one for a later part of its text does. -/
theorem memberTurn_platform {x : List JsString × JsString}
    (h : memberTurn nested x = .error .platform) :
    ∃ s, s.length < x.2.length ∧ nested s = .error .platform := by
  obtain ⟨seen, text⟩ := x
  simp only [memberTurn, bind_eq_error, refuse_eq_error, refuse_eq_ok, exists_const] at h
  obtain h | ⟨-, h | ⟨⟨key, rest⟩, hkey, h | ⟨-, h | ⟨hcolon, h | ⟨r, hvalue, h⟩⟩⟩⟩⟩ := h
  · simp at h
  · exact absurd h (parseString_ne_platform _)
  · simp at h
  · simp at h
  · have h₁ := length_skipWs_le text
    have h₂ := parseString_shortens hkey
    have h₃ := length_tail_skipWs_lt (by simpa using hcolon)
    exact ⟨(skipWs rest).tail, by show _ < text.length; omega, h⟩
  · split_ifs at h
    · simp at h
    · simp only [bind_eq_error, refuse_eq_error] at h
      simp at h

theorem itemTurn_platform {text : JsString} (h : itemTurn nested text = .error .platform) :
    nested text = .error .platform := by
  simp only [itemTurn, bind_eq_error, refuse_eq_error, refuse_eq_ok, exists_const] at h
  obtain h | ⟨-, h | ⟨r, hvalue, h⟩⟩ := h
  · simp at h
  · exact h
  · split_ifs at h
    · simp at h
    · simp only [bind_eq_error, refuse_eq_error] at h
      simp at h

theorem decreases_memberTurn (h : Forward nested) :
    Decreases (memberTurn nested) fun x => x.2.length :=
  fun _ _ => memberTurn_again h

theorem decreases_itemTurn (h : Forward nested) : Decreases (itemTurn nested) List.length :=
  fun _ _ => itemTurn_again h

theorem isLiteral_of_head {u : UInt16} (h : (isChar 't' u || isChar 'f' u || isChar 'n' u ||
    isChar '-' u || (digitValue u.toNat).isSome) = true) : isLiteral u = true := by
  simp only [Bool.or_eq_true] at h
  simp only [isLiteral, List.any_cons, List.any_nil, Bool.or_eq_true]
  tauto

theorem valueWith_forward (hnested : Forward nested) : Forward (valueWith nested) := by
  intro text r h
  have hskip := length_skipWs_le text
  rw [valueWith] at h
  cases htext : skipWs text with
  | nil => simp [htext] at h
  | cons ch s =>
    have hs := length_skipWs_le s
    rw [htext, List.length_cons] at hskip
    simp only [htext] at h
    -- The six ways out of the call: each takes at least the first unit, the loops by their last
    -- turn.
    split_ifs at h with hbrace hclose hbracket hclose hquote hliteral
    · obtain rfl := pure_eq_ok.1 h
      have hlt := length_tail_lt hclose
      omega
    · obtain ⟨x, hle, hdone⟩ := exists_turn_of_loop (decreases_memberTurn hnested) h
      have hle : x.2.length ≤ (skipWs s).length := hle
      have hlt := memberTurn_done hnested hdone
      omega
    · obtain rfl := pure_eq_ok.1 h
      have hlt := length_tail_lt hclose
      omega
    · obtain ⟨x, hle, hdone⟩ := exists_turn_of_loop (decreases_itemTurn hnested) h
      have hlt := itemTurn_done hnested hdone
      omega
    · obtain ⟨⟨value, rest⟩, hstring, h⟩ := bind_eq_ok.1 h
      obtain rfl := pure_eq_ok.1 h
      have hlt : rest.length < (ch :: s).length := parseString_shortens hstring
      rw [List.length_cons] at hlt
      show rest.length < text.length
      omega
    · obtain rfl := pure_eq_ok.1 h
      rw [List.dropWhile_cons_of_pos (isLiteral_of_head hliteral)]
      have hle := List.length_dropWhile_le isLiteral s
      omega

theorem parseValue_forward (n : ℕ) : Forward (parseValue n) := by
  induction n with
  | zero =>
    intro s r h
    exact absurd h (by simp [parseValue])
  | succ n ih => exact valueWith_forward ih

/-- A call asks the calls it makes about a later part of its text only. -/
theorem valueWith_congr {nested' : JsString → Except Thrown JsString} (hnested : Forward nested)
    {text : JsString} (h : ∀ s, s.length < text.length → nested' s = nested s) :
    valueWith nested' text = valueWith nested text := by
  have hskip := length_skipWs_le text
  rw [valueWith, valueWith]
  cases htext : skipWs text with
  | nil => rfl
  | cons ch s =>
    have hs := length_skipWs_le s
    rw [htext, List.length_cons] at hskip
    have hmembers : loop .platform (memberTurn nested') ((skipWs s).length + 1) ([], skipWs s) =
        loop .platform (memberTurn nested) ((skipWs s).length + 1) ([], skipWs s) := by
      refine loop_congr (decreases_memberTurn hnested) fun x hx => memberTurn_congr fun t ht => ?_
      have hx : x.2.length ≤ (skipWs s).length := hx
      exact h t (by omega)
    have hitems : loop .platform (itemTurn nested') ((skipWs s).length + 1) (skipWs s) =
        loop .platform (itemTurn nested) ((skipWs s).length + 1) (skipWs s) :=
      loop_congr (decreases_itemTurn hnested) fun x hx => itemTurn_congr (h x (by omega))
    simp only [hmembers, hitems]

theorem valueWith_ne_platform (hnested : Forward nested) {text : JsString}
    (h : ∀ s, s.length < text.length → nested s ≠ .error .platform) :
    valueWith nested text ≠ .error .platform := by
  have hskip := length_skipWs_le text
  rw [valueWith]
  cases htext : skipWs text with
  | nil => simp
  | cons ch s =>
    have hs := length_skipWs_le s
    rw [htext, List.length_cons] at hskip
    simp only
    split_ifs with hbrace hclose hbracket hclose hquote hliteral
    · simp
    · refine loop_ne_error (decreases_memberTurn hnested) (Nat.lt_succ_self _) fun x hx hthrow => ?_
      have hx : x.2.length ≤ (skipWs s).length := hx
      obtain ⟨t, ht, hplatform⟩ := memberTurn_platform hthrow
      exact h t (by omega) hplatform
    · simp
    · refine loop_ne_error (decreases_itemTurn hnested) (Nat.lt_succ_self _) fun x hx hthrow => ?_
      exact h x (by omega) (itemTurn_platform hthrow)
    · simp only [ne_eq, bind_eq_error, parseString_ne_platform, false_or, pure_ne_error, and_false,
        exists_false, not_false_eq_true]
    · simp
    · simp

/-- The scanner ends within as many nested calls as the text is long. -/
theorem parseValue_ne_platform {n : ℕ} {text : JsString} (h : text.length < n) :
    parseValue n text ≠ .error .platform := by
  induction n generalizing text with
  | zero => exact absurd h (Nat.not_lt_zero _)
  | succ n ih =>
    exact valueWith_ne_platform (parseValue_forward n) fun s hs => ih (by omega)

/-- What the scanner throws. -/
def ScanError (e : Thrown) : Prop :=
  e = .platform ∨ e = spr "InvalidCanonicalJson" ∨ e = spr "DuplicateJsonField"

theorem ScanError.invalid : ScanError (spr "InvalidCanonicalJson") := .inr (.inl rfl)

variable {e : Thrown}

theorem stringTurn_error {x : JsString × JsString} (h : stringTurn x = .error e) : ScanError e := by
  unfold stringTurn at h
  split at h
  · exact throw_eq_error.1 h ▸ .invalid
  · split_ifs at h with hquote hescape
    · exact absurd h pure_ne_error
    · split at h
      · exact throw_eq_error.1 h ▸ .invalid
      · split at h
        · exact absurd h pure_ne_error
        · split_ifs at h
          · exact absurd h pure_ne_error
          · exact throw_eq_error.1 h ▸ .invalid
    · exact absurd h pure_ne_error

theorem parseString_error {text : JsString} (h : parseString text = .error e) : ScanError e := by
  rw [parseString, bind_eq_error] at h
  obtain h | ⟨_, -, h⟩ := h
  · exact (refuse_eq_error.1 h).2 ▸ .invalid
  · obtain rfl | ⟨_, hturn⟩ := eq_or_exists_turn_of_loop_eq_error h
    · exact .inl rfl
    · exact stringTurn_error hturn

theorem memberTurn_error (hnested : ∀ s e, nested s = .error e → ScanError e)
    {x : List JsString × JsString} (h : memberTurn nested x = .error e) : ScanError e := by
  simp only [memberTurn, bind_eq_error, refuse_eq_error, refuse_eq_ok, exists_const] at h
  obtain ⟨-, rfl⟩ | ⟨-, h | ⟨_, -, ⟨-, rfl⟩ | ⟨-, ⟨-, rfl⟩ | ⟨-, h | ⟨_, -, h⟩⟩⟩⟩⟩ := h
  · exact .invalid
  · exact parseString_error h
  · exact .inr (.inr rfl)
  · exact .invalid
  · exact hnested _ _ h
  · split_ifs at h
    · exact absurd h pure_ne_error
    · simp only [bind_eq_error, refuse_eq_error, pure_ne_error, and_false, exists_false, or_false] at h
      exact h.2 ▸ .invalid

theorem itemTurn_error (hnested : ∀ s e, nested s = .error e → ScanError e) {text : JsString}
    (h : itemTurn nested text = .error e) : ScanError e := by
  simp only [itemTurn, bind_eq_error, refuse_eq_error, refuse_eq_ok, exists_const] at h
  obtain ⟨-, rfl⟩ | ⟨-, h | ⟨_, -, h⟩⟩ := h
  · exact .invalid
  · exact hnested _ _ h
  · split_ifs at h
    · exact absurd h pure_ne_error
    · simp only [bind_eq_error, refuse_eq_error, pure_ne_error, and_false, exists_false, or_false] at h
      exact h.2 ▸ .invalid

theorem valueWith_error (hnested : ∀ s e, nested s = .error e → ScanError e) {text : JsString}
    (h : valueWith nested text = .error e) : ScanError e := by
  unfold valueWith at h
  split at h
  · exact throw_eq_error.1 h ▸ .invalid
  · simp only at h
    split_ifs at h
    · exact absurd h pure_ne_error
    · obtain rfl | ⟨_, hturn⟩ := eq_or_exists_turn_of_loop_eq_error h
      · exact .inl rfl
      · exact memberTurn_error hnested hturn
    · exact absurd h pure_ne_error
    · obtain rfl | ⟨_, hturn⟩ := eq_or_exists_turn_of_loop_eq_error h
      · exact .inl rfl
      · exact itemTurn_error hnested hturn
    · obtain h | ⟨_, -, h⟩ := bind_eq_error.1 h
      · exact parseString_error h
      · exact absurd h pure_ne_error
    · exact absurd h pure_ne_error
    · exact throw_eq_error.1 h ▸ .invalid

theorem parseValue_error {n : ℕ} {text : JsString} (h : parseValue n text = .error e) : ScanError e := by
  induction n generalizing text e with
  | zero => exact .inl (throw_eq_error.1 h).symm
  | succ n ih => exact valueWith_error (fun _ _ => ih) h

theorem parseStrictJson_error {text : JsString} {exactKeys : Option (List JsString)}
    (h : parseStrictJson text exactKeys = .error e) : ScanError e ∨ e = spr "UnknownJsonField" := by
  simp only [parseStrictJson, bind_eq_error, refuse_eq_error, refuse_eq_ok, ofOption_eq_error, exists_const] at h
  obtain h | ⟨_, -, ⟨-, rfl⟩ | ⟨-, ⟨-, rfl⟩ | ⟨_, -, h⟩⟩⟩ := h
  · exact .inl (parseValue_error h)
  · exact .inl .invalid
  · exact .inl (.inl rfl)
  · split at h
    · simp only [bind_eq_error, refuse_eq_error, refuse_eq_ok, pure_ne_error, and_false, exists_const,
        or_false] at h
      obtain ⟨-, rfl⟩ | ⟨-, -, rfl⟩ := h
      · exact .inr rfl
      · exact .inl .invalid
    · exact absurd h pure_ne_error
end Progress

section Units

/-- The text does not go on with a unit of a number or a word. -/
def Ends (s : JsString) : Prop := ∀ u ∈ s.head?, isLiteral u = false

theorem eq_ascii {c : Char} {u : UInt16} (hc : c.toNat < 128) (h : isChar c u = true) :
    u = ascii c := by
  refine code_injective ?_
  rw [code_ascii c hc]
  exact of_decide_eq_true h

theorem isWhite_of_isSpace {u : UInt16} (h : isSpace u = true) : isWhite u = true := by
  simp only [isSpace, Bool.or_eq_true] at h
  rcases h with ((h | h) | h) | h <;> rw [eq_ascii (by decide) h] <;> decide

theorem isLiteral_of_isSpace {u : UInt16} (h : isSpace u = true) : isLiteral u = false := by
  simp only [isSpace, Bool.or_eq_true] at h
  rcases h with ((h | h) | h) | h <;> rw [eq_ascii (by decide) h] <;> decide

/-- The characters between the values of a text. -/
def IsStructural (c : Char) : Prop := c ∈ ['"', ',', ':', '[', ']', '{', '}']

theorem isWhite_of_structural {c : Char} (hc : IsStructural c) {u : UInt16}
    (h : isChar c u = true) : isWhite u = false := by
  simp only [IsStructural, List.mem_cons, List.not_mem_nil, or_false] at hc
  rcases hc with rfl | rfl | rfl | rfl | rfl | rfl | rfl <;> rw [eq_ascii (by decide) h] <;> decide

theorem isLiteral_of_structural {c : Char} (hc : IsStructural c) {u : UInt16}
    (h : isChar c u = true) : isLiteral u = false := by
  simp only [IsStructural, List.mem_cons, List.not_mem_nil, or_false] at hc
  rcases hc with rfl | rfl | rfl | rfl | rfl | rfl | rfl <;> rw [eq_ascii (by decide) h] <;> decide

theorem skipWs_of_skipSpace {s s' : JsString} {u : UInt16} (h : skipSpace s = u :: s')
    (hu : isWhite u = false) : skipWs s = u :: s' := by
  induction s with
  | nil => simp [skipSpace] at h
  | cons v s ih =>
    by_cases hv : isSpace v = true
    · rw [skipSpace, List.dropWhile_cons_of_pos hv] at h
      rw [skipWs, List.dropWhile_cons_of_pos (isWhite_of_isSpace hv)]
      exact ih h
    · rw [skipSpace, List.dropWhile_cons_of_neg hv] at h
      rw [skipWs, h, List.dropWhile_cons_of_neg (by simp [hu])]

theorem ends_of_skipSpace {s s' : JsString} {u : UInt16} (h : skipSpace s = u :: s')
    (hu : isLiteral u = false) : Ends s := by
  cases s with
  | nil => simp [skipSpace] at h
  | cons v s =>
    intro w hw
    obtain rfl := Option.some.inj hw
    by_cases hv : isSpace v = true
    · exact isLiteral_of_isSpace hv
    · rw [skipSpace, List.dropWhile_cons_of_neg hv] at h
      obtain ⟨rfl, -⟩ := List.cons.inj h
      exact hu

/-- A text of spaces alone. -/
theorem ends_of_blank {s : JsString} (h : (skipSpace s).isEmpty = true) :
    Ends s ∧ skipWs s = [] := by
  have hall : ∀ u ∈ s, isSpace u = true := by
    rw [List.isEmpty_iff, skipSpace, List.dropWhile_eq_nil_iff] at h
    exact h
  refine ⟨fun u hu => isLiteral_of_isSpace (hall u (List.mem_of_mem_head? hu)), ?_⟩
  rw [skipWs, List.dropWhile_eq_nil_iff]
  exact fun u hu => isWhite_of_isSpace (hall u hu)

theorem isLiteral_of_isNumeric {u : UInt16} (h : isNumeric u) : isLiteral u = true := by
  simp only [isLiteral, List.any_cons, List.any_nil, Bool.or_eq_true]
  rcases h with h | h | h | h | h | h
  · exact .inl h
  all_goals simp [h]

theorem dropWhile_of_takes {k : ℕ} {s r : JsString} (h : Takes (fun u => isLiteral u = true) k s r)
    (hr : Ends r) : s.dropWhile isLiteral = r := by
  obtain ⟨t, rfl, -, ht⟩ := h
  rw [List.dropWhile_append_of_pos ht]
  cases r with
  | nil => rfl
  | cons u r => exact List.dropWhile_cons_of_neg (by simp [hr u rfl])

theorem takes_keyword {cs : List Char} {s r : JsString} (h : keyword cs s = some r) :
    Takes (fun u => ∃ c ∈ cs, isChar c u = true) 0 s r := by
  induction cs generalizing s with
  | nil =>
    obtain rfl := Option.some.inj h
    exact .refl
  | cons c cs ih =>
    cases s with
    | nil => simp [keyword] at h
    | cons u s =>
      rw [keyword] at h
      split_ifs at h with hu
      obtain ⟨t, rfl, -, ht⟩ := ih h
      refine ⟨u :: t, rfl, Nat.zero_le _, List.forall_mem_cons.2 ⟨⟨c, by simp, hu⟩, fun v hv => ?_⟩⟩
      obtain ⟨c', hc', hv⟩ := ht v hv
      exact ⟨c', List.mem_cons_of_mem c hc', hv⟩

end Units

section Strings

theorem hexValue_facts {u : UInt16} {d : Fin 16} (h : hexValue u.toNat = some d) :
    isWhite u = false ∧ isChar '-' u = false ∧ isChar '+' u = false ∧ isChar 'x' u = false ∧
      isChar 'X' u = false := by
  have hrange : 48 ≤ u.toNat ∧ u.toNat ≤ 57 ∨ 97 ≤ u.toNat ∧ u.toNat ≤ 102 ∨
      65 ≤ u.toNat ∧ u.toNat ≤ 70 := by
    unfold hexValue at h
    split_ifs at h with h₁ h₂ h₃
    · exact .inl h₁
    · exact .inr (.inl h₂)
    · exact .inr (.inr h₃)
  have hne : ∀ c : Char, c.toNat < 48 ∨ 102 < c.toNat ∨ 70 < c.toNat ∧ c.toNat < 97 →
      isChar c u = false := by
    intro c hc
    rw [isChar, beq_eq_false_iff_ne]
    show u.toNat ≠ c.toNat
    omega
  refine ⟨?_, hne '-' (by decide), hne '+' (by decide), hne 'x' (by decide), hne 'X' (by decide)⟩
  rw [isWhite, decide_eq_false_iff_not]
  omega

/-- Four hexadecimal digits are read as the code unit they name. -/
theorem fromCharCode_parseInt16 {a b c d v : UInt16} (h : hexEscape a b c d = some v) :
    fromCharCode (parseInt16 [a, b, c, d]) = v := by
  obtain ⟨da, ha, h⟩ := Option.bind_eq_some_iff.1 h
  obtain ⟨db, hb, h⟩ := Option.bind_eq_some_iff.1 h
  obtain ⟨dc, hc, h⟩ := Option.bind_eq_some_iff.1 h
  obtain ⟨dd, hd, h⟩ := Option.bind_eq_some_iff.1 h
  obtain rfl := Option.some.inj h
  replace ha : hexValue a.toNat = some da := ha
  replace hb : hexValue b.toNat = some db := hb
  replace hc : hexValue c.toNat = some dc := hc
  replace hd : hexValue d.toNat = some dd := hd
  obtain ⟨hwhite, hminus, hplus, -, -⟩ := hexValue_facts ha
  obtain ⟨-, -, -, hx, hX⟩ := hexValue_facts hb
  have hparse : parseInt16 [a, b, c, d] =
      some ((((da.val * 16 + db.val) * 16 + dc.val) * 16 + dd.val : ℕ) : ℤ) := by
    simp [parseInt16, startsWith, hwhite, hminus, hplus, hx, hX, ha, hb, hc, hd, ofDigits]
    ring
  rw [hparse, fromCharCode, ofNibbles]
  have hlt : ((da.val * 16 + db.val) * 16 + dc.val) * 16 + dd.val < 2 ^ 16 := by omega
  generalize ((da.val * 16 + db.val) * 16 + dc.val) * 16 + dd.val = n at hlt ⊢
  congr 1
  show ((n : ℤ) % 2 ^ 16).toNat = n
  omega

/-- The scanner goes over a string of the grammar to its end and reads its value. -/
theorem loop_stringTurn {s r : JsString} {ps : List (Piece UInt16)} (h : Spelling s ps r)
    (value : JsString) {n : ℕ} (hn : s.length ≤ n) :
    loop .platform stringTurn n (value, s) = .ok (value ++ unescape ps, r) := by
  -- One turn for each piece of the string: the quote that ends it, a short escape, a long one, a
  -- unit.
  induction h generalizing value n with
  | quote hu =>
    obtain ⟨n, rfl⟩ : ∃ m, n = m + 1 := ⟨n - 1, by simp at hn; omega⟩
    refine loop_done ?_
    simp [stringTurn, hu, unescape]
  | @short u e v s r ps hu he _ ih =>
    obtain ⟨n, rfl⟩ : ∃ m, n = m + 1 := ⟨n - 1, by simp at hn; omega⟩
    have hturn : stringTurn (value, u :: e :: s) = .ok (.again (value ++ [v], s)) := by
      have he : escapeValue e.toNat = some v := he
      simp [stringTurn, eq_ascii (by decide) hu, he]
    rw [loop_again hturn, ih _ (by simp at hn; omega)]
    simp [unescape]
  | @long u e a b c d v s r ps hu he hu' hv _ ih =>
    obtain ⟨n, rfl⟩ : ∃ m, n = m + 1 := ⟨n - 1, by simp at hn; omega⟩
    have hturn : stringTurn (value, u :: e :: a :: b :: c :: d :: s) =
        .ok (.again (value ++ [v], s)) := by
      have he : escapeValue e.toNat = none := he
      simp [stringTurn, eq_ascii (by decide) hu, he, hu', fromCharCode_parseInt16 hv]
    rw [loop_again hturn, ih _ (by simp at hn; omega)]
    simp [unescape]
  | @lit u s r ps _ ih =>
    obtain ⟨n, rfl⟩ : ∃ m, n = m + 1 := ⟨n - 1, by simp at hn; omega⟩
    obtain ⟨-, hquote, hslash⟩ := u.property
    have hturn : stringTurn (value, u.val :: s) = .ok (.again (value ++ [u.val], s)) := by
      simp [stringTurn, hquote, hslash]
    rw [loop_again hturn, ih _ (by simp at hn; omega)]
    simp [unescape]

theorem parseString_of_spelling {u : UInt16} {s r : JsString} {ps : List (Piece UInt16)}
    (hu : isChar '"' u = true) (h : Spelling s ps r) :
    parseString (u :: s) = .ok (unescape ps, r) := by
  have hstart : startsWith '"' (u :: s) = true := hu
  have hloop := loop_stringTurn h [] (Nat.le_succ s.length)
  rw [parseString, bind_eq_ok]
  exact ⟨(), by rw [refuse_eq_ok, hstart]; simp, hloop⟩

end Strings

section Agreement

/-- No object of the text names a member twice, whatever escapes the names are written with. -/
def DistinctNames (t : Json.Tree UInt16) : Prop :=
  t.All (fun _ => True) (fun _ => True) fun ks => (ks.map unescape).Nodup

theorem distinctNames_arr {ts : List (Json.Tree UInt16)} :
    DistinctNames (.arr ts) ↔ ∀ t ∈ ts, DistinctNames t :=
  all_arr

theorem distinctNames_obj {ms : List (List (Piece UInt16) × Json.Tree UInt16)} :
    DistinctNames (.obj ms) ↔
      (ms.map fun m => unescape m.1).Nodup ∧ ∀ m ∈ ms, DistinctNames m.2 := by
  refine all_obj.trans ?_
  rw [List.map_map]
  exact and_congr_right fun _ => and_iff_right fun _ _ => trivial

/-- What goes over a part of a text returns the rest where the part is good, and otherwise throws
because a member is named twice. -/
structure Judges {A : Type} (good : Prop) (result : Except Thrown A) (rest : A) : Prop where
  passes : good → result = .ok rest
  refuses : ¬good → result = .error (spr "DuplicateJsonField")

variable {value : Parser UInt16 (Json.Tree UInt16)} {nested : JsString → Except Thrown JsString}
  {bound : ℕ}

/-- The calls judge what a reader of the grammar reads off a text within the bound. -/
def JudgesReader (value : Parser UInt16 (Json.Tree UInt16))
    (nested : JsString → Except Thrown JsString) (bound : ℕ) : Prop :=
  ∀ s t r, s.length ≤ bound → value s = some (t, r) → Ends r → Judges (DistinctNames t) (nested s) r

theorem startsWith_of_skipSpace {c : Char} (hc : IsStructural c) {s s' : JsString} {u : UInt16}
    (h : skipSpace s = u :: s') (hu : isChar c u = true) :
    startsWith c (skipWs s) = true ∧ (skipWs s).tail = s' := by
  rw [skipWs_of_skipSpace h (isWhite_of_structural hc hu)]
  exact ⟨hu, rfl⟩

/-- A character that a text goes on with is the only one. -/
theorem startsWith_ne {c d : Char} (hc : c.toNat < 128) (hne : c ≠ d) {s : JsString}
    (h : startsWith c s = true) : startsWith d s = false := by
  cases s with
  | nil => rfl
  | cons u s =>
    obtain rfl := eq_ascii hc h
    show isChar d (ascii c : UInt16) = false
    rw [isChar_ascii hc]
    exact decide_eq_false hne.symm

/-- An error of a call is the turn's. -/
theorem itemTurn_throw {s : JsString} {e : Thrown} (hs : s ≠ []) (h : nested s = .error e) :
    itemTurn nested s = .error e := by
  rw [itemTurn, bind_eq_error]
  refine .inr ⟨(), by rw [refuse_eq_ok]; exact hs, ?_⟩
  rw [h]
  rfl

theorem loop_itemTurn (hshort : Shortens value) (hjudges : JudgesReader value nested bound)
    {s r : JsString} {ts : List (Json.Tree UInt16)} (h : Separated value ']' s ts r)
    (hs : s.length ≤ bound) {n : ℕ} (hn : s.length < n) :
    Judges (∀ t ∈ ts, DistinctNames t) (loop .platform (itemTurn nested) n s) r := by
  have hcomma : IsStructural ',' := by simp [IsStructural]
  have hbracket : IsStructural ']' := by simp [IsStructural]
  -- One turn for each item: the last one is followed by the bracket, the others by a comma.
  induction h generalizing n with
  | @last u s s' r t hread hspace hclose =>
    obtain ⟨n, rfl⟩ : ∃ m, n = m + 1 := ⟨n - 1, by omega⟩
    have hitem := hjudges s t s' hs hread
      (ends_of_skipSpace hspace (isLiteral_of_structural hbracket hclose))
    have hne : s ≠ [] := List.ne_nil_of_length_pos ((Nat.zero_le _).trans_lt (hshort _ _ _ hread))
    obtain ⟨hstart, htail⟩ := startsWith_of_skipSpace hbracket hspace hclose
    constructor
    · intro hgood
      refine loop_done (itemTurn_eq_ok.2 ⟨hne, s', hitem.passes (hgood t (by simp)), .inr ?_⟩)
      exact ⟨startsWith_ne (by decide) (by decide) hstart, hstart, by rw [htail]⟩
    · intro hbad
      exact loop_throw (itemTurn_throw hne (hitem.refuses (by simpa using hbad)))
  | @comma u s s' s'' r t ts hread hspace hu _ ih =>
    obtain ⟨n, rfl⟩ : ∃ m, n = m + 1 := ⟨n - 1, by omega⟩
    have hitem := hjudges s t s' hs hread
      (ends_of_skipSpace hspace (isLiteral_of_structural hcomma hu))
    have hlt := hshort _ _ _ hread
    have hne : s ≠ [] := List.ne_nil_of_length_pos ((Nat.zero_le _).trans_lt hlt)
    have hlt' := length_of_skipSpace hspace
    obtain ⟨hstart, htail⟩ := startsWith_of_skipSpace hcomma hspace hu
    by_cases ht : DistinctNames t
    · have hturn : itemTurn nested s = .ok (.again s'') :=
        itemTurn_eq_ok.2 ⟨hne, s', hitem.passes ht, .inl ⟨hstart, by rw [htail]⟩⟩
      rw [loop_again hturn]
      simpa [ht] using ih (by omega) (by omega)
    · refine ⟨fun hgood => absurd (hgood t (by simp)) ht, fun _ => ?_⟩
      exact loop_throw (itemTurn_throw hne (hitem.refuses ht))

/-- The turn over an object goes over a member of the grammar. -/
theorem parseString_of_member {s r : JsString} {m : List (Piece UInt16) × Json.Tree UInt16}
    (h : member value s = some (m, r)) :
    s ≠ [] ∧ ∃ s₁ s₂, parseString (skipWs s) = .ok (unescape m.1, s₁) ∧
      startsWith ':' (skipWs s₁) = true ∧ (skipWs s₁).tail = s₂ ∧ value s₂ = some (m.2, r) ∧
      s₂.length < s.length := by
  obtain ⟨u, s₁, s₂, v, s₃, hspace, hu, hname, hspace', hv, hvalue⟩ := member_eq_some h
  have hquote : IsStructural '"' := by simp [IsStructural]
  have hcolon : IsStructural ':' := by simp [IsStructural]
  obtain ⟨hstart, htail⟩ := startsWith_of_skipSpace hcolon hspace' hv
  have h₁ := length_of_skipSpace hspace
  have h₂ := hname.length_lt
  have h₃ := length_of_skipSpace hspace'
  refine ⟨List.ne_nil_of_length_pos (by omega), s₂, s₃, ?_, hstart, htail, hvalue, by omega⟩
  rw [skipWs_of_skipSpace hspace (isWhite_of_structural hquote hu)]
  exact parseString_of_spelling hu hname

theorem memberTurn_throw {seen : List JsString} {s s₁ key : JsString} (hs : s ≠ [])
    (hkey : parseString (skipWs s) = .ok (key, s₁)) (hcolon : startsWith ':' (skipWs s₁) = true)
    (h : key ∈ seen ∨ nested (skipWs s₁).tail = .error (spr "DuplicateJsonField")) :
    memberTurn nested (seen, s) = .error (spr "DuplicateJsonField") := by
  simp only [memberTurn, bind_eq_error, refuse_eq_error, refuse_eq_ok, exists_const, hkey]
  refine .inr ⟨hs, .inr ⟨(key, s₁), rfl, ?_⟩⟩
  by_cases hseen : key ∈ seen
  · exact .inl ⟨hseen, trivial⟩
  · exact .inr ⟨hseen, .inr ⟨by simp [hcolon], .inl (h.resolve_left hseen)⟩⟩

/-- The members name nothing seen before and nothing twice. -/
def Fresh (seen : List JsString) (ms : List (List (Piece UInt16) × Json.Tree UInt16)) : Prop :=
  (∀ m ∈ ms, unescape m.1 ∉ seen) ∧ (ms.map fun m => unescape m.1).Nodup ∧
    ∀ m ∈ ms, DistinctNames m.2

theorem fresh_cons {seen : List JsString} {m : List (Piece UInt16) × Json.Tree UInt16}
    {ms : List (List (Piece UInt16) × Json.Tree UInt16)} :
    Fresh seen (m :: ms) ↔
      unescape m.1 ∉ seen ∧ DistinctNames m.2 ∧ Fresh (unescape m.1 :: seen) ms := by
  have hnames : unescape m.1 ∉ ms.map (fun n => unescape n.1) ↔
      ∀ n ∈ ms, unescape n.1 ≠ unescape m.1 := by
    rw [List.mem_map, not_exists]
    exact forall_congr' fun n => not_and
  simp only [Fresh, List.forall_mem_cons, List.map_cons, List.nodup_cons, hnames]
  simp only [List.mem_cons, not_or]
  constructor
  · rintro ⟨⟨hnew, hrest⟩, ⟨hfirst, hnodup⟩, hvalue, hvalues⟩
    exact ⟨hnew, hvalue, fun n hn => ⟨hfirst n hn, hrest n hn⟩, hnodup, hvalues⟩
  · rintro ⟨hnew, hvalue, hrest, hnodup, hvalues⟩
    exact ⟨⟨hnew, fun n hn => (hrest n hn).2⟩, ⟨fun n hn => (hrest n hn).1, hnodup⟩, hvalue, hvalues⟩

theorem loop_memberTurn (hshort : Shortens value) (hjudges : JudgesReader value nested bound)
    {s r : JsString} {ms : List (List (Piece UInt16) × Json.Tree UInt16)}
    (h : Separated (member value) '}' s ms r) (hs : s.length ≤ bound) {n : ℕ} (hn : s.length < n)
    (seen : List JsString) :
    Judges (Fresh seen ms) (loop .platform (memberTurn nested) n (seen, s)) r := by
  have hcomma : IsStructural ',' := by simp [IsStructural]
  have hbrace : IsStructural '}' := by simp [IsStructural]
  -- As for items, with the names seen so far: a name seen again is refused before its value is
  -- read.
  induction h generalizing n seen with
  | @last u s s' r m hread hspace hclose =>
    obtain ⟨n, rfl⟩ : ∃ m, n = m + 1 := ⟨n - 1, by omega⟩
    obtain ⟨hne, s₁, s₂, hkey, hcolon, hs₂, hvalue, hlt⟩ := parseString_of_member hread
    have hitem := hjudges s₂ m.2 s' (by omega) hvalue
      (ends_of_skipSpace hspace (isLiteral_of_structural hbrace hclose))
    obtain ⟨hstart, htail⟩ := startsWith_of_skipSpace hbrace hspace hclose
    rw [← hs₂] at hitem
    constructor
    · intro hgood
      obtain ⟨hnew, hdistinct, -⟩ := fresh_cons.1 hgood
      refine loop_done (memberTurn_eq_ok.2 ⟨hne, _, s₁, s', hkey, hnew, hcolon,
        hitem.passes hdistinct, .inr ?_⟩)
      exact ⟨startsWith_ne (by decide) (by decide) hstart, hstart, by rw [htail]⟩
    · intro hbad
      refine loop_throw (memberTurn_throw hne hkey hcolon ?_)
      by_cases hnew : unescape m.1 ∈ seen
      · exact .inl hnew
      · refine .inr (hitem.refuses fun hdistinct => hbad (fresh_cons.2 ⟨hnew, hdistinct, ?_⟩))
        simp [Fresh]
  | @comma u s s' s'' r m ms hread hspace hu _ ih =>
    obtain ⟨n, rfl⟩ : ∃ m, n = m + 1 := ⟨n - 1, by omega⟩
    obtain ⟨hne, s₁, s₂, hkey, hcolon, hs₂, hvalue, hlt⟩ := parseString_of_member hread
    have hitem := hjudges s₂ m.2 s' (by omega) hvalue
      (ends_of_skipSpace hspace (isLiteral_of_structural hcomma hu))
    have hlt' := hshort _ _ _ hvalue
    have hlt'' := length_of_skipSpace hspace
    obtain ⟨hstart, htail⟩ := startsWith_of_skipSpace hcomma hspace hu
    rw [← hs₂] at hitem
    by_cases hgood : unescape m.1 ∉ seen ∧ DistinctNames m.2
    · have hturn : memberTurn nested (seen, s) = .ok (.again (unescape m.1 :: seen, s'')) :=
        memberTurn_eq_ok.2 ⟨hne, _, s₁, s', hkey, hgood.1, hcolon, hitem.passes hgood.2,
          .inl ⟨hstart, by rw [htail]⟩⟩
      rw [loop_again hturn]
      simpa [fresh_cons, hgood] using ih (by omega) (by omega) (unescape m.1 :: seen)
    · constructor
      · intro hfresh
        obtain ⟨hnew, hdistinct, -⟩ := fresh_cons.1 hfresh
        exact absurd ⟨hnew, hdistinct⟩ hgood
      · intro _
        refine loop_throw (memberTurn_throw hne hkey hcolon ?_)
        by_cases hnew : unescape m.1 ∈ seen
        · exact .inl hnew
        · exact .inr (hitem.refuses fun hdistinct => hgood ⟨hnew, hdistinct⟩)

/-- The first unit that a reader goes over, space apart, is not white. -/
def OpensDark {B : Type} (item : Parser UInt16 B) : Prop :=
  ∀ s x r, item s = some (x, r) → ∀ u s', skipSpace s = u :: s' → isWhite u = false

theorem opensDark_member : OpensDark (member value) := by
  intro s m r h u s' hspace
  obtain ⟨v, s₁, -, -, -, hspace', hv, -⟩ := member_eq_some h
  obtain ⟨rfl, -⟩ := List.cons.inj (hspace.symm.trans hspace')
  exact isWhite_of_structural (by simp [IsStructural]) hv

theorem isWhite_of_node {inner : Option (Parser UInt16 (Json.Tree UInt16))} {u : UInt16}
    {s r : JsString} {t : Json.Tree UInt16} (h : Node inner (u :: s) t r) : isWhite u = false := by
  cases h with
  | str hu => exact isWhite_of_structural (by simp [IsStructural]) hu
  | arr hu => exact isWhite_of_structural (by simp [IsStructural]) hu
  | obj hu => exact isWhite_of_structural (by simp [IsStructural]) hu
  | word hmem hu =>
    simp only [words, List.mem_cons, Prod.mk.injEq, List.not_mem_nil, or_false] at hmem
    rcases hmem with ⟨rfl, -⟩ | ⟨rfl, -⟩ | ⟨rfl, -⟩ <;> rw [eq_ascii (by decide) hu] <;> decide
  | num h =>
    rcases head_numeral h with hu | hu
    · rw [eq_ascii (by decide) hu]
      decide
    · obtain ⟨d, hd⟩ := Option.isSome_iff_exists.1 hu
      have hrange : 48 ≤ u.toNat ∧ u.toNat ≤ 57 := by
        by_contra hnot
        simp [digitValue, code, hnot] at hd
      rw [isWhite, decide_eq_false_iff_not]
      omega

theorem opensDark_value (d : ℕ) : OpensDark (Json.value d : Parser UInt16 (Json.Tree UInt16)) := by
  intro s t r h u s' hspace
  cases d with
  | zero => exact isWhite_of_node (hspace ▸ node_eq_some h)
  | succ d => exact isWhite_of_node (hspace ▸ node_eq_some h)

/-- The rest of an array or object is empty of items, or starts with one. -/
theorem starts_of_listed {B : Type} {item : Parser UInt16 B} {close : Char} {s r : JsString}
    {xs : List B} (h : Listed item close s xs r) (hitem : OpensDark item)
    (hclose : IsStructural close) :
    (xs = [] ∧ startsWith close (skipWs s) = true ∧ (skipWs s).tail = r) ∨
      startsWith close (skipWs s) = false ∧ Separated item close (skipWs s) xs r := by
  cases h with
  | nil hspace hu =>
    obtain ⟨hstart, htail⟩ := startsWith_of_skipSpace hclose hspace hu
    exact .inl ⟨rfl, hstart, htail⟩
  | @items u _ s' _ _ hspace hu h =>
    have hagain : skipSpace (u :: s') = u :: s' := by
      rw [← hspace]
      exact List.dropWhile_idempotent isSpace s
    have hdark : isWhite u = false := by
      cases h with
      | last hread => exact hitem _ _ _ hread u s' hagain
      | comma hread => exact hitem _ _ _ hread u s' hagain
    right
    rw [skipWs_of_skipSpace hspace hdark]
    exact ⟨hu, h⟩

theorem isLiteral_of_word {c : Char} {cs : List Char} {t : Json.Tree UInt16}
    (h : (c, cs, t) ∈ words) {u : UInt16} (hu : ∃ d ∈ c :: cs, isChar d u = true) :
    isLiteral u = true ∧ DistinctNames t := by
  obtain ⟨d, hd, hu⟩ := hu
  rw [isLiteral, Bool.or_eq_true, List.any_eq_true]
  simp only [words, List.mem_cons, Prod.mk.injEq, List.not_mem_nil, or_false] at h
  rcases h with ⟨rfl, rfl, rfl⟩ | ⟨rfl, rfl, rfl⟩ | ⟨rfl, rfl, rfl⟩
  all_goals
    refine ⟨.inr ⟨d, ?_, hu⟩, by simp [DistinctNames]⟩
    revert hd
    simp only [List.mem_cons, List.not_mem_nil, or_false]
    tauto

/-- Numbers and words are skipped as the units they are written with. -/
theorem valueWith_literal {s s' r : JsString} {u : UInt16} (hs : skipWs s = u :: s')
    (hu : (isChar 't' u || isChar 'f' u || isChar 'n' u || isChar '-' u ||
      (digitValue u.toNat).isSome) = true)
    {k : ℕ} (htakes : Takes (fun v => isLiteral v = true) k (u :: s') r) (hr : Ends r) :
    valueWith nested s = .ok r := by
  have hne : ∀ c, IsStructural c → isChar c u = false := by
    intro c hc
    by_contra hnot
    have hliteral := isLiteral_of_structural hc (by simpa using hnot)
    rw [isLiteral_of_head hu] at hliteral
    exact absurd hliteral (by simp)
  have hbrace := hne '{' (by simp [IsStructural])
  have hbracket := hne '[' (by simp [IsStructural])
  have hquote := hne '"' (by simp [IsStructural])
  rw [valueWith, hs]
  simp only [hbrace, hbracket, hquote, Bool.false_eq_true, if_false, if_pos hu]
  rw [dropWhile_of_takes htakes hr]
  rfl

/-- A call judges what a reader of the grammar reads, when the calls it makes do so for the parts. -/
theorem judges_valueWith {inner : Option (Parser UInt16 (Json.Tree UInt16))}
    (hinner : ∀ value ∈ inner, Shortens value ∧ OpensDark value ∧ JudgesReader value nested bound)
    {s r : JsString} {t : Json.Tree UInt16} (h : node inner s = some (t, r))
    (hs : s.length ≤ bound + 1) (hr : Ends r) :
    Judges (DistinctNames t) (valueWith nested s) r := by
  have hskip := length_skipSpace_le s
  have hnode := node_eq_some h
  generalize hspace : skipSpace s = w at hnode hskip
  rcases w with - | ⟨u, s'⟩
  · cases hnode
  have hws := skipWs_of_skipSpace hspace (isWhite_of_node hnode)
  have hs' := length_skipWs_le s'
  rw [List.length_cons] at hskip
  -- One case for each kind of node, by the first unit after white space.
  cases hnode with
  | @str _ _ _ ps hu hname =>
    have hstring := parseString_of_spelling hu hname
    obtain rfl := eq_ascii (by decide) hu
    refine ⟨fun _ => ?_, fun hbad => absurd (by simp [DistinctNames]) hbad⟩
    simp [valueWith, hws, hstring]
  | @arr _ _ _ value ts hu hvalue hlist =>
    obtain ⟨hshort, hdark, hjudges⟩ := hinner value hvalue
    obtain rfl := eq_ascii (by decide) hu
    rw [distinctNames_arr]
    obtain ⟨rfl, hclose, htail⟩ | ⟨hclose, hitems⟩ := starts_of_listed hlist hdark (by simp [IsStructural])
    · refine ⟨fun _ => ?_, fun hbad => absurd (by simp) hbad⟩
      simp [valueWith, hws, hclose, htail]
    · have hloop := loop_itemTurn hshort hjudges hitems (by omega) (Nat.lt_succ_self _)
      simpa [valueWith, hws, hclose] using hloop
  | @obj _ _ _ value ms hu hvalue hlist =>
    obtain ⟨hshort, -, hjudges⟩ := hinner value hvalue
    obtain rfl := eq_ascii (by decide) hu
    rw [distinctNames_obj]
    obtain ⟨rfl, hclose, htail⟩ | ⟨hclose, hmembers⟩ :=
      starts_of_listed hlist opensDark_member (by simp [IsStructural])
    · refine ⟨fun _ => ?_, fun hbad => absurd (by simp) hbad⟩
      simp [valueWith, hws, hclose, htail]
    · have hloop := loop_memberTurn hshort hjudges hmembers (by omega) (Nat.lt_succ_self _) []
      simpa [valueWith, hws, hclose, Fresh] using hloop
  | @word _ _ _ c cs _ hmem hu hword =>
    obtain ⟨hliteral, hdistinct⟩ := isLiteral_of_word hmem ⟨c, List.mem_cons_self, hu⟩
    have htakes : Takes (fun v => isLiteral v = true) 1 (u :: s') r := by
      obtain ⟨w, rfl, hk, hw⟩ := takes_keyword hword
      refine .cons hliteral ⟨w, rfl, hk, fun v hv => ?_⟩
      obtain ⟨d, hd, hv⟩ := hw v hv
      exact (isLiteral_of_word hmem ⟨d, List.mem_cons_of_mem c hd, hv⟩).1
    have hhead : isChar 't' u = true ∨ isChar 'f' u = true ∨ isChar 'n' u = true := by
      simp only [words, List.mem_cons, Prod.mk.injEq, List.not_mem_nil, or_false] at hmem
      rcases hmem with ⟨rfl, -⟩ | ⟨rfl, -⟩ | ⟨rfl, -⟩ <;> simp [hu]
    refine ⟨fun _ => valueWith_literal hws ?_ htakes hr, fun hbad => absurd hdistinct hbad⟩
    rcases hhead with h | h | h <;> simp [h]
  | @num _ _ _ n hnumeral =>
    obtain ⟨w, hw, hk, hnumeric⟩ := takes_numeral hnumeral
    have htakes : Takes (fun v => isLiteral v = true) 1 (u :: s') r :=
      ⟨w, hw, hk, fun v hv => isLiteral_of_isNumeric (hnumeric v hv)⟩
    have hdistinct : DistinctNames (.num n) := .num trivial
    refine ⟨fun _ => valueWith_literal hws ?_ htakes hr, fun hbad => absurd hdistinct hbad⟩
    rcases head_numeral hnumeral with h | h
    · simp [h]
    · have h : (digitValue u.toNat).isSome = true := h
      simp [h]

theorem judges_parseValue {d : ℕ} {n : ℕ} (hn : bound < n) :
    JudgesReader (Json.value d) (parseValue n) bound := by
  induction d generalizing n bound with
  | zero =>
    intro s t r hs h hr
    obtain ⟨n, rfl⟩ : ∃ m, n = m + 1 := ⟨n - 1, by omega⟩
    have hinner : ∀ value ∈ (none : Option (Parser UInt16 (Json.Tree UInt16))),
        Shortens value ∧ OpensDark value ∧ JudgesReader value (parseValue n) bound := by simp
    exact judges_valueWith hinner h (by omega) hr
  | succ d ih =>
    intro s t r hs h hr
    obtain ⟨n, rfl⟩ : ∃ m, n = m + 1 := ⟨n - 1, by omega⟩
    have hlt := depth_lt_of_value h
    have hinner : ∀ value ∈ some (Json.value d),
        Shortens value ∧ OpensDark value ∧ JudgesReader value (parseValue n) (bound - 1) := by
      intro value hvalue
      obtain rfl := Option.some.inj hvalue
      refine ⟨fun s t r h => ?_, opensDark_value d, ih (by omega)⟩
      have hlt := depth_lt_of_value h
      omega
    exact judges_valueWith hinner h (by omega) hr

/-- The scanner goes over a JSON text to its end if its objects' members have distinct names. -/
theorem judges_text {text : JsString} {t : Json.Tree UInt16} {d : ℕ}
    (h : Json.parse d text = some t) : ∃ rest, skipWs rest = [] ∧
      Judges (DistinctNames t) (parseValue (text.length + 1) text) rest := by
  rw [Json.parse] at h
  split at h
  · simp at h
  · rename_i t' rest hvalue
    split_ifs at h with hblank
    obtain rfl := Option.some.inj h
    obtain ⟨hends, hskip⟩ := ends_of_blank hblank
    exact ⟨rest, hskip, judges_parseValue (Nat.lt_succ_self _) text t' rest le_rfl hvalue hends⟩

end Agreement

/-- The scanner advances: each further turn of its loops, and each call, is at a later place, and what
a call returns is later still. So it ends, within as many nested calls as the text has units. -/
structure ScannerAdvances : Prop where
  string : ∀ x y, stringTurn x = .ok (.again y) → y.2.length < x.2.length
  members : ∀ n x y, memberTurn (parseValue n) x = .ok (.again y) → y.2.length < x.2.length
  items : ∀ n x y, itemTurn (parseValue n) x = .ok (.again y) → y.length < x.length
  calls : ∀ n text nested, (∀ s : JsString, s.length < text.length → nested s = parseValue n s) →
    parseValue (n + 1) text = valueWith nested text
  returns : ∀ n text rest, parseValue n text = .ok rest → rest.length < text.length
  ends : ∀ n text, text.length < n → parseValue n text ≠ .error .platform

theorem scanner_advances : ScannerAdvances where
  string x y := (stringTurn_progress x).1 y
  members n _ _ := memberTurn_again (parseValue_forward n)
  items n _ _ := itemTurn_again (parseValue_forward n)
  calls n _ _ h := (valueWith_congr (parseValue_forward n) h).symm
  returns n := parseValue_forward n
  ends _ _ := parseValue_ne_platform

/-- What the strict parser returns is what `JSON.parse` does. -/
theorem parseStrictJson_eq_ok {text : JsString} {v : JsValue} :
    parseStrictJson text none = .ok v ↔
      (∃ rest, parseValue (text.length + 1) text = .ok rest ∧ skipWs rest = []) ∧
        jsonParse text = some v := by
  simp only [parseStrictJson, bind_eq_ok, refuse_eq_ok, ofOption_eq_ok, pure_eq_ok, exists_const,
    not_not, exists_eq_right]
  constructor
  · rintro ⟨rest, hscan, hrest, hparse⟩
    exact ⟨⟨rest, hscan, hrest⟩, hparse⟩
  · rintro ⟨⟨rest, hscan, hrest⟩, hparse⟩
    exact ⟨rest, hscan, hrest, hparse⟩

/-- The strict parser accepts the JSON texts in which no object names a member twice, with the value
that `JSON.parse` makes of them, and its scanner ends on every text. -/
theorem strictJson_grammar :
    (∀ text, (∃ v, parseStrictJson text none = .ok v) ↔
      ∃ d t, Json.parse d text = some t ∧ DistinctNames t) ∧
    (∀ text v, parseStrictJson text none = .ok v → jsonParse text = some v) ∧
    ScannerAdvances := by
  refine ⟨fun text => ⟨?_, ?_⟩, fun text v h => (parseStrictJson_eq_ok.1 h).2, scanner_advances⟩
  · rintro ⟨v, hv⟩
    obtain ⟨⟨rest, hscan, -⟩, hparse⟩ := parseStrictJson_eq_ok.1 hv
    obtain ⟨d, t, ht⟩ := isSome_jsonParse.1 (Option.isSome_of_eq_some hparse)
    obtain ⟨rest', -, hjudges⟩ := judges_text ht
    refine ⟨d, t, ht, ?_⟩
    by_contra hbad
    rw [hjudges.refuses hbad] at hscan
    exact absurd hscan (by simp)
  · rintro ⟨d, t, ht, hdistinct⟩
    obtain ⟨v, hparse⟩ := Option.isSome_iff_exists.1 (isSome_jsonParse.2 ⟨d, t, ht⟩)
    obtain ⟨rest, hskip, hjudges⟩ := judges_text ht
    exact ⟨v, parseStrictJson_eq_ok.2 ⟨⟨rest, hjudges.passes hdistinct, hskip⟩, hparse⟩⟩

end ZolanaTvc.Wallet
