import ZolanaTvc.Json.Text
import ZolanaTvc.Protocol.Encoding

/-!
# Projects

A request is made for a project, whose name is short and plain.
-/

namespace ZolanaTvc.Gateway

open Protocol

def MAX_PROJECT_ID_LEN : ℕ := 64

/-- `u8::is_ascii_alphanumeric` -/
def isAsciiAlphanumeric (byte : UInt8) : Bool :=
  (0x30 ≤ byte && byte ≤ 0x39) || (0x41 ≤ byte && byte ≤ 0x5a) || (0x61 ≤ byte && byte ≤ 0x7a)

/-- The texts that `ProjectId::parse` takes. -/
def isProjectId (value : String) : Bool :=
  !(utf8 value).isEmpty && (utf8 value).length ≤ MAX_PROJECT_ID_LEN &&
    (utf8 value).all fun byte => isAsciiAlphanumeric byte || byte == 0x2d

/-- The project that the caller's key belongs to. -/
structure ProjectId where
  text : String
  valid : isProjectId text = true
deriving DecidableEq

namespace ProjectId

/-- The last decimal digit of a number. -/
def lastDigit (n : ℕ) : Fin 10 := ⟨n % 10, Nat.mod_lt n (by decide)⟩

/-- The text of the last five decimal digits of a number. -/
def fiveDigits (n : ℕ) : String :=
  String.ofList [Json.digitChar (lastDigit (n / 10000))] ++
    String.ofList [Json.digitChar (lastDigit (n / 1000))] ++
    String.ofList [Json.digitChar (lastDigit (n / 100))] ++
    String.ofList [Json.digitChar (lastDigit (n / 10))] ++ String.ofList [Json.digitChar (lastDigit n)]

theorem utf8_digit (d : Fin 10) :
    utf8 (String.ofList [Json.digitChar d]) = [48 + UInt8.ofNat d.val] := by
  decide +revert

theorem utf8_fiveDigits (n : ℕ) : utf8 (fiveDigits n) =
    [48 + UInt8.ofNat (n / 10000 % 10), 48 + UInt8.ofNat (n / 1000 % 10),
      48 + UInt8.ofNat (n / 100 % 10), 48 + UInt8.ofNat (n / 10 % 10), 48 + UInt8.ofNat (n % 10)] := by
  simp only [fiveDigits, utf8_append, utf8_digit, lastDigit, List.cons_append, List.nil_append]

theorem digit_plain (d : Fin 10) : isAsciiAlphanumeric (48 + UInt8.ofNat d.val) = true := by
  decide +revert

theorem digit_inj {c d : ℕ} (h : 48 + UInt8.ofNat (c % 10) = 48 + UInt8.ofNat (d % 10)) :
    c % 10 = d % 10 := by
  have hdigits : ∀ i j : Fin 10, 48 + UInt8.ofNat i.val = 48 + UInt8.ofNat j.val → i = j := by
    decide
  have hlt : ∀ n, n % 10 < 10 := fun n => Nat.mod_lt n (by decide)
  exact Fin.val_eq_of_eq (hdigits ⟨c % 10, hlt c⟩ ⟨d % 10, hlt d⟩ h)

theorem isProjectId_fiveDigits (n : ℕ) : isProjectId (fiveDigits n) = true := by
  have hdigit : ∀ d, isAsciiAlphanumeric (48 + UInt8.ofNat (d % 10)) = true :=
    fun d => digit_plain (lastDigit d)
  simp [isProjectId, utf8_fiveDigits, hdigit, MAX_PROJECT_ID_LEN]

/-- A project for each number below 100,000. -/
def sample (n : ℕ) : ProjectId := ⟨fiveDigits n, isProjectId_fiveDigits n⟩

theorem sample_inj {m n : ℕ} (hm : m < 100000) (hn : n < 100000) (h : sample m = sample n) :
    m = n := by
  have htext := congrArg utf8 (ProjectId.mk.inj h)
  rw [utf8_fiveDigits, utf8_fiveDigits] at htext
  simp only [List.cons.injEq, and_true] at htext
  obtain ⟨h4, h3, h2, h1, h0⟩ := htext
  have h4 := digit_inj h4
  have h3 := digit_inj h3
  have h2 := digit_inj h2
  have h1 := digit_inj h1
  have h0 := digit_inj h0
  omega

end ProjectId

end ZolanaTvc.Gateway
