import Mathlib.Data.Nat.Find
import Mathlib.Tactic.Common

/-!
# Instants of the Gregorian calendar

An instant is a number of milliseconds since 1970. ISO 8601 writes it as a date and a time of day.

## Main results

* `Calendar.Date.number_ofNumber`: a date tells its day.
* `Calendar.timestamp_injective`: a text tells its instant.
-/

namespace Calendar

section Dates

/-- The days from the first of 1970 to the first of a later year. -/
def dayFromYear (year : ℕ) : ℕ :=
  365 * (year - 1970) + (year - 1969) / 4 - (year - 1901) / 100 + (year - 1601) / 400

def isLeap (year : ℕ) : Bool := decide (year % 4 = 0 ∧ (year % 100 ≠ 0 ∨ year % 400 = 0))

/-- The days of a year before the first of a month, which is counted from zero. -/
def dayFromMonth (leap : Bool) (month : ℕ) : ℕ :=
  [0, 31, 59, 90, 120, 151, 181, 212, 243, 273, 304, 334].getD month 0 +
    if leap = true ∧ 2 ≤ month then 1 else 0

structure Date where
  year : ℕ
  month : ℕ
  day : ℕ
deriving DecidableEq

/-- The year of a day. -/
def yearOf (n : ℕ) : ℕ := Nat.findGreatest (fun year => dayFromYear year ≤ n) (1970 + n / 365)

/-- The month of a day of a year, counted from zero. -/
def monthOf (leap : Bool) (n : ℕ) : ℕ := Nat.findGreatest (fun month => dayFromMonth leap month ≤ n) 11

/-- The date of the day that is so many days after the first of 1970. -/
def Date.ofNumber (n : ℕ) : Date :=
  let year := yearOf n
  let rest := n - dayFromYear year
  let month := monthOf (isLeap year) rest
  ⟨year, month + 1, rest - dayFromMonth (isLeap year) month + 1⟩

def Date.number (d : Date) : ℕ :=
  dayFromYear d.year + dayFromMonth (isLeap d.year) (d.month - 1) + (d.day - 1)

/-- A day is of the year that has begun last. -/
theorem yearOf_spec (n : ℕ) : dayFromYear (yearOf n) ≤ n ∧ n < dayFromYear (yearOf n + 1) := by
  constructor
  · exact @Nat.findGreatest_spec 1970 (fun year => dayFromYear year ≤ n) _ _ (Nat.le_add_right _ _)
      (Nat.zero_le n)
  · by_contra hle
    rw [not_lt] at hle
    have hbound : yearOf n + 1 ≤ 1970 + n / 365 := by
      unfold dayFromYear at hle
      omega
    exact absurd (Nat.le_findGreatest hbound hle) (Nat.not_succ_le_self _)

theorem dayFromMonth_monthOf (leap : Bool) (n : ℕ) : dayFromMonth leap (monthOf leap n) ≤ n :=
  @Nat.findGreatest_spec 0 (fun month => dayFromMonth leap month ≤ n) _ _ (Nat.zero_le _)
    (by cases leap <;> exact Nat.zero_le n)

/-- A date tells its day. -/
theorem Date.number_ofNumber (n : ℕ) : (Date.ofNumber n).number = n := by
  have hyear := (yearOf_spec n).1
  have hmonth := dayFromMonth_monthOf (isLeap (yearOf n)) (n - dayFromYear (yearOf n))
  simp only [Date.ofNumber, Date.number, Nat.add_sub_cancel]
  omega

example : Date.ofNumber 19782 = ⟨2024, 2, 29⟩ := by decide

end Dates

section Texts

/-- A number of at least so many digits. -/
def pad (w n : ℕ) : List Char := List.leftpad w '0' (Nat.toDigits 10 n)

theorem ofDigitChars_pad (w n : ℕ) : Nat.ofDigitChars 10 (pad w n) 0 = n := by
  rw [pad, List.leftpad, Nat.ofDigitChars_append, Nat.ofDigitChars_replicate_zero, Nat.mul_zero,
    Nat.ofDigitChars_ten_toDigits]

theorem isDigit_of_mem_pad {w n : ℕ} {c : Char} (hc : c ∈ pad w n) : c.isDigit = true := by
  obtain hzero | hdigit := List.mem_append.1 hc
  · rw [List.eq_of_mem_replicate hzero]
    rfl
  · exact Nat.isDigit_of_mem_toDigits (by decide) (by decide) hdigit

/-- A number before what is no digit is told by the text, and so is what follows. -/
theorem pad_append_inj {v w m n : ℕ} {c d : Char} {r s : List Char} (hc : c.isDigit = false)
    (hd : d.isDigit = false) (h : pad v m ++ c :: r = pad w n ++ d :: s) : m = n ∧ c :: r = d :: s := by
  have hdigits : ∀ {w n : ℕ} {c : Char} {r : List Char}, c.isDigit = false →
      (pad w n ++ c :: r).takeWhile Char.isDigit = pad w n := by
    intro w n c r hc
    rw [List.takeWhile_append_of_pos fun x hx => isDigit_of_mem_pad hx, List.takeWhile_cons, if_neg
      (by rw [hc]; exact Bool.false_ne_true), List.append_nil]
  have hpad : pad v m = pad w n := by rw [← hdigits hc, h, hdigits hd]
  have hvalue := congrArg (Nat.ofDigitChars 10 · 0) hpad
  rw [ofDigitChars_pad, ofDigitChars_pad] at hvalue
  rw [hpad] at h
  exact ⟨hvalue, List.append_cancel_left h⟩

/-- A year, with its sign and at least so many digits where four do not suffice. -/
def yearText (w year : ℕ) : List Char := if year ≤ 9999 then pad 4 year else '+' :: pad w year

theorem yearText_append_inj {w m n : ℕ} {r s : List Char}
    (h : yearText w m ++ '-' :: r = yearText w n ++ '-' :: s) : m = n ∧ r = s := by
  -- A number does not begin with a sign.
  have hsign : ∀ {k : ℕ} {r t : List Char}, pad 4 k ++ '-' :: r ≠ '+' :: t := by
    intro k r t heq
    cases hpad : pad 4 k with
    | nil =>
      rw [hpad, List.nil_append] at heq
      exact absurd (List.cons.inj heq).1 (by decide)
    | cons x xs =>
      rw [hpad, List.cons_append] at heq
      have hdigit := @isDigit_of_mem_pad 4 k x (hpad ▸ List.mem_cons_self)
      rw [(List.cons.inj heq).1] at hdigit
      exact absurd hdigit (by decide)
  have hminus : '-'.isDigit = false := rfl
  unfold yearText at h
  split_ifs at h with hm hn hn
  · obtain ⟨hyear, hrest⟩ := pad_append_inj hminus hminus h
    exact ⟨hyear, (List.cons.inj hrest).2⟩
  · exact absurd h hsign
  · exact absurd h.symm hsign
  · obtain ⟨hyear, hrest⟩ := pad_append_inj hminus hminus (List.cons.inj h).2
    exact ⟨hyear, (List.cons.inj hrest).2⟩

/-- An instant in milliseconds since 1970, as ISO 8601 writes it in UTC. -/
def timestamp (w ms : ℕ) : List Char :=
  let date := Date.ofNumber (ms / 86400000)
  yearText w date.year ++ '-' :: (pad 2 date.month ++ '-' :: (pad 2 date.day ++ 'T' ::
    (pad 2 (ms / 3600000 % 24) ++ ':' :: (pad 2 (ms / 60000 % 60) ++ ':' ::
      (pad 2 (ms / 1000 % 60) ++ '.' :: (pad 3 (ms % 1000) ++ ['Z']))))))

/-- A text tells its instant. -/
theorem timestamp_injective (w : ℕ) : Function.Injective (timestamp w) := by
  intro m n h
  obtain ⟨hyear, h⟩ := yearText_append_inj h
  obtain ⟨hmonth, h⟩ := pad_append_inj rfl rfl h
  obtain ⟨hday, h⟩ := pad_append_inj rfl rfl (List.cons.inj h).2
  obtain ⟨hhour, h⟩ := pad_append_inj rfl rfl (List.cons.inj h).2
  obtain ⟨hminute, h⟩ := pad_append_inj rfl rfl (List.cons.inj h).2
  obtain ⟨hsecond, h⟩ := pad_append_inj rfl rfl (List.cons.inj h).2
  obtain ⟨hmilli, -⟩ := pad_append_inj rfl rfl (List.cons.inj h).2
  have hdate : Date.ofNumber (m / 86400000) = Date.ofNumber (n / 86400000) := by
    cases hm : Date.ofNumber (m / 86400000)
    cases hn : Date.ofNumber (n / 86400000)
    rw [hm, hn] at hyear hmonth hday
    rw [Date.mk.injEq]
    exact ⟨hyear, hmonth, hday⟩
  have hnumber := congrArg Date.number hdate
  rw [Date.number_ofNumber, Date.number_ofNumber] at hnumber
  omega

/-- How years past 9999 are written does not matter before. -/
theorem timestamp_eq_of_lt {ms : ℕ} (h : (Date.ofNumber (ms / 86400000)).year ≤ 9999) (v w : ℕ) :
    timestamp v ms = timestamp w ms := by
  simp only [timestamp, yearText, if_pos h]

theorem newline_notMem_timestamp (w ms : ℕ) : '\n' ∉ timestamp w ms := by
  have hpad : ∀ v n, '\n' ∉ pad v n := fun v n hmem => absurd (isDigit_of_mem_pad hmem) (by decide)
  have hyear : ∀ n, '\n' ∉ yearText w n := by
    intro n
    unfold yearText
    split_ifs <;> simp [hpad]
  simp [timestamp, hpad, hyear]

/-- The instants before the year 10000. -/
theorem year_le_of_lt {ms : ℕ} (h : ms < 253402300800000) :
    (Date.ofNumber (ms / 86400000)).year ≤ 9999 := by
  by_contra hyear
  rw [not_le] at hyear
  have hstart := (yearOf_spec (ms / 86400000)).1
  have hyear' : 9999 < yearOf (ms / 86400000) := hyear
  unfold dayFromYear at hstart
  omega

end Texts

end Calendar
