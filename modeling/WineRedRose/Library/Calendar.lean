import Mathlib.Tactic

/-!
# The proleptic Gregorian calendar

The calendar is given by its rule for the next day.  A formula that numbers
the days is right if the next day has the next number; a formula that
computes dates is right if it inverts such a numbering.
-/

namespace WineRedRose.Library.Calendar

/-- A day of a month of a year, whether it exists or not. -/
@[ext]
structure Date where
  year : Int
  month : Int
  day : Int
deriving DecidableEq, Repr

/-- Years divisible by four, except for three of four centuries. -/
def IsLeapYear (year : Int) : Prop := year % 4 = 0 ∧ (year % 100 ≠ 0 ∨ year % 400 = 0)

instance (year : Int) : Decidable (IsLeapYear year) :=
  inferInstanceAs (Decidable (_ ∧ _))

/-- The number of days of a month. -/
def monthLength (year month : Int) : Int :=
  if month = 2 then if IsLeapYear year then 29 else 28
  else if month = 4 ∨ month = 6 ∨ month = 9 ∨ month = 11 then 30
  else 31

/-- The date is one of the calendar. -/
structure Date.Exists (date : Date) : Prop where
  firstMonth : 1 ≤ date.month
  lastMonth : date.month ≤ 12
  firstDay : 1 ≤ date.day
  lastDay : date.day ≤ monthLength date.year date.month

instance (date : Date) : Decidable date.Exists :=
  decidable_of_iff (1 ≤ date.month ∧ date.month ≤ 12 ∧ 1 ≤ date.day ∧
      date.day ≤ monthLength date.year date.month)
    ⟨fun ⟨a, b, c, d⟩ => ⟨a, b, c, d⟩, fun ⟨a, b, c, d⟩ => ⟨a, b, c, d⟩⟩

/-- The next day. -/
def Date.next (date : Date) : Date :=
  if date.day < monthLength date.year date.month then ⟨date.year, date.month, date.day + 1⟩
  else if date.month < 12 then ⟨date.year, date.month + 1, 1⟩
  else ⟨date.year + 1, 1, 1⟩

/-- The date so many days after another one. -/
def dateAfter (start : Date) : Nat → Date
  | 0 => start
  | n + 1 => (dateAfter start n).next

/-- The day of the week, counted from Sunday, so many days after another one. -/
def weekdayAfter (start : Int) (n : Nat) : Int := (start + n) % 7

theorem monthLength_range (year month : Int) :
    1 ≤ monthLength year month ∧ monthLength year month ≤ 31 := by
  rw [monthLength]
  split_ifs <;> decide

theorem Date.Exists.next {date : Date} (real : date.Exists) :
    date.next.Exists := by
  rw [Date.next]
  split_ifs with inside earlier
  · exact ⟨real.firstMonth, real.lastMonth, real.firstDay.trans (by simp), inside⟩
  · exact ⟨real.firstMonth.trans (by simp), earlier, le_rfl, (monthLength_range _ _).1⟩
  · exact ⟨le_rfl, by norm_num, le_rfl, (monthLength_range _ _).1⟩

/-- Dates after an existing one exist, and are in no earlier year. -/
theorem exists_dateAfter {start : Date} (real : start.Exists) (n : Nat) :
    (dateAfter start n).Exists ∧ start.year ≤ (dateAfter start n).year := by
  induction n with
  | zero => exact ⟨real, le_rfl⟩
  | succ n ih =>
    refine ⟨ih.1.next, ih.2.trans ?_⟩
    rw [dateAfter, Date.next]
    split_ifs <;> simp

/-! ## Formulas -/

section

variable {start : Date} {number : Date → Int} {date : Int → Date}

section

variable (real : start.Exists) (first : number start = 0)
  (step : ∀ d : Date, d.Exists → start.year ≤ d.year → number d.next = number d + 1)
include real first step

/-- A numbering of the days counts the days after the first one. -/
theorem number_dateAfter (n : Nat) : number (dateAfter start n) = n := by
  induction n with
  | zero => exact first
  | succ n ih =>
    have reached := exists_dateAfter real n
    rw [dateAfter, step _ reached.1 reached.2, ih]
    rfl

/-- A formula that inverts the numbering computes the dates. -/
theorem date_eq_dateAfter
    (inverse : ∀ d : Date, d.Exists → start.year ≤ d.year → date (number d) = d) (n : Nat) :
    date n = dateAfter start n := by
  have reached := exists_dateAfter real n
  have back := inverse _ reached.1 reached.2
  rwa [number_dateAfter real first step n] at back

/-- Every date from the first year on is reached. -/
theorem dateAfter_number
    (inverse : ∀ d : Date, d.Exists → start.year ≤ d.year → date (number d) = d) {d : Date}
    (exists' : d.Exists) (later : start.year ≤ d.year) (positive : 0 ≤ number d) :
    dateAfter start (number d).toNat = d := by
  rw [← date_eq_dateAfter real first step inverse, Int.toNat_of_nonneg positive]
  exact inverse d exists' later

end

end

end WineRedRose.Library.Calendar
