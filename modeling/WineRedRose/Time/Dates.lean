import WineRedRose.Time.Model

/-!
# The date formulas

Both conversions use years that start in March, so that the leap day is the
last one of the year.  The day count is a numbering of the days of the
calendar, and the date computation inverts it.
-/

namespace WineRedRose.Time

open Library.Calendar

/-! ## Years from March to February -/

/-- The day on which a year that starts in March begins. -/
def yearStart (year : Int) : Int := 36525 * year / 100 - (3 * (year / 100) + 3) / 4 - 584817

/-- The days of such a year before a month, March being the fourth. -/
def monthStart (month : Int) : Int := 1959 * month / 64

variable {year month day : Int} {date : Date}

theorem dayCount_from_march (later : 1600 ≤ year) (first : 0 ≤ month) :
    (36525 * year).tdiv 100 - (3 * year.tdiv 100 + 3).tdiv 4 + (1959 * month).tdiv 64 + day -
      584817 = yearStart year + monthStart month + day := by
  have century : year.tdiv 100 = year / 100 := Int.tdiv_eq_ediv_of_nonneg (by omega)
  rw [century, Int.tdiv_eq_ediv_of_nonneg (by omega), Int.tdiv_eq_ediv_of_nonneg (by omega),
    Int.tdiv_eq_ediv_of_nonneg (by omega), yearStart, monthStart]
  omega

/-- The day count for January and February. -/
theorem dayCount_of_early (later : 1601 ≤ year) (first : 1 ≤ month) (early : month < 3) :
    dayCount year month day = yearStart (year - 1) + monthStart (month + 13) + day := by
  rw [dayCount, if_pos early]
  exact dayCount_from_march (by omega) (by omega)

/-- The day count for the other months. -/
theorem dayCount_of_late (later : 1601 ≤ year) (late : ¬ month < 3) :
    dayCount year month day = yearStart year + monthStart (month + 1) + day := by
  rw [dayCount, if_neg late]
  exact dayCount_from_march (by omega) (by omega)

/-- From March on the month lengths are the steps of the formula. -/
theorem monthStart_succ (year : Int) (late : 3 ≤ month) (last : month ≤ 12) :
    monthStart (month + 1 + 1) = monthStart (month + 1) + monthLength year month := by
  interval_cases month <;> rfl

/-- Years are counted within their centuries. -/
theorem yearStart_of_century {century rest : Int} (low : 0 ≤ rest) (high : rest < 100) :
    yearStart (100 * century + rest) =
      36525 * century + 1461 * rest / 4 - (3 * century + 3) / 4 - 584817 := by
  have here : (100 * century + rest) / 100 = century := by omega
  have days : 36525 * (100 * century + rest) / 100 = 36525 * century + 1461 * rest / 4 := by omega
  rw [yearStart, here, days]

theorem isLeapYear_of_century {century rest : Int} (low : 0 ≤ rest) (high : rest < 100) :
    IsLeapYear (100 * century + rest) ↔ rest % 4 = 0 ∧ (rest ≠ 0 ∨ century % 4 = 0) := by
  have quarter : (100 * century + rest) % 4 = rest % 4 := by omega
  have hundredth : (100 * century + rest) % 100 = rest := by omega
  have last : rest = 0 → ((100 * century + rest) % 400 = 0 ↔ century % 4 = 0) := by omega
  rw [IsLeapYear, quarter, hundredth]
  refine and_congr_right fun _ => ?_
  by_cases first : rest = 0
  · rw [last first]
  · exact iff_of_true (.inl first) (.inl first)

theorem exists_quarter (n : Int) : ∃ q, n = 4 * q ∨ n = 4 * q + 1 ∨ n = 4 * q + 2 ∨ n = 4 * q + 3 :=
  ⟨n / 4, by omega⟩

theorem exists_century (year : Int) :
    ∃ century rest : Int, year = 100 * century + rest ∧ 0 ≤ rest ∧ rest < 100 :=
  ⟨year / 100, year % 100, by omega, by omega, by omega⟩

/-- The next year begins after the last day of February. -/
theorem yearStart_succ (year : Int) : yearStart year + monthStart 4 + 1 =
      yearStart (year - 1) + monthStart 15 + monthLength year 2 + 1 := by
  have february : monthStart 15 = 459 := rfl
  have march : monthStart 4 = 122 := rfl
  obtain ⟨century, rest, rfl, low, high⟩ := exists_century year
  rw [february, march, monthLength, if_pos rfl, yearStart_of_century low high]
  simp only [isLeapYear_of_century low high]
  -- the year before the first one of a century belongs to the last century
  rcases eq_or_ne rest 0 with rfl | inside
  · have before : 100 * century + 0 - 1 = 100 * (century - 1) + 99 := by omega
    rw [before, yearStart_of_century (by omega) (by omega)]
    obtain ⟨q, rfl | rfl | rfl | rfl⟩ := exists_quarter century
    all_goals split_ifs <;> omega
  · have before : 100 * century + rest - 1 = 100 * century + (rest - 1) := by omega
    rw [before, yearStart_of_century (by omega) (by omega)]
    obtain ⟨q, rfl | rfl | rfl | rfl⟩ := exists_quarter rest
    all_goals split_ifs <;> omega

/-! ## A numbering of the days -/

/-- The day count of a date. -/
def dayNumber (date : Date) : Int := dayCount date.year date.month date.day

theorem dayNumber_next (date : Date) (real : date.Exists) (later : 1601 ≤ date.year) :
    dayNumber date.next = dayNumber date + 1 := by
  obtain ⟨year, month, day⟩ := date
  obtain ⟨firstMonth, lastMonth, firstDay, lastDay⟩ := real
  dsimp only at later firstMonth lastMonth firstDay lastDay
  rw [dayNumber, dayNumber, Date.next]
  dsimp only
  split_ifs with inside earlier
  all_goals dsimp only
  · by_cases early : month < 3
    · rw [dayCount_of_early later firstMonth early, dayCount_of_early later firstMonth early]
      omega
    · rw [dayCount_of_late later early, dayCount_of_late later early]
      omega
  · obtain rfl : day = monthLength year month := by omega
    rcases lt_trichotomy month 2 with january | rfl | others
    · obtain rfl : month = 1 := by omega
      have step : monthStart (1 + 1 + 13) = monthStart (1 + 13) + monthLength year 1 := rfl
      rw [dayCount_of_early later firstMonth (by omega),
        dayCount_of_early later (by omega) (by omega)]
      omega
    · rw [dayCount_of_early later firstMonth (by omega), dayCount_of_late later (by omega)]
      exact yearStart_succ year
    · have step := monthStart_succ year others lastMonth
      rw [dayCount_of_late later (by omega), dayCount_of_late later (by omega)]
      omega
  · obtain rfl : month = 12 := by omega
    have step : monthStart (1 + 13) = monthStart (12 + 1) + monthLength year 12 := rfl
    rw [dayCount_of_late later (by omega),
      dayCount_of_early (by omega) le_rfl (by omega), Int.add_sub_cancel]
    omega

/-! ## The date of a day -/

/-- The century is found again from a day. -/
theorem century_of_day {inYear : Int} (early : 123 ≤ inYear)
    (late : inYear ≤ 487 ∨ inYear = 488 ∧ IsLeapYear (year + 1)) :
    (4 * (yearStart year + inYear) + 1227) / 146097 = year / 100 - 16 := by
  obtain ⟨century, rest, rfl, low, high⟩ := exists_century year
  have here : (100 * century + rest) / 100 = century := by omega
  rw [yearStart_of_century low high, here]
  -- the formula is tight in the first and in the last year of a century
  rcases late with common | ⟨rfl, leap⟩
  · rcases eq_or_ne rest 99 with rfl | notLast
    · omega
    · rcases eq_or_ne rest 0 with rfl | notFirst
      · omega
      · omega
  · rcases eq_or_ne rest 99 with rfl | notLast
    · have next : 100 * century + 99 + 1 = 100 * (century + 1) + 0 := by omega
      rw [next, isLeapYear_of_century le_rfl (by omega)] at leap
      omega
    · omega

/-- The month is found again from a day of the year. -/
theorem month_of_day (firstMonth : 4 ≤ month) (lastMonth : month ≤ 15) (firstDay : 1 ≤ day)
    (lastDay : monthStart month + day ≤ monthStart (month + 1)) :
    64 * (monthStart month + day) / 1959 = month := by
  rw [monthStart, monthStart] at lastDay
  rw [monthStart]
  interval_cases month <;> omega

/-- The date computation inverts the numbering of the days. -/
theorem dateOfDays_eq (later : 1600 ≤ year) (firstMonth : 4 ≤ month) (lastMonth : month ≤ 15)
    (firstDay : 1 ≤ day) (lastDay : monthStart month + day ≤ monthStart (month + 1))
    (inYear : monthStart month + day ≤ 487 ∨ monthStart month + day = 488 ∧ IsLeapYear (year + 1))
    (notNegative : 0 ≤ yearStart year + monthStart month + day) :
    dateOfDays (yearStart year + monthStart month + day) =
      if month < 14 then (year, month - 1, day)
      else (year + 1, month - 13, day) := by
  have early : 123 ≤ monthStart month + day := by
    rw [monthStart]
    omega
  have century : (4 * (yearStart year + monthStart month + day) + 1227).tdiv
      daysPerQuadricentennium = year / 100 - 16 := by
    rw [Int.tdiv_eq_ediv_of_nonneg (by omega), add_assoc]
    exact century_of_day early inYear
  have cleaps : (3 * (year / 100 - 16) + 3).tdiv 4 = (3 * (year / 100) + 3) / 4 - 12 := by
    rw [Int.tdiv_eq_ediv_of_nonneg (by omega)]
    omega
  -- from here on the days are those of a calendar without centuries
  have days : yearStart year + monthStart month + day +
      (28188 + ((3 * (year / 100) + 3) / 4 - 12)) =
        1461 * (year - 1524) / 4 + (monthStart month + day) := by
    rw [yearStart]
    omega
  have years : (20 * (1461 * (year - 1524) / 4 + (monthStart month + day)) -
      2442).tdiv (5 * daysPerNormalQuadrennium) = year - 1524 := by
    rw [Int.tdiv_eq_ediv_of_nonneg (by omega)]
    show _ / 7305 = _
    rcases inYear with common | ⟨last, leap⟩
    · omega
    · have quarter := leap.1
      omega
  have start : ((year - 1524) * daysPerNormalQuadrennium).tdiv 4 = 1461 * (year - 1524) / 4 := by
    rw [daysPerNormalQuadrennium, Int.tdiv_eq_ediv_of_nonneg (by omega)]
    omega
  have months : (64 * (monthStart month + day)).tdiv 1959 = month := by
    rw [Int.tdiv_eq_ediv_of_nonneg (by omega)]
    exact month_of_day firstMonth lastMonth firstDay lastDay
  have dayOfMonth : (1959 * month).tdiv 64 = monthStart month :=
    Int.tdiv_eq_ediv_of_nonneg (by omega)
  simp only [dateOfDays]
  rw [century, cleaps, days, years, start, add_sub_cancel_left, months,
    dayOfMonth, add_sub_cancel_left]
  split_ifs
  · rw [sub_add_cancel]
  · rw [show year - 1524 + 1525 = year + 1 by omega]

/-! ## Both formulas and the calendar -/

/-- The computed date of a day. -/
def civilDate (days : Int) : Date :=
  ⟨(dateOfDays days).1, (dateOfDays days).2.1, (dateOfDays days).2.2⟩

/-- The first day. -/
def epoch : Date := ⟨1601, 1, 1⟩

theorem epoch_exists : epoch.Exists := by decide

theorem dayNumber_epoch : dayNumber epoch = 0 := by decide

theorem yearStart_range {year : Int} (later : 1600 ≤ year) :
    365 * (year - 1600) - 429 ≤ yearStart year ∧ yearStart year ≤ 366 * (year - 1600) - 429 := by
  rw [yearStart]
  omega

/-- No date from the first year on has a negative number. -/
theorem dayNumber_range (real : date.Exists) (later : 1601 ≤ date.year) :
    365 * (date.year - 1601) ≤ dayNumber date ∧ dayNumber date ≤ 366 * (date.year - 1600) := by
  have firstMonth := real.firstMonth
  have lastMonth := real.lastMonth
  have firstDay := real.firstDay
  have lastDay := real.lastDay
  have short := monthLength_range date.year date.month
  rw [dayNumber]
  by_cases early : date.month < 3
  · have start := @yearStart_range (date.year - 1) (by omega)
    rw [dayCount_of_early later firstMonth early, monthStart]
    omega
  · have start := @yearStart_range date.year (by omega)
    rw [dayCount_of_late later early, monthStart]
    omega

/-- The leap day is the last one of the year. -/
theorem february_last (first : 1 ≤ month) (early : month < 3)
    (lastDay : day ≤ monthLength year month) :
    monthStart (month + 13) + day ≤ monthStart (month + 13 + 1) ∧
      (monthStart (month + 13) + day ≤ 487 ∨
        monthStart (month + 13) + day = 488 ∧ IsLeapYear year) := by
  obtain rfl | rfl : month = 1 ∨ month = 2 := by omega
  · have long : day ≤ 31 := lastDay
    simp only [monthStart]
    omega
  · rw [monthLength, if_pos rfl] at lastDay
    simp only [monthStart]
    split_ifs at lastDay with leap
    · exact ⟨by omega, or_iff_not_imp_left.mpr fun last => ⟨by omega, leap⟩⟩
    · omega

theorem civilDate_dayNumber (date : Date) (real : date.Exists) (later : 1601 ≤ date.year) :
    civilDate (dayNumber date) = date := by
  have positive := (dayNumber_range real later).1
  obtain ⟨year, month, day⟩ := date
  obtain ⟨firstMonth, lastMonth, firstDay, lastDay⟩ := real
  dsimp only at later positive firstMonth lastMonth firstDay lastDay
  rw [dayNumber] at positive ⊢
  dsimp only at positive ⊢
  rw [civilDate]
  by_cases early : month < 3
  · have inMonth := february_last firstMonth early lastDay
    rw [dayCount_of_early later firstMonth early] at positive ⊢
    rw [dateOfDays_eq (by omega) (by omega) (by omega) firstDay inMonth.1
      ((sub_add_cancel year 1).symm ▸ inMonth.2) (by omega), if_neg (by omega)]
    rw [sub_add_cancel, add_sub_cancel_right]
  · rw [dayCount_of_late later early] at positive ⊢
    have next := monthStart_succ year (by omega) lastMonth
    have inside : monthStart (month + 1 + 1) ≤ 487 := by
      rw [monthStart]
      omega
    rw [dateOfDays_eq (by omega) (by omega) (by omega) firstDay (by omega)
      (.inl (by omega)) (by omega), if_pos (by omega)]
    rw [add_sub_cancel_right]

/-- The computed dates are those of the calendar. -/
theorem civilDate_eq_dateAfter (n : Nat) : civilDate n = dateAfter epoch n :=
  date_eq_dateAfter epoch_exists dayNumber_epoch dayNumber_next civilDate_dayNumber n

theorem dayNumber_dateAfter (n : Nat) : dayNumber (dateAfter epoch n) = n :=
  number_dateAfter epoch_exists dayNumber_epoch dayNumber_next n

theorem dateAfter_dayNumber (real : date.Exists) (later : 1601 ≤ date.year) :
    dateAfter epoch (dayNumber date).toNat = date := by
  have positive := (dayNumber_range real later).1
  exact dateAfter_number epoch_exists dayNumber_epoch dayNumber_next
    civilDate_dayNumber real later (by omega)

end WineRedRose.Time
