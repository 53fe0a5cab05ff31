import WineRedRose.Time.Dates

/-!
# Time fields and times

Every time has the fields of its calendar date and time of day, and these
give the time back up to the millisecond.  In the other direction the checks
accept the 29 February of every year, and times from the year 30828 on do not
fit in 64 bits; for all other fields they are right, and the conversions
invert each other up to a weekday that was wrong in the first place.
-/

namespace WineRedRose.Time

open Library.Calendar TimeFields

/-! ## What fields mean -/

section

variable (fields : TimeFields)

def TimeFields.date : Date := ⟨fields.year.toInt, fields.month.toInt, fields.day.toInt⟩

/-- The milliseconds since midnight. -/
def TimeFields.sinceMidnight : Int := ((fields.hour.toInt * 60 + fields.minute.toInt) * 60 +
    fields.second.toInt) * 1000 + fields.milliseconds.toInt

/-- The time of day is one of a clock. -/
structure TimeFields.OnClock (fields : TimeFields) : Prop where
  hour : 0 ≤ fields.hour.toInt ∧ fields.hour.toInt ≤ 23
  minute : 0 ≤ fields.minute.toInt ∧ fields.minute.toInt ≤ 59
  second : 0 ≤ fields.second.toInt ∧ fields.second.toInt ≤ 59
  milliseconds : 0 ≤ fields.milliseconds.toInt ∧ fields.milliseconds.toInt ≤ 999

/-- The fields are those of a date from 1601 on and of a time of day. -/
structure TimeFields.Real (fields : TimeFields) : Prop where
  date : fields.date.Exists
  year : 1601 ≤ fields.year.toInt
  clock : fields.OnClock

/-- So many milliseconds have passed since the beginning of 1601. -/
def TimeFields.Denotes (milliseconds : Int) : Prop :=
  ∃ days : Nat, fields.date = dateAfter epoch days ∧ fields.OnClock ∧
    milliseconds = days * 86400000 + fields.sinceMidnight

/-- The weekday is that of the date; the first day was a Monday. -/
def TimeFields.HasWeekday : Prop :=
  ∃ days : Nat, fields.date = dateAfter epoch days ∧ fields.weekday.toInt = weekdayAfter 1 days

end

/-! ## From times to fields -/

variable {liTime : Int64} {fields : TimeFields}

theorem toInt_ofInt_small {n : Int} (low : 0 ≤ n) (high : n < 32768) : (Int16.ofInt n).toInt = n :=
  Int16.toInt_ofInt_of_le (by omega) (by omega)

/-- A date of the calendar is kept in 16-bit fields, up to the year 32767. -/
theorem date_fits {date : Date} (real : date.Exists) (later : 1601 ≤ date.year)
    (sooner : date.year < 32768) :
    (⟨(Int16.ofInt date.year).toInt, (Int16.ofInt date.month).toInt,
      (Int16.ofInt date.day).toInt⟩ : Date) = date := by
  have short := monthLength_range date.year date.month
  have firstMonth := real.firstMonth
  have lastMonth := real.lastMonth
  have firstDay := real.firstDay
  have lastDay := real.lastDay
  rw [toInt_ofInt_small (by omega) sooner, toInt_ofInt_small (by omega) (by omega),
    toInt_ofInt_small (by omega) (by omega)]

variable {days seconds ticks : Int}

/-- The dates of 64-bit times fit in 16-bit fields. -/
theorem civilDate_range (low : 0 ≤ days) (high : days ≤ 10675199) :
    civilDate days = dateAfter epoch days.toNat ∧ (civilDate days).Exists ∧
      1601 ≤ (civilDate days).year ∧ (civilDate days).year < 32768 := by
  have computed := civilDate_eq_dateAfter days.toNat
  rw [Int.toNat_of_nonneg low] at computed
  have reached := exists_dateAfter epoch_exists days.toNat
  have number := dayNumber_dateAfter days.toNat
  have many := (dayNumber_range reached.1 reached.2).1
  rw [number, Int.toNat_of_nonneg low] at many
  rw [computed]
  exact ⟨rfl, reached.1, reached.2, by omega⟩

/-- The fields of a time that is not negative, one by one. -/
structure HasFields (fields : TimeFields) (days seconds ticks : Int) : Prop where
  date : fields.date = civilDate days
  hour : fields.hour.toInt = seconds / 3600
  minute : fields.minute.toInt = seconds % 3600 / 60
  second : fields.second.toInt = seconds % 60
  milliseconds : fields.milliseconds.toInt = ticks / 10000
  weekday : fields.weekday.toInt = (1 + days) % 7

theorem hasFields_of_time (positive : 0 ≤ liTime.toInt) :
    HasFields (rtlTimeToTimeFields liTime) (liTime.toInt / 864000000000)
      (liTime.toInt / 10000000 % 86400) (liTime.toInt % 10000000) := by
  have bound := liTime.toInt_lt
  have seconds : liTime.toInt.tdiv ticksPerSec = liTime.toInt / 10000000 :=
    Int.tdiv_eq_ediv_of_nonneg positive
  have ticks : liTime.toInt.tmod ticksPerSec = liTime.toInt % 10000000 :=
    Int.tmod_eq_emod_of_nonneg positive
  have days : (liTime.toInt / 10000000).tdiv secsPerDay = liTime.toInt / 864000000000 := by
    rw [Int.tdiv_eq_ediv_of_nonneg (by omega), secsPerDay]
    omega
  have inDay : (liTime.toInt / 10000000).tmod secsPerDay = liTime.toInt / 10000000 % 86400 :=
    Int.tmod_eq_emod_of_nonneg (by omega)
  generalize dayNumber' : liTime.toInt / 864000000000 = n at *
  generalize inDay' : liTime.toInt / 10000000 % 86400 = m at *
  generalize inSecond : liTime.toInt % 10000000 = r at *
  have range := @civilDate_range n (by omega) (by omega)
  simp only [rtlTimeToTimeFields, seconds, ticks, days, inDay]
  have inHour : m.tmod secsPerHour = m % 3600 := Int.tmod_eq_emod_of_nonneg (by omega)
  rw [inHour]
  constructor
  · exact date_fits range.2.1 range.2.2.1 range.2.2.2
  · dsimp only
    rw [Int.tdiv_eq_ediv_of_nonneg (by omega), secsPerHour]
    exact toInt_ofInt_small (by omega) (by omega)
  · dsimp only
    rw [Int.tdiv_eq_ediv_of_nonneg (by omega), secsPerMin]
    exact toInt_ofInt_small (by omega) (by omega)
  · dsimp only
    rw [Int.tmod_eq_emod_of_nonneg (by omega), secsPerMin, toInt_ofInt_small (by omega) (by omega)]
    omega
  · dsimp only
    rw [Int.tdiv_eq_ediv_of_nonneg (by omega), ticksPerMsec]
    exact toInt_ofInt_small (by omega) (by omega)
  · dsimp only
    rw [Int.tmod_eq_emod_of_nonneg (by rw [epochWeekday]; omega), epochWeekday, daysPerWeek]
    exact toInt_ofInt_small (by omega) (by omega)

/-- Fields are known from these values. -/
theorem HasFields.unique {fields' : TimeFields} (first : HasFields fields days seconds ticks)
    (second : HasFields fields' days seconds ticks) : fields = fields' := by
  have date := first.date.trans second.date.symm
  apply TimeFields.ext
  · exact Int16.toInt_inj.mp (congrArg Date.year date)
  · exact Int16.toInt_inj.mp (congrArg Date.month date)
  · exact Int16.toInt_inj.mp (congrArg Date.day date)
  · exact Int16.toInt_inj.mp (first.hour.trans second.hour.symm)
  · exact Int16.toInt_inj.mp (first.minute.trans second.minute.symm)
  · exact Int16.toInt_inj.mp (first.second.trans second.second.symm)
  · exact Int16.toInt_inj.mp (first.milliseconds.trans second.milliseconds.symm)
  · exact Int16.toInt_inj.mp (first.weekday.trans second.weekday.symm)

theorem HasFields.onClock (has : HasFields fields days seconds ticks)
    (inDay : 0 ≤ seconds ∧ seconds < 86400) (inSecond : 0 ≤ ticks ∧ ticks < 10000000) :
    fields.OnClock ∧ fields.sinceMidnight = seconds * 1000 + ticks / 10000 := by
  have hour := has.hour
  have minute := has.minute
  have second := has.second
  have milliseconds := has.milliseconds
  refine ⟨⟨by omega, by omega, by omega, by omega⟩, ?_⟩
  rw [sinceMidnight]
  omega

/-- Every time has the fields of its calendar date and its time of day. -/
theorem denotes_of_time (positive : 0 ≤ liTime.toInt) :
    (rtlTimeToTimeFields liTime).Denotes (liTime.toInt / 10000) ∧
      (rtlTimeToTimeFields liTime).HasWeekday := by
  have bound := liTime.toInt_lt
  have has := hasFields_of_time positive
  have clock := has.onClock (by omega) (by omega)
  have range := @civilDate_range (liTime.toInt / 864000000000) (by omega) (by omega)
  have date := has.date.trans range.1
  refine ⟨⟨_, date, clock.1, ?_⟩, ⟨_, date, ?_⟩⟩
  · rw [clock.2]
    omega
  · rw [has.weekday, weekdayAfter]
    omega

/-! ## From fields to times -/

/-- The 29 February of a year that is not a leap year, at some time of day. -/
structure TimeFields.FalseLeapDay (fields : TimeFields) : Prop where
  month : fields.month.toInt = 2
  day : fields.day.toInt = 29
  common : ¬ IsLeapYear fields.year.toInt
  year : 1601 ≤ fields.year.toInt
  clock : fields.OnClock

/-- The table is always the one of leap years in February. -/
theorem monthLengths_eq {month : Int} (leap : Bool) (year : Int) (first : 1 ≤ month)
    (last : month ≤ 12) :
    monthLengths (month = 2 || leap) (month - 1).toNat =
      if month = 2 then 29 else monthLength year month := by
  interval_cases month <;> cases leap <;> rfl

/-- The checks accept exactly the real fields and the false leap days. -/
theorem accepted_iff : fields.accepted = true ↔ fields.Real ∨ fields.FalseLeapDay := by
  simp only [accepted, decide_eq_true_eq]
  constructor
  · rintro ⟨ms, ms', s, s', m, m', h, h', mo, mo', d, d', year⟩
    have clock : fields.OnClock := ⟨⟨h, h'⟩, ⟨m, m'⟩, ⟨s, s'⟩, ⟨ms, ms'⟩⟩
    rw [monthLengths_eq _ fields.year.toInt mo mo'] at d'
    by_cases inMonth : fields.day.toInt ≤ monthLength fields.year.toInt fields.month.toInt
    · exact .inl ⟨⟨mo, mo', d, inMonth⟩, year, clock⟩
    · have february : fields.month.toInt = 2 := by
        by_contra other
        rw [if_neg other] at d'
        exact inMonth d'
      rw [if_pos february] at d'
      rw [monthLength, if_pos february] at inMonth
      split_ifs at inMonth with leap
      · exact absurd d' inMonth
      · exact .inr ⟨february, by omega, leap, year, clock⟩
  · rintro (⟨⟨mo, mo', d, d'⟩, year, clock⟩ | ⟨month, day, common, year, clock⟩)
    · refine ⟨clock.milliseconds.1, clock.milliseconds.2, clock.second.1,
        clock.second.2, clock.minute.1, clock.minute.2, clock.hour.1,
        clock.hour.2, mo, mo', d, ?_, year⟩
      rw [@monthLengths_eq fields.month.toInt _ fields.year.toInt mo mo']
      split_ifs with february
      · refine d'.trans ?_
        have month : fields.date.month = 2 := february
        rw [monthLength, if_pos month]
        split_ifs <;> norm_num
      · exact d'
    · refine ⟨clock.milliseconds.1, clock.milliseconds.2, clock.second.1,
        clock.second.2, clock.minute.1, clock.minute.2, clock.hour.1,
        clock.hour.2, by omega, by omega, by omega, ?_, year⟩
      rw [monthLengths_eq _ fields.year.toInt (by omega) (by omega), if_pos month]
      exact day.le

theorem rtlTimeFieldsToTime_of_accepted (accepted : fields.accepted = true) :
    rtlTimeFieldsToTime fields =
      some (.ofInt ((dayNumber fields.date * 86400000 + fields.sinceMidnight) * 10000)) := by
  rw [rtlTimeFieldsToTime, if_pos accepted]
  simp only [hoursPerDay, minsPerHour, secsPerMin, ticksPerMsec, sinceMidnight]
  refine congrArg (some ∘ Int64.ofInt) ?_
  show ((((dayNumber fields.date * 24 + _) * 60 + _) * 60 + _) * 1000 + _) * 10000 = _
  ring

theorem TimeFields.OnClock.sinceMidnight_range (clock : fields.OnClock) :
    0 ≤ fields.sinceMidnight ∧ fields.sinceMidnight < 86400000 := by
  have hour := clock.hour
  have minute := clock.minute
  have second := clock.second
  have milliseconds := clock.milliseconds
  rw [sinceMidnight]
  omega

/-- What real fields denote. -/
theorem TimeFields.Real.denotes (real : fields.Real) :
    fields.Denotes (dayNumber fields.date * 86400000 + fields.sinceMidnight) := by
  have positive := dayNumber_range real.date real.year
  have later : 1601 ≤ fields.date.year := real.year
  refine ⟨_, (dateAfter_dayNumber real.date real.year).symm, real.clock, ?_⟩
  rw [Int.toNat_of_nonneg (by omega)]

variable {milliseconds : Int}

theorem TimeFields.Denotes.unique (denotes : fields.Denotes milliseconds) :
    milliseconds = dayNumber fields.date * 86400000 + fields.sinceMidnight := by
  obtain ⟨days, date, _, sum⟩ := denotes
  rw [date, dayNumber_dateAfter]
  exact sum

/-- Fields that denote something are real. -/
theorem TimeFields.Denotes.real (denotes : fields.Denotes milliseconds) :
    fields.Real := by
  obtain ⟨days, date, clock, _⟩ := denotes
  have reached := exists_dateAfter epoch_exists days
  rw [← date] at reached
  exact ⟨reached.1, reached.2, clock⟩

/-- The weekday is known from the number of the day. -/
theorem TimeFields.HasWeekday.eq (has : fields.HasWeekday) :
    fields.weekday.toInt = (1 + dayNumber fields.date) % 7 := by
  obtain ⟨days, date, weekday⟩ := has
  rw [date, dayNumber_dateAfter]
  exact weekday

/-- Real fields have the values that are computed for their time. -/
theorem TimeFields.Real.hasFields (real : fields.Real) {time : Int}
    (denoted : time = (dayNumber fields.date * 86400000 + fields.sinceMidnight) * 10000)
    (weekday : fields.weekday.toInt = (1 + dayNumber fields.date) % 7) :
    HasFields fields (time / 864000000000) (time / 10000000 % 86400) (time % 10000000) := by
  have range := real.clock.sinceMidnight_range
  have hour := real.clock.hour
  have minute := real.clock.minute
  have second := real.clock.second
  have milliseconds := real.clock.milliseconds
  have day : time / 864000000000 = dayNumber fields.date := by omega
  have back := civilDate_dayNumber fields.date real.date real.year
  rw [sinceMidnight] at denoted
  constructor
  · rw [day, back]
  · omega
  · omega
  · omega
  · omega
  · rw [day]
    exact weekday

/-! ## Both directions -/

/-- The conversion succeeds exactly for real fields, and can be undone. -/
def TimeFields.RoundTrips (fields : TimeFields) : Prop :=
  ((rtlTimeFieldsToTime fields).isSome ↔ fields.Real) ∧
    ∀ liTime, rtlTimeFieldsToTime fields = some liTime → rtlTimeToTimeFields liTime = fields

/--
The fields are not a false leap day, and if they are real, the weekday is
that of the date and the time is at most 30828-09-14 02:48:05.477.
-/
def TimeFields.Convertible (fields : TimeFields) : Prop := ¬ fields.FalseLeapDay ∧
    (fields.Real → fields.HasWeekday ∧ ∃ milliseconds, fields.Denotes milliseconds ∧
        milliseconds ≤ 922337203685477)

/-- A time that overflows is negative and has other milliseconds. -/
theorem milliseconds_of_overflow (late : 922337203685477 < milliseconds)
    (bounded : milliseconds < 1844674407370955) :
    (rtlTimeToTimeFields (.ofInt (milliseconds * 10000))).milliseconds.toInt ≠
      milliseconds % 1000 := by
  have wrapped : (Int64.ofInt (milliseconds * 10000)).toInt =
      -(18446744073709551616 - milliseconds * 10000) := by
    have size : (Int64.size : Int) = 18446744073709551616 := rfl
    have small : milliseconds * 10000 % (Int64.size : Int) =
        milliseconds * 10000 := Int.emod_eq_of_lt (by omega) (by omega)
    rw [Int64.toInt_ofInt, Int.bmod_def, small, size, if_neg (by omega)]
    omega
  simp only [rtlTimeToTimeFields, wrapped, ticksPerSec, ticksPerMsec]
  rw [Int.neg_tmod, Int.neg_tdiv, Int.tmod_eq_emod_of_nonneg (by omega),
    Int.tdiv_eq_ediv_of_nonneg (by omega),
    Int16.toInt_ofInt_of_le (by omega) (by omega)]
  omega

/-- The conversion of real fields, as far as the times go. -/
theorem TimeFields.Real.roundTrips_iff (real : fields.Real) :
    fields.RoundTrips ↔ fields.HasWeekday ∧
      dayNumber fields.date * 86400000 + fields.sinceMidnight ≤ 922337203685477 := by
  have converted := rtlTimeFieldsToTime_of_accepted (accepted_iff.mpr (.inl real))
  have bounds := dayNumber_range real.date real.year
  have later : 1601 ≤ fields.date.year := real.year
  have range := real.clock.sinceMidnight_range
  have year : fields.date.year < 2 ^ 15 := fields.year.toInt_lt
  have milliseconds : (dayNumber fields.date * 86400000 +
      fields.sinceMidnight) % 1000 = fields.milliseconds.toInt := by
    have := real.clock.milliseconds
    rw [sinceMidnight]
    omega
  rw [TimeFields.RoundTrips, converted]
  set total := dayNumber fields.date * 86400000 + fields.sinceMidnight with sum
  constructor
  · rintro ⟨_, back⟩
    have same := back _ rfl
    have early : total ≤ 922337203685477 := by
      by_contra late
      refine milliseconds_of_overflow (lt_of_not_ge late) (by omega) ?_
      rw [same, milliseconds]
    have exact' : (Int64.ofInt (total * 10000)).toInt = total * 10000 :=
      Int64.toInt_ofInt_of_le (by omega) (by omega)
    have denoted := @denotes_of_time (.ofInt (total * 10000)) (by omega)
    rw [same] at denoted
    exact ⟨denoted.2, early⟩
  · rintro ⟨weekday, early⟩
    refine ⟨iff_of_true rfl real, ?_⟩
    rintro liTime ⟨⟩
    have exact' : (Int64.ofInt (total * 10000)).toInt = total * 10000 :=
      Int64.toInt_ofInt_of_le (by omega) (by omega)
    have has := @hasFields_of_time (.ofInt (total * 10000)) (by omega)
    rw [exact'] at has
    exact has.unique (real.hasFields (by rw [sum]) weekday.eq)

/-- A time is found again from its fields, up to the millisecond. -/
theorem rtlTimeFieldsToTime_fields (positive : 0 ≤ liTime.toInt) :
    rtlTimeFieldsToTime (rtlTimeToTimeFields liTime) =
      some (.ofInt (liTime.toInt / 10000 * 10000)) := by
  have denoted := (denotes_of_time positive).1
  have accepted := accepted_iff.mpr (.inl denoted.real)
  rw [rtlTimeFieldsToTime_of_accepted accepted, ← denoted.unique]

/--
Times and their fields are inverse to each other; fields and their times are
so exactly for the convertible ones.
-/
theorem time_fields_inverse (liTime : Int64) (fields : TimeFields) : (0 ≤ liTime.toInt →
      (rtlTimeToTimeFields liTime).Denotes (liTime.toInt / 10000) ∧
      (rtlTimeToTimeFields liTime).HasWeekday ∧
      rtlTimeFieldsToTime (rtlTimeToTimeFields liTime) =
        some (.ofInt (liTime.toInt / 10000 * 10000))) ∧
    (fields.RoundTrips ↔ fields.Convertible) := by
  constructor
  · intro positive
    have denoted := denotes_of_time positive
    exact ⟨denoted.1, denoted.2, rtlTimeFieldsToTime_fields positive⟩
  · by_cases real : fields.Real
    · rw [real.roundTrips_iff]
      have exact' : ¬ fields.FalseLeapDay := by
        intro false'
        have day := real.date.lastDay
        have month : fields.date.month = 2 := false'.month
        have last : fields.date.day = 29 := false'.day
        have common : ¬ IsLeapYear fields.date.year := false'.common
        rw [monthLength, if_pos month, if_neg common] at day
        omega
      constructor
      · rintro ⟨weekday, early⟩
        exact ⟨exact', fun _ => ⟨weekday, _, real.denotes, early⟩⟩
      · rintro ⟨_, convertible⟩
        obtain ⟨weekday, _, denoted, early⟩ := convertible real
        exact ⟨weekday, denoted.unique ▸ early⟩
    · rw [TimeFields.RoundTrips, TimeFields.Convertible]
      by_cases false' : fields.FalseLeapDay
      · have converted := rtlTimeFieldsToTime_of_accepted (accepted_iff.mpr (.inr false'))
        rw [converted]
        exact iff_of_false (fun trips => real (trips.1.mp rfl))
          fun convertible => convertible.1 false'
      · have refused : rtlTimeFieldsToTime fields = none := by
          rw [rtlTimeFieldsToTime, if_neg]
          exact fun accepted => (accepted_iff.mp accepted).elim real false'
        rw [refused]
        exact iff_of_true ⟨iff_of_false (by simp) real, by simp⟩
          ⟨false', fun real' => absurd real' real⟩

/-- The 29 February 1601 is accepted, and taken for the first of March. -/
theorem false_leap_day_accepted : ¬ (⟨1601, 2, 29, 0, 0, 0, 0, 0⟩ : TimeFields).RoundTrips := by
  intro trips
  have accepted : (rtlTimeFieldsToTime ⟨1601, 2, 29, 0, 0, 0, 0, 0⟩).isSome := by decide
  have day := (trips.1.mp accepted).date.lastDay
  exact absurd day (by decide)

end WineRedRose.Time
