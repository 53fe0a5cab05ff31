import WineRedRose.Library.Calendar

/-!
# Time fields

The conversions between times, counted in units of 100 ns since the beginning
of 1601, and their fields.  Divisions are those of C.  The fields are 16-bit
and the times 64-bit integers; none of the other intermediate values leaves
the range of its type.
-/

namespace WineRedRose.Time

def ticksPerSec : Int := 10000000
def ticksPerMsec : Int := 10000
def secsPerDay : Int := 86400
def secsPerHour : Int := 3600
def secsPerMin : Int := 60
def minsPerHour : Int := 60
def hoursPerDay : Int := 24

/-- 1601-01-01 was a Monday. -/
def epochWeekday : Int := 1

def daysPerWeek : Int := 7
def daysPerQuadricentennium : Int := 365 * 400 + 97
def daysPerNormalQuadrennium : Int := 365 * 4 + 1

/-- `TIME_FIELDS` -/
@[ext]
structure TimeFields where
  year : Int16
  month : Int16
  day : Int16
  hour : Int16
  minute : Int16
  second : Int16
  milliseconds : Int16
  weekday : Int16
deriving DecidableEq, Repr

/-- `MonthLengths` -/
def monthLengths (leap : Bool) (index : Nat) : Int :=
  (if leap then [31, 29, 31, 30, 31, 30, 31, 31, 30, 31, 30, 31]
    else [31, 28, 31, 30, 31, 30, 31, 31, 30, 31, 30, 31]).getD index 0

/-- `IsLeapYear` -/
def isLeapYear (year : Int) : Bool := year.tmod 4 = 0 ∧ (year.tmod 100 ≠ 0 ∨ year.tmod 400 = 0)

/-- The year, month and day of month in `RtlTimeToTimeFields`. -/
def dateOfDays (days : Int) : Int × Int × Int :=
  let cleaps := (3 * (4 * days + 1227).tdiv daysPerQuadricentennium + 3).tdiv 4
  let days := days + (28188 + cleaps)
  let years := (20 * days - 2442).tdiv (5 * daysPerNormalQuadrennium)
  let yearday := days - (years * daysPerNormalQuadrennium).tdiv 4
  let months := (64 * yearday).tdiv 1959
  -- the year starts in March here
  let (month, year) :=
    if months < 14 then (months - 1, years + 1524)
    else (months - 13, years + 1525)
  (year, month, yearday - (1959 * months).tdiv 64)

/-- `RtlTimeToTimeFields` -/
def rtlTimeToTimeFields (liTime : Int64) : TimeFields :=
  let quadPart := liTime.toInt
  let time := quadPart.tdiv ticksPerSec
  let days := time.tdiv secsPerDay
  let secondsInDay := time.tmod secsPerDay
  let secondsInHour := secondsInDay.tmod secsPerHour
  let date := dateOfDays days
  { milliseconds := .ofInt ((quadPart.tmod ticksPerSec).tdiv ticksPerMsec)
    hour := .ofInt (secondsInDay.tdiv secsPerHour)
    minute := .ofInt (secondsInHour.tdiv secsPerMin)
    second := .ofInt (secondsInHour.tmod secsPerMin)
    weekday := .ofInt ((epochWeekday + days).tmod daysPerWeek)
    year := .ofInt date.1
    month := .ofInt date.2.1
    day := .ofInt date.2.2 }

/-- The checks at the beginning of `RtlTimeFieldsToTime`. -/
def TimeFields.accepted (fields : TimeFields) : Bool :=
  0 ≤ fields.milliseconds.toInt ∧ fields.milliseconds.toInt ≤ 999 ∧
  0 ≤ fields.second.toInt ∧ fields.second.toInt ≤ 59 ∧
  0 ≤ fields.minute.toInt ∧ fields.minute.toInt ≤ 59 ∧
  0 ≤ fields.hour.toInt ∧ fields.hour.toInt ≤ 23 ∧
  1 ≤ fields.month.toInt ∧ fields.month.toInt ≤ 12 ∧
  1 ≤ fields.day.toInt ∧
  fields.day.toInt ≤ monthLengths (fields.month.toInt = 2 || isLeapYear fields.year.toInt)
      (fields.month.toInt - 1).toNat ∧
  1601 ≤ fields.year.toInt

/-- The day count in `RtlTimeFieldsToTime`. -/
def dayCount (year month day : Int) : Int :=
  -- the year starts in March here
  let (month, year) := if month < 3 then (month + 13, year - 1) else (month + 1, year)
  let cleaps := (3 * year.tdiv 100 + 3).tdiv 4
  (36525 * year).tdiv 100 - cleaps + (1959 * month).tdiv 64 + day - 584817

/-- `RtlTimeFieldsToTime` -/
def rtlTimeFieldsToTime (fields : TimeFields) : Option Int64 :=
  if fields.accepted then
    let day := dayCount fields.year.toInt fields.month.toInt fields.day.toInt
    some (.ofInt (((((day * hoursPerDay + fields.hour.toInt) * minsPerHour +
        fields.minute.toInt) * secsPerMin + fields.second.toInt) * 1000 +
          fields.milliseconds.toInt) * ticksPerMsec))
  else none

end WineRedRose.Time
