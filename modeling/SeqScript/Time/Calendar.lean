/-!
# The day-of-year calendar

Days are counted from 1970-01-01 in the proleptic Gregorian calendar, years and days without bound
in both directions.  `daysBeforeYear` counts the days up to a year by its leap years, and
`yearOfDay` inverts it: the mean length of a year gives an estimate that is off by at most one.
-/

namespace SeqScript.Calendar

def isLeapYear (year : Int) : Bool :=
  (year % 4 == 0 && year % 100 != 0) || year % 400 == 0

def daysInYear (year : Int) : Int := if isLeapYear year then 366 else 365

/-- Leap years up to and including `year`, counted from year 1. -/
def leapYearsThrough (year : Int) : Int := year / 4 - year / 100 + year / 400

/-- Days from 1970-01-01 to the first day of `year`. -/
def daysBeforeYear (year : Int) : Int :=
  365 * (year - 1) + leapYearsThrough (year - 1) - 719162

/-- The year of a day as its distance in mean years of `146097 / 400` days tells it. -/
def estimatedYear (day : Int) : Int := 1970 + 400 * day / 146097

/-- The year that holds a day. -/
def yearOfDay (day : Int) : Int :=
  let year := estimatedYear day
  if day < daysBeforeYear year then year - 1
  else if daysBeforeYear (year + 1) ≤ day then year + 1
  else year

/-- The number of a day in its year, from 1. -/
def dayOfYear (day : Int) : Int := day - daysBeforeYear (yearOfDay day) + 1

end SeqScript.Calendar
