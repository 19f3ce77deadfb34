import SeqScript.Time.Calendar

/-!
# Dates in machine words

The date of a day is found in checked arithmetic of signed 64-bit words: a number that does not fit
a word (`InWord`) ends the count without a date.  Years of 365 days give an estimate of the year,
which is then corrected year by year, first back and then forth.
-/

namespace SeqScript.Calendar

/-- The number fits a signed 64-bit word. -/
def InWord (n : Int) : Prop := Int64.minValue.toInt ≤ n ∧ n ≤ Int64.maxValue.toInt

instance (n : Int) : Decidable (InWord n) := inferInstanceAs (Decidable (_ ∧ _))

/-- The number, if a word holds it. -/
def word? (n : Int) : Option Int := if InWord n then some n else none

/-- The first day of a year, counted by eras of 400 years.  It comes 306 days after a first of
March, and a year from March on has its leap day at the end. -/
def firstDay? (year : Int) : Option Int := do
  let marchYear ← word? (year - 1)
  let era ← word? (marchYear / 400)
  let yearOfEra ← word? (marchYear % 400)
  let commonDays ← word? (yearOfEra * 365)
  let fourthDays ← word? (commonDays + yearOfEra / 4)
  let leapDays ← word? (fourthDays - yearOfEra / 100)
  let dayOfEra ← word? (leapDays + 306)
  let eraDays ← word? (era * 146097)
  let days ← word? (eraDays + dayOfEra)
  word? (days - 719468)

/-- The last year not after `year` that does not begin after the day. -/
def back? (day year : Int) : Option Int := do
  if day < (← firstDay? year) then
    if fits : InWord (year - 1) then back? day (year - 1) else none
  else
    some year
termination_by (year - Int64.minValue.toInt).toNat
decreasing_by
  unfold InWord at fits
  omega

/-- The first year not before `year` whose next year begins after the day. -/
def forth? (day year : Int) : Option Int := do
  if fits : InWord (year + 1) then
    if (← firstDay? (year + 1)) ≤ day then forth? day (year + 1) else some year
  else
    none
termination_by (Int64.maxValue.toInt - year).toNat
decreasing_by
  unfold InWord at fits
  omega

/-- A year and the number of a day in it, from 1. -/
structure Date where
  year : Int
  dayOfYear : Int
  deriving DecidableEq

/-- The date of a day, if every number on the way to it fits a word. -/
def date? (day : Int) : Option Date := do
  let years ← word? (day / 365)
  let estimate ← word? (1970 + years)
  let year ← forth? day (← back? day estimate)
  let passed ← word? (day - (← firstDay? year))
  return ⟨year, ← word? (passed + 1)⟩

end SeqScript.Calendar
