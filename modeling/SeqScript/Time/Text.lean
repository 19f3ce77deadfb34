import SeqScript.Text.Digit
import SeqScript.Time.Basic
import SeqScript.Time.Date

/-!
# Written times

An instant is written `YYYY-DDDThh:mm:ss.sss` by year and day of year, a duration
`hh:mm:ss.sss` with a minus sign in front of a negative one and as many digits of hours as it
takes.  The magnitude of a duration is taken in its own 64-bit word, where the least one has none
and keeps its sign.
-/

namespace SeqScript

open Text (padded)

/-- A count of milliseconds as hours, minutes, seconds and milliseconds. -/
def clockText (millis : Int) : List Char :=
  padded 2 (millis.tdiv hourMillis) ++ ':' ::
    padded 2 ((millis.tmod hourMillis).tdiv minuteMillis) ++ ':' ::
    padded 2 ((millis.tmod minuteMillis).tdiv secondMillis) ++ '.' ::
    padded 3 (millis.tmod secondMillis)

namespace Instant

def day (i : Instant) : Int := i.millis.toInt / dayMillis

def millisOfDay (i : Instant) : Int := i.millis.toInt % dayMillis

/-- The date and the clock time.  The date never fails: that of every instant fits words. -/
def chars (i : Instant) : List Char :=
  match Calendar.date? i.day with
  | none => []
  | some date =>
    padded 4 date.year ++ '-' :: padded 3 date.dayOfYear ++ 'T' :: clockText i.millisOfDay

/-- The instant as `YYYY-DDDThh:mm:ss.sss`. -/
def text (i : Instant) : String := String.ofList i.chars

end Instant

namespace Duration

def magnitude (d : Duration) : Int64 := d.millis.abs

def chars (d : Duration) : List Char :=
  let clock := clockText d.magnitude.toInt
  if d.millis < 0 then '-' :: clock else clock

/-- The duration as `hh:mm:ss.sss`. -/
def text (d : Duration) : String := String.ofList d.chars

end Duration

end SeqScript
