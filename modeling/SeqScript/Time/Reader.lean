import SeqScript.Text.Blank
import SeqScript.Text.Digit
import SeqScript.Time.Basic
import SeqScript.Time.Calendar
import SeqScript.Time.Error

/-!
# Reading times

A time is trimmed of blanks, split into its fields, and then its fields are checked in a fixed
order.  A fraction may have one to three digits, and an instant may end in `Z`.  Digits of every
script fit a field; a field with one outside ASCII counts as zero.
-/

namespace SeqScript

open Text (isAnyDigit fieldValue)

/-- The fields of a clock time. -/
structure ClockFields where
  hours : Nat
  minutes : Nat
  seconds : Nat
  millis : Nat
  deriving DecidableEq

namespace ClockFields

/-- The count of milliseconds, once the minutes and seconds are in range. -/
def total (f : ClockFields) : Except TimeFault Int :=
  if 60 ≤ f.minutes then .error (.minute f.minutes)
  else if 60 ≤ f.seconds then .error (.second f.seconds)
  else .ok (f.hours * hourMillis + f.minutes * minuteMillis + f.seconds * secondMillis + f.millis)

end ClockFields

/-- Milliseconds of a fraction of a second: the missing digits are zeros. -/
def fractionMillis (ds : List Char) : Nat :=
  fieldValue (ds ++ List.replicate (3 - ds.length) '0')

/-- The milliseconds in what follows the seconds, if that is empty or a fraction. -/
def fraction? : List Char → Option Nat
  | [] => some 0
  | '.' :: ds =>
    if 1 ≤ ds.length && ds.length ≤ 3 && ds.all isAnyDigit then some (fractionMillis ds)
    else none
  | _ => none

/-- The fields after the hours: `:mm:ss` and a fraction. -/
def minutesOn? (hours : Nat) : List Char → Option ClockFields
  | ':' :: m₁ :: m₂ :: ':' :: s₁ :: s₂ :: rest =>
    if [m₁, m₂, s₁, s₂].all isAnyDigit then
      (fraction? rest).map (⟨hours, fieldValue [m₁, m₂], fieldValue [s₁, s₂], ·⟩)
    else none
  | _ => none

/-- The text without one `Z` at its end. -/
def dropZulu (cs : List Char) : List Char :=
  if cs.getLast? = some 'Z' then cs.dropLast else cs

namespace Instant

/-- The fields of `YYYY-DDDThh:mm:ss`, a fraction and an optional `Z`. -/
structure Fields where
  year : Nat
  day : Nat
  clock : ClockFields

def fields? : List Char → Option Fields
  | y₁ :: y₂ :: y₃ :: y₄ :: '-' :: d₁ :: d₂ :: d₃ :: 'T' :: h₁ :: h₂ :: rest =>
    if [y₁, y₂, y₃, y₄, d₁, d₂, d₃, h₁, h₂].all isAnyDigit then
      (minutesOn? (fieldValue [h₁, h₂]) (dropZulu rest)).map
        (⟨fieldValue [y₁, y₂, y₃, y₄], fieldValue [d₁, d₂, d₃], ·⟩)
    else none
  | _ => none

def ofFields (f : Fields) : Except TimeFault Instant :=
  if f.day < 1 ∨ Calendar.daysInYear f.year < f.day then .error (.dayOutsideYear f.day f.year)
  else match f.clock.total with
    | .error e => .error e
    | .ok millis =>
      if dayMillis ≤ millis then .error .hour
      else .ok ⟨.ofInt ((Calendar.daysBeforeYear f.year + f.day - 1) * dayMillis + millis)⟩

def ofTrimmed (cs : List Char) : Except TimeFault Instant :=
  match fields? cs with
  | none => .error (.shape .instant)
  | some f => ofFields f

/-- Reads `YYYY-DDDThh:mm:ss[.sss][Z]`. -/
def read (s : String) : Except TimeError Instant :=
  (ofTrimmed (Text.trim s.toList)).mapError (⟨.instant, s, ·⟩)

end Instant

namespace Duration

/-- A sign and the fields of `hh:mm:ss` and a fraction, with two to six digits of hours. -/
structure Fields where
  negative : Bool
  clock : ClockFields

def unsignedFields? (cs : List Char) : Option ClockFields :=
  let hours := cs.takeWhile isAnyDigit
  if 2 ≤ hours.length && hours.length ≤ 6 then
    minutesOn? (fieldValue hours) (cs.dropWhile isAnyDigit)
  else none

def fields? : List Char → Option Fields
  | '-' :: cs => (unsignedFields? cs).map (⟨true, ·⟩)
  | cs => (unsignedFields? cs).map (⟨false, ·⟩)

def ofFields (f : Fields) : Except TimeFault Duration :=
  match f.clock.total with
  | .error e => .error e
  | .ok millis =>
    if f.negative ∧ millis = 0 then .error .negativeZero
    else .ok ⟨.ofInt (if f.negative then -millis else millis)⟩

def ofTrimmed (cs : List Char) : Except TimeFault Duration :=
  match fields? cs with
  | none => .error (.shape .duration)
  | some f => ofFields f

/-- Reads `[-]hh:mm:ss[.sss]`. -/
def read (s : String) : Except TimeError Duration :=
  (ofTrimmed (Text.trim s.toList)).mapError (⟨.duration, s, ·⟩)

end Duration

end SeqScript
