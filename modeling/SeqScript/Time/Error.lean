import SeqScript.Text.Escaped

/-!
# Malformed times

A text that is no time is refused with the form it should have had, the text itself and the first
rule it breaks.
-/

namespace SeqScript

/-- The two written forms of a time. -/
inductive TimeForm where
  | instant
  | duration
  deriving DecidableEq

namespace TimeForm

def name : TimeForm → String
  | instant => "day-of-year timestamp"
  | duration => "hh:mm:ss duration"

def shape : TimeForm → String
  | instant => "YYYY-DDDThh:mm:ss.sss"
  | duration => "hh:mm:ss.sss"

end TimeForm

/-- The rule that a text breaks. -/
inductive TimeFault where
  | shape (form : TimeForm)
  | dayOutsideYear (day year : Nat)
  | minute (value : Nat)
  | second (value : Nat)
  | hour
  | negativeZero
  deriving DecidableEq

def TimeFault.message : TimeFault → String
  | shape form => "expected " ++ form.shape
  | dayOutsideYear day year => "day " ++ toString day ++ " is outside year " ++ toString year
  | minute value => "minute " ++ toString value ++ " must be below 60"
  | second value => "second " ++ toString value ++ " must be below 60"
  | hour => "hour must be below 24"
  | negativeZero => "a zero duration cannot be negative"

structure TimeError where
  form : TimeForm
  input : String
  fault : TimeFault
  deriving DecidableEq

def TimeError.message (e : TimeError) : String :=
  "invalid " ++ e.form.name ++ " " ++ Text.escaped e.input ++ ": " ++ e.fault.message

end SeqScript
