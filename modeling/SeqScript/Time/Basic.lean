/-!
# Instants and durations

Both are counts of milliseconds in a signed 64-bit word: an instant counts from the start of 1970,
a duration is a signed span.
-/

namespace SeqScript

structure Instant where
  millis : Int64
  deriving DecidableEq

structure Duration where
  millis : Int64
  deriving DecidableEq

instance : Inhabited Instant := ⟨⟨0⟩⟩

instance : Inhabited Duration := ⟨⟨0⟩⟩

/-- Milliseconds in a second, a minute, an hour and a day. -/
def secondMillis : Int := 1000
def minuteMillis : Int := 60 * secondMillis
def hourMillis : Int := 60 * minuteMillis
def dayMillis : Int := 24 * hourMillis

end SeqScript
