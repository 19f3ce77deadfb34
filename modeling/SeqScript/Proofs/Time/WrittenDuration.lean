import SeqScript.Proofs.Time.WrittenInstant

/-!
# What a duration is written as

A duration is written in full: a minus sign if it is negative, the hours, the minutes, the seconds
and three digits of a fraction, which denote its milliseconds.  The least duration is the only one
that is not (`Duration.exists_isFull_iff`): it has no magnitude, so that every part keeps a sign of
its own.
-/

namespace SeqScript

open Text
open WrittenInstant (fractionText fractionText_of_pos)

/-- The parts of a text `hh:mm:ss`, with a minus sign in front of it or without, and with the digits
of a fraction, or none. -/
structure WrittenDuration where
  negative : Bool
  hours : List Char
  minutes : List Char
  seconds : List Char
  fraction : List Char

namespace WrittenDuration

def parts (w : WrittenDuration) : List (List Char) := [w.hours, w.minutes, w.seconds, w.fraction]

def signText (negative : Bool) : List Char := if negative then ['-'] else []

def chars (w : WrittenDuration) : List Char :=
  signText w.negative ++ w.hours ++ ':' :: w.minutes ++ ':' :: w.seconds ++
    fractionText w.fraction

/-- The parts have the digits of a duration that leaves nothing out. -/
structure IsFull (w : WrittenDuration) : Prop where
  hours : 2 ≤ w.hours.length
  minutes : w.minutes.length = 2
  seconds : w.seconds.length = 2
  fraction : w.fraction.length = 3
  minutes_lt : digitsValue w.minutes < 60
  seconds_lt : digitsValue w.seconds < 60
  digits : ∀ p ∈ w.parts, ∀ c ∈ p, c.isDigit

/-- The milliseconds that the parts denote, with three digits of a fraction. -/
def millis (w : WrittenDuration) : Int :=
  let magnitude := digitsValue w.hours * hourMillis + digitsValue w.minutes * minuteMillis +
    digitsValue w.seconds * secondMillis + digitsValue w.fraction
  if w.negative then -magnitude else magnitude

/-- The parts that a count of milliseconds is written with. -/
def ofMillis (m : Int) : WrittenDuration where
  negative := m < 0
  hours := padded 2 (m.natAbs / 3600000 : Nat)
  minutes := padded 2 (m.natAbs % 3600000 / 60000 : Nat)
  seconds := padded 2 (m.natAbs % 60000 / 1000 : Nat)
  fraction := padded 3 (m.natAbs % 1000 : Nat)

theorem chars_ofMillis (m : Int) :
    (ofMillis m).chars = if m < 0 then '-' :: clockText m.natAbs else clockText m.natAbs := by
  have filled : 0 < (padded 3 (m.natAbs % 1000 : Nat)).length := by
    rw [length_padded]
    omega
  have clock (sign : List Char) : sign ++ clockText m.natAbs = sign ++ (ofMillis m).hours ++
      ':' :: (ofMillis m).minutes ++ ':' :: (ofMillis m).seconds ++
        fractionText (ofMillis m).fraction := by
    rw [clockText_natCast, ofMillis, fractionText_of_pos filled]
    simp only [List.append_assoc, List.cons_append]
  rw [chars, ← clock, signText, ofMillis]
  by_cases negative : m < 0
  · rw [if_pos negative, if_pos (decide_eq_true negative), List.singleton_append]
  · rw [if_neg negative, if_neg (decide_eq_false negative ▸ Bool.false_ne_true), List.nil_append]

theorem isFull_ofMillis (m : Int) : (ofMillis m).IsFull where
  hours := by
    rw [ofMillis, length_padded]
    omega
  minutes := length_padded_of_lt 2 (by decide) (by omega)
  seconds := length_padded_of_lt 2 (by decide) (by omega)
  fraction := length_padded_of_lt 3 (by decide) (by omega)
  minutes_lt := by
    rw [ofMillis, digitsValue_padded]
    omega
  seconds_lt := by
    rw [ofMillis, digitsValue_padded]
    omega
  digits := by
    simp only [parts, ofMillis, List.forall_mem_cons, List.not_mem_nil, false_imp_iff,
      implies_true, and_true]
    exact ⟨fun _ => isDigit_of_mem_padded, fun _ => isDigit_of_mem_padded,
      fun _ => isDigit_of_mem_padded, fun _ => isDigit_of_mem_padded⟩

theorem millis_ofMillis (m : Int) : (ofMillis m).millis = m := by
  simp only [millis, ofMillis, digitsValue_padded, hourMillis, minuteMillis, secondMillis,
    decide_eq_true_eq]
  split_ifs with negative
  · omega
  · omega

/-- Behind its sign a duration in full begins with a digit. -/
theorem IsFull.exists_cons {w : WrittenDuration} (h : w.IsFull) :
    ∃ c x, w.chars = signText w.negative ++ c :: x ∧ c.isDigit := by
  rcases hours : w.hours with _ | ⟨c, cs⟩
  · have long := h.hours
    rw [hours] at long
    contradiction
  · have digit := h.digits w.hours List.mem_cons_self c (hours ▸ List.mem_cons_self)
    have text : w.chars = signText w.negative ++ c :: (cs ++ ':' :: w.minutes ++
        ':' :: w.seconds ++ fractionText w.fraction) := by
      rw [chars, hours]
      simp only [List.append_assoc, List.cons_append]
    exact ⟨c, _, text, digit⟩

/-- A duration in full has one sign at most. -/
theorem IsFull.chars_ne {w : WrittenDuration} (h : w.IsFull) (x : List Char) :
    w.chars ≠ '-' :: '-' :: x := by
  obtain ⟨c, y, text, digit⟩ := h.exists_cons
  rw [text, signText]
  split_ifs
  · rintro ⟨⟩
    contradiction
  · rintro ⟨⟩
    contradiction

end WrittenDuration

namespace Duration

theorem chars_least : chars ⟨Int64.minValue⟩ = "--2562047788015:-12:-55.-808".toList := by decide

theorem not_isFull_least {w : WrittenDuration} (h : w.IsFull) :
    chars ⟨Int64.minValue⟩ ≠ w.chars := by
  rw [chars_least]
  exact (h.chars_ne _).symm

/-- A duration is written in full, with a minus sign exactly if it is negative and with its own
milliseconds, unless it is the least. -/
theorem exists_isFull_iff (d : Duration) :
    (∃ w : WrittenDuration, w.IsFull ∧ d.text = String.ofList w.chars ∧
      (w.negative ↔ d.millis < 0) ∧ w.millis = d.millis.toInt) ↔ d.millis ≠ Int64.minValue := by
  constructor
  · rintro ⟨w, full, written, -, -⟩ least
    obtain ⟨m⟩ := d
    obtain rfl : m = Int64.minValue := least
    exact not_isFull_least full (String.ofList_injective written)
  · intro h
    have sign : d.millis < 0 ↔ d.millis.toInt < 0 := Int64.lt_iff_toInt_lt
    refine ⟨.ofMillis d.millis.toInt, WrittenDuration.isFull_ofMillis _, ?_, ?_,
      WrittenDuration.millis_ofMillis _⟩
    · rw [text, chars_eq h, WrittenDuration.chars_ofMillis]
    · rw [sign]
      exact decide_eq_true_iff

/-- The least duration keeps a sign in each of its parts, and so is not written in full. -/
theorem text_least :
    text ⟨Int64.minValue⟩ = "--2562047788015:-12:-55.-808" ∧
    ¬ ∃ w : WrittenDuration, w.IsFull ∧ text ⟨Int64.minValue⟩ = String.ofList w.chars := by
  constructor
  · rw [text, chars_least, String.ofList_toList]
  · rintro ⟨w, full, written⟩
    exact not_isFull_least full (String.ofList_injective written)

end Duration

end SeqScript
