import SeqScript.Proofs.Time.Date

/-!
# The calendar by the lengths of its years

The days before a year are the signed sum of the lengths of the years from 1970 to it
(`daysBeforeYear_eq_daysTo`).  The date of an instant is the only one that counts its day
(`Instant.exists_unique_date`).
-/

namespace SeqScript

namespace Calendar

/-- The days of `n` years from `first` on. -/
def daysOfYears (first : Int) : Nat → Int
  | 0 => 0
  | n + 1 => daysOfYears first n + daysInYear (first + n)

/-- The days from the start of 1970 to the start of a year, negative for an earlier year. -/
def daysTo (year : Int) : Int :=
  daysOfYears 1970 (year - 1970).toNat - daysOfYears year (1970 - year).toNat

theorem daysOfYears_eq (first : Int) (n : Nat) :
    daysOfYears first n = daysBeforeYear (first + n) - daysBeforeYear first := by
  induction n with
  | zero => simp [daysOfYears]
  | succ n ih =>
    rw [daysOfYears, ih, Int.natCast_succ, ← Int.add_assoc, daysBeforeYear_succ]
    omega

theorem daysBeforeYear_eq_daysTo (year : Int) : daysBeforeYear year = daysTo year := by
  have start : daysBeforeYear 1970 = 0 := by decide
  rw [daysTo, daysOfYears_eq, daysOfYears_eq, start]
  rcases Int.le_total 1970 year with h | h
  · have forth : (1970 : Int) + (year - 1970).toNat = year := by omega
    have back : year + (1970 - year).toNat = year := by omega
    rw [forth, back]
    omega
  · have forth : (1970 : Int) + (year - 1970).toNat = 1970 := by omega
    have back : year + (1970 - year).toNat = 1970 := by omega
    rw [forth, back]
    omega

example : daysTo 1969 = -365 ∧ daysTo 1973 = 1096 := by decide

/-- The date is that of the day, by the first day of its year in words. -/
structure Date.Counts (date : Date) (day : Int) : Prop where
  one_le : 1 ≤ date.dayOfYear
  le : date.dayOfYear ≤ daysInYear date.year
  count : ∃ first, firstDay? date.year = some first ∧ first + date.dayOfYear - 1 = day

/-- A date that counts a day is its date in the calendar. -/
theorem Date.Counts.eq {date : Date} {day : Int} (h : date.Counts day) :
    date = ⟨yearOfDay day, Calendar.dayOfYear day⟩ := by
  obtain ⟨first, counted, total⟩ := h.count
  obtain rfl := daysBeforeYear_of_firstDay? counted
  have year := yearOfDay_eq h.one_le h.le
  rw [total] at year
  have number : date.dayOfYear = Calendar.dayOfYear day := by
    rw [Calendar.dayOfYear, year]
    omega
  rw [year, ← number]

theorem counts_date {day : Int} (h : IsNear (yearOfDay day)) :
    (⟨yearOfDay day, dayOfYear day⟩ : Date).Counts day :=
  ⟨one_le_dayOfYear day, dayOfYear_le day, _, firstDay?_eq h, daysBeforeYear_add_dayOfYear day⟩

end Calendar

open Calendar

/-- The date of an instant is found in words, as the only one that counts its day, and the first
days of its year and of the next one are told by the lengths of the years from 1970. -/
theorem Instant.exists_unique_date (i : Instant) : ∃ date, date? i.day = some date ∧
    (∀ other : Date, other.Counts i.day ↔ other = date) ∧
    (∃ first next, firstDay? date.year = some first ∧ firstDay? (date.year + 1) = some next ∧
      next - first = daysInYear date.year ∧ first = daysTo date.year) ∧
    firstDay? 1970 = some 0 := by
  have bounds := yearOfDay_bounds_of_near i.isNear_day
  have near : IsNear (yearOfDay i.day) := by unfold IsNear; omega
  have nearNext : IsNear (yearOfDay i.day + 1) := by unfold IsNear; omega
  refine ⟨_, i.date?_day, fun other => ?_, ?_, by decide⟩
  · constructor
    · intro counts
      exact counts.eq
    · rintro rfl
      exact counts_date near
  · refine ⟨_, _, firstDay?_eq near, firstDay?_eq nearNext, ?_, daysBeforeYear_eq_daysTo _⟩
    rw [daysBeforeYear_succ]
    omega

end SeqScript
