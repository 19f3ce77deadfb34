import SeqScript.Proofs.Time.Calendar
import SeqScript.Time.Text

/-!
# Dates of instants

A first day that is counted in words is that of the calendar (`daysBeforeYear_of_firstDay?`).  Up to
a million million years and days nothing that is counted leaves a word, and the search for the year
of a day stops at it (`firstDay?_eq`, `date?_eq`).  The days of all instants are as near as that, so
that each instant has its date in the calendar (`Instant.date?_day`).
-/

namespace SeqScript

open Text (padded)

namespace Calendar

/-! ### Checked numbers -/

theorem inWord_iff {n : Int} :
    InWord n ↔ -9223372036854775808 ≤ n ∧ n ≤ 9223372036854775807 := Iff.rfl

theorem word?_eq_some_iff {n m : Int} : word? n = some m ↔ InWord n ∧ m = n := by
  unfold word?
  split_ifs with h
  · rw [Option.some.injEq, eq_comm, and_iff_right h]
  · exact iff_of_false not_false fun fits => h fits.1

theorem word?_eq {n : Int} (h : InWord n) : word? n = some n := word?_eq_some_iff.2 ⟨h, rfl⟩

/-- So near to zero that what is counted from a year or a day stays in a word. -/
def IsNear (n : Int) : Prop := -1000000000000 ≤ n ∧ n ≤ 1000000000000

/-! ### The first day of a year -/

/-- The days before a year, by eras of 400 years. -/
theorem daysBeforeYear_eq_eras (year : Int) :
    daysBeforeYear year = (year - 1) / 400 * 146097 + ((year - 1) % 400 * 365 +
      (year - 1) % 400 / 4 - (year - 1) % 400 / 100 + 306) - 719468 := by
  simp only [daysBeforeYear, leapYearsThrough]
  omega

theorem daysBeforeYear_of_firstDay? {year first : Int} (h : firstDay? year = some first) :
    daysBeforeYear year = first := by
  simp only [firstDay?, Option.bind_eq_bind, Option.bind_eq_some_iff, word?_eq_some_iff] at h
  obtain ⟨_, ⟨-, rfl⟩, _, ⟨-, rfl⟩, _, ⟨-, rfl⟩, _, ⟨-, rfl⟩, _, ⟨-, rfl⟩, _, ⟨-, rfl⟩, _, ⟨-, rfl⟩,
    _, ⟨-, rfl⟩, _, ⟨-, rfl⟩, -, rfl⟩ := h
  exact daysBeforeYear_eq_eras year

theorem firstDay?_eq {year : Int} (h : IsNear year) :
    firstDay? year = some (daysBeforeYear year) := by
  obtain ⟨low, high⟩ := h
  rw [daysBeforeYear_eq_eras]
  simp (disch := (rw [inWord_iff]; omega)) only [firstDay?, word?_eq, Option.bind_eq_bind,
    Option.bind_some]

/-! ### The search for the year -/

/-- Going back stops at once in a year that is not after that of the day, else at that year. -/
theorem back?_eq {day year : Int} (near : IsNear year) (nearDay : IsNear (yearOfDay day)) :
    back? day year = some (min year (yearOfDay day)) := by
  -- By induction on how many years `year` is after that of the day.
  rw [back?, firstDay?_eq near, Option.bind_eq_bind, Option.bind_some]
  by_cases late : day < daysBeforeYear year
  · have after : yearOfDay day < year := by
      rw [← Int.not_le, le_yearOfDay_iff]
      exact Int.not_le.2 late
    have fits : InWord (year - 1) := by
      rw [inWord_iff]
      unfold IsNear at near
      omega
    have earlier : IsNear (year - 1) := by
      unfold IsNear at near nearDay ⊢
      omega
    rw [if_pos late, dif_pos fits, back?_eq earlier nearDay]
    congr 1
    omega
  · have before := le_yearOfDay_iff.2 (Int.not_lt.1 late)
    rw [if_neg late, Int.min_eq_left before]
termination_by (year - yearOfDay day).toNat

/-- Going forth from a year that is not after that of the day stops at that year. -/
theorem forth?_eq {day year : Int} (near : IsNear year) (nearNext : IsNear (yearOfDay day + 1))
    (before : year ≤ yearOfDay day) : forth? day year = some (yearOfDay day) := by
  -- By induction on how many years `year` is before that of the day, which it never passes.
  have next : IsNear (year + 1) := by
    unfold IsNear at near nearNext ⊢
    omega
  have fits : InWord (year + 1) := by
    rw [inWord_iff]
    unfold IsNear at next
    omega
  rw [forth?, dif_pos fits, firstDay?_eq next, Option.bind_eq_bind, Option.bind_some]
  by_cases early : daysBeforeYear (year + 1) ≤ day
  · have notLast := le_yearOfDay_iff.2 early
    rw [if_pos early]
    exact forth?_eq next nearNext notLast
  · have last : ¬ year + 1 ≤ yearOfDay day := mt le_yearOfDay_iff.1 early
    rw [if_neg early]
    congr 1
    omega
termination_by (yearOfDay day - year).toNat

/-- The years of near days lie well within the near years. -/
theorem yearOfDay_bounds_of_near {day : Int} (h : IsNear day) :
    -4000000000 ≤ yearOfDay day ∧ yearOfDay day ≤ 4000000000 := by
  obtain ⟨low, high⟩ := h
  have first : daysBeforeYear (-4000000000) ≤ -1000000000000 := by decide
  have last : 1000000000000 < daysBeforeYear 4000000001 := by decide
  constructor
  · exact le_yearOfDay_iff.2 (Int.le_trans first low)
  · have notAfter : ¬ 4000000001 ≤ yearOfDay day := by
      rw [le_yearOfDay_iff]
      omega
    omega

/-- The search finds the date of the calendar. -/
theorem date?_eq {day : Int} (h : IsNear day) :
    date? day = some ⟨yearOfDay day, dayOfYear day⟩ := by
  obtain ⟨low, high⟩ := yearOfDay_bounds_of_near h
  have first := one_le_dayOfYear day
  have last := dayOfYear_le day
  have short := daysInYear_le (yearOfDay day)
  -- The years that the search tests lie between the estimate and the year after that of the day.
  have nearYear : IsNear (yearOfDay day) := by unfold IsNear; omega
  have nearNext : IsNear (yearOfDay day + 1) := by unfold IsNear; omega
  have nearEstimate : IsNear (1970 + day / 365) := by unfold IsNear at h ⊢; omega
  have nearStart : IsNear (min (1970 + day / 365) (yearOfDay day)) := by
    unfold IsNear at *
    omega
  -- The other numbers on the way to the date.
  have years : InWord (day / 365) := by rw [inWord_iff]; unfold IsNear at h; omega
  have estimate : InWord (1970 + day / 365) := by rw [inWord_iff]; unfold IsNear at h; omega
  have passed : InWord (day - daysBeforeYear (yearOfDay day)) := by
    rw [inWord_iff]
    unfold dayOfYear at first last
    omega
  have number : InWord (dayOfYear day) := by rw [inWord_iff]; omega
  unfold dayOfYear at number
  simp only [date?, word?_eq years, word?_eq estimate, back?_eq nearEstimate nearYear,
    forth?_eq nearStart nearNext (Int.min_le_right _ _), firstDay?_eq nearYear, word?_eq passed,
    word?_eq number, Option.bind_eq_bind, Option.bind_some, Option.pure_def, dayOfYear]

end Calendar

/-! ### Instants -/

namespace Instant

theorem isNear_day (i : Instant) : Calendar.IsNear i.day := by
  have low := i.millis.le_toInt
  have high := i.millis.toInt_lt
  simp only [Calendar.IsNear, day, dayMillis, hourMillis, minuteMillis, secondMillis]
  omega

/-- Every instant has a date. -/
theorem date?_day (i : Instant) :
    Calendar.date? i.day = some ⟨Calendar.yearOfDay i.day, Calendar.dayOfYear i.day⟩ :=
  Calendar.date?_eq i.isNear_day

theorem chars_eq (i : Instant) :
    i.chars = padded 4 (Calendar.yearOfDay i.day) ++ '-' ::
      padded 3 (Calendar.dayOfYear i.day) ++ 'T' :: clockText i.millisOfDay := by
  rw [chars, date?_day]

end Instant

end SeqScript
