import Mathlib.Tactic.Common
import SeqScript.Time.Calendar

/-!
# Years and days

The first days of two consecutive years are as far apart as the earlier year is long
(`daysBeforeYear_succ`), and the year of a day is the one whose first day is the last not after it
(`daysBeforeYear_yearOfDay_le`, `lt_daysBeforeYear_yearOfDay_succ`).
-/

namespace SeqScript.Calendar

theorem daysInYear_eq (year : Int) :
    daysInYear year = 365 + (leapYearsThrough year - leapYearsThrough (year - 1)) := by
  unfold daysInYear
  split_ifs with h
  · simp only [isLeapYear, Bool.or_eq_true, Bool.and_eq_true, beq_iff_eq, bne_iff_ne] at h
    simp only [leapYearsThrough]
    omega
  · simp only [isLeapYear, Bool.or_eq_true, Bool.and_eq_true, beq_iff_eq, bne_iff_ne] at h
    simp only [leapYearsThrough]
    omega

theorem daysBeforeYear_succ (year : Int) :
    daysBeforeYear (year + 1) = daysBeforeYear year + daysInYear year := by
  rw [daysInYear_eq, daysBeforeYear, daysBeforeYear, Int.add_sub_cancel]
  omega

theorem daysBeforeYear_strictMono {a b : Int} (h : a < b) :
    daysBeforeYear a < daysBeforeYear b := by
  simp only [daysBeforeYear, leapYearsThrough]
  omega

theorem daysBeforeYear_mono {a b : Int} (h : a ≤ b) : daysBeforeYear a ≤ daysBeforeYear b := by
  rcases Int.lt_or_eq_of_le h with h | rfl
  · exact Int.le_of_lt (daysBeforeYear_strictMono h)
  · exact Int.le_refl _

theorem daysBeforeYear_zero : daysBeforeYear 0 = -719528 := by decide

theorem daysBeforeYear_tenThousand : daysBeforeYear 10000 = 2932897 := by decide

theorem daysInYear_le (year : Int) : daysInYear year ≤ 366 := by
  unfold daysInYear
  split_ifs <;> decide

/-! ### The year of a day -/

/-- The estimate is off by at most one year either way. -/
theorem estimatedYear_spec (day : Int) :
    daysBeforeYear (estimatedYear day - 1) ≤ day ∧
      day < daysBeforeYear (estimatedYear day + 1 + 1) := by
  simp only [daysBeforeYear, leapYearsThrough, estimatedYear, Int.add_sub_cancel]
  constructor
  · omega
  · omega

theorem yearOfDay_spec (day : Int) :
    daysBeforeYear (yearOfDay day) ≤ day ∧ day < daysBeforeYear (yearOfDay day + 1) := by
  obtain ⟨low, high⟩ := estimatedYear_spec day
  simp only [yearOfDay]
  split_ifs with h₁ h₂
  · exact ⟨low, by rwa [Int.sub_add_cancel]⟩
  · exact ⟨h₂, high⟩
  · exact ⟨by omega, by omega⟩

theorem daysBeforeYear_yearOfDay_le (day : Int) : daysBeforeYear (yearOfDay day) ≤ day :=
  (yearOfDay_spec day).1

theorem lt_daysBeforeYear_yearOfDay_succ (day : Int) : day < daysBeforeYear (yearOfDay day + 1) :=
  (yearOfDay_spec day).2

theorem le_yearOfDay_iff {year day : Int} : year ≤ yearOfDay day ↔ daysBeforeYear year ≤ day := by
  constructor
  · intro h
    exact Int.le_trans (daysBeforeYear_mono h) (daysBeforeYear_yearOfDay_le day)
  · intro h
    by_contra late
    have next := daysBeforeYear_mono (Int.add_one_le_of_lt (Int.not_le.1 late))
    have bound := lt_daysBeforeYear_yearOfDay_succ day
    omega

theorem one_le_dayOfYear (day : Int) : 1 ≤ dayOfYear day := by
  have := daysBeforeYear_yearOfDay_le day
  simp only [dayOfYear]
  omega

theorem dayOfYear_le (day : Int) : dayOfYear day ≤ daysInYear (yearOfDay day) := by
  have := lt_daysBeforeYear_yearOfDay_succ day
  have := daysBeforeYear_succ (yearOfDay day)
  simp only [dayOfYear]
  omega

/-- A day is found again from its year and its number in it. -/
theorem daysBeforeYear_add_dayOfYear (day : Int) :
    daysBeforeYear (yearOfDay day) + dayOfYear day - 1 = day := by
  simp only [dayOfYear]
  omega

/-- The year of a day that is counted in it. -/
theorem yearOfDay_eq {year day : Int} (low : 1 ≤ day) (high : day ≤ daysInYear year) :
    yearOfDay (daysBeforeYear year + day - 1) = year := by
  have next := daysBeforeYear_succ year
  have notBefore : year ≤ yearOfDay (daysBeforeYear year + day - 1) :=
    le_yearOfDay_iff.2 (by omega)
  have notAfter : ¬ year + 1 ≤ yearOfDay (daysBeforeYear year + day - 1) := by
    rw [le_yearOfDay_iff]
    omega
  omega

end SeqScript.Calendar
