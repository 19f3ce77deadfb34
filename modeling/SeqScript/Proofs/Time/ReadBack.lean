import SeqScript.Proofs.Time.OutOfRange
import SeqScript.Proofs.Time.Years

/-!
# Times that are read back

The text of an instant is read back as the instant in the years 0000 to 9999 of the calendar
(`Instant.read_text_eq_ok_iff`), and that of a duration as the duration below a million hours
(`Duration.read_text_eq`).  The text of any other time has not the form of one.
-/

namespace SeqScript

open Calendar

namespace Instant

/-- The instant lies in the year, whose ends are told by the lengths of the years from 1970. -/
def InYear (i : Instant) (year : Int) : Prop :=
  daysTo year * dayMillis ≤ i.millis.toInt ∧ i.millis.toInt < daysTo (year + 1) * dayMillis

theorem inYear_yearOfDay (i : Instant) : i.InYear (yearOfDay i.day) := by
  have first := daysBeforeYear_yearOfDay_le i.day
  have last := lt_daysBeforeYear_yearOfDay_succ i.day
  rw [daysBeforeYear_eq_daysTo] at first last
  exact ⟨Int.mul_le_of_le_ediv (by decide) first, Int.lt_mul_of_ediv_lt (by decide) last⟩

theorem hasFourDigitYear_iff_inYear (i : Instant) :
    i.HasFourDigitYear ↔ ∃ year, 0 ≤ year ∧ year ≤ 9999 ∧ i.InYear year := by
  constructor
  · intro h
    obtain ⟨low, high⟩ := yearOfDay_bounds h
    exact ⟨_, low, Int.le_of_lt_add_one high, i.inYear_yearOfDay⟩
  · rintro ⟨year, low, high, first, last⟩
    have start := daysBeforeYear_mono low
    have stop := daysBeforeYear_mono (Int.add_le_add_right high 1)
    rw [← daysBeforeYear_eq_daysTo] at first last
    constructor
    · exact Int.le_trans (Int.mul_le_mul_of_nonneg_right start (by decide)) first
    · exact Int.lt_of_lt_of_le last (Int.mul_le_mul_of_nonneg_right stop (by decide))

/-- The text of an instant is read back as the instant if its year is one of 0000 to 9999, and is
refused in every other year. -/
theorem read_text_eq_ok_iff (i : Instant) :
    (read i.text = .ok i ↔ ∃ year, 0 ≤ year ∧ year ≤ 9999 ∧ i.InYear year) ∧
    (read i.text = .error ⟨.instant, i.text, .shape .instant⟩ ↔
      ¬ ∃ year, 0 ≤ year ∧ year ≤ 9999 ∧ i.InYear year) := by
  rw [← hasFourDigitYear_iff_inYear]
  by_cases h : i.HasFourDigitYear
  · rw [read_text h]
    exact ⟨iff_of_true rfl h, iff_of_false nofun (not_not.2 h)⟩
  · rw [read_text_of_not_hasFourDigitYear h]
    exact ⟨iff_of_false nofun h, iff_of_true rfl h⟩

end Instant

/-- The text of a duration is read back as the duration below a million hours, and is refused from
there on. -/
theorem Duration.read_text_eq (d : Duration) :
    read d.text = if d.millis.toInt.natAbs < 3600000000000 then .ok d
      else .error ⟨.duration, d.text, .shape .duration⟩ := by
  have range : d.HasSixDigitHours ↔ d.millis.toInt.natAbs < 3600000000000 := by
    rw [hasSixDigitHours_iff]
    omega
  split_ifs with h
  · exact read_text (range.2 h)
  · exact read_text_of_not_hasSixDigitHours (mt range.1 h)

end SeqScript
