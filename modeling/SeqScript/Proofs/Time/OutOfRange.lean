import SeqScript.Proofs.Time.Injective
import SeqScript.Proofs.Time.RoundTrip

/-!
# Times that are refused from their texts

Every time has a text, but not every text of a time is read: an instant has to lie in a year of
four digits (`Instant.read_text_isOk_iff`) and a duration may have at most six digits of hours
(`Duration.read_text_isOk_iff`).  The sign of a year, and that which the least duration keeps in its
hours, stand where a digit has to.
-/

namespace SeqScript

open Text

/-! ### Instants -/

namespace Instant

/-- The four digits in front of the first dash are those of the year. -/
theorem year_of_fields? {year : Int} {x : List Char} {f : Fields}
    (h : fields? (padded 4 year ++ '-' :: x) = some f) : 0 ≤ year ∧ year < 10000 := by
  obtain ⟨ds, digits, nonempty, value, text⟩ := padded_eq 4 year
  have dash : isAnyDigit '-' = false := by decide
  unfold fields? at h
  split at h
  · rename_i y₁ y₂ y₃ y₄ d₁ d₂ d₃ h₁ h₂ rest same
    split_ifs at h with all
    simp only [List.all_cons, Bool.and_eq_true] at all
    obtain ⟨all₁, all₂, all₃, all₄, -⟩ := all
    rw [text] at same
    split_ifs at same with negative
    · -- A sign stands where the first digit has to.
      rw [← (List.cons.inj same).1, dash] at all₁
      contradiction
    · have run : ∀ c ∈ [y₁, y₂, y₃, y₄], isAnyDigit c := by simp [all₁, all₂, all₃, all₄]
      have stop (y : List Char) : ∀ c ∈ ('-' :: y).head?, isAnyDigit c = false := by
        rintro _ ⟨⟩
        exact dash
      obtain ⟨four, -⟩ := (append_run_iff (fun c mem => isAnyDigit_of_isDigit (digits c mem)) run
        (stop _) (stop _)).1 same
      have bound := digitsValue_lt digits
      rw [value, four] at bound
      simp only [List.length_cons, List.length_nil] at bound
      omega
  · contradiction

theorem hasFourDigitYear_of_yearOfDay {i : Instant} (low : 0 ≤ Calendar.yearOfDay i.day)
    (high : Calendar.yearOfDay i.day < 10000) : i.HasFourDigitYear := by
  have first : Calendar.daysBeforeYear 0 ≤ i.day := Calendar.le_yearOfDay_iff.1 low
  have last : i.day < Calendar.daysBeforeYear 10000 := by
    by_contra late
    have := Calendar.le_yearOfDay_iff.2 (Int.not_lt.1 late)
    omega
  exact ⟨Int.mul_le_of_le_ediv (by decide) first, Int.lt_mul_of_ediv_lt (by decide) last⟩

/-- The text of an instant can be taken apart only if its year has four digits. -/
theorem hasFourDigitYear_of_fields? {i : Instant} {f : Fields} (h : fields? i.chars = some f) :
    i.HasFourDigitYear := by
  rw [chars_eq, List.append_assoc] at h
  obtain ⟨low, high⟩ := year_of_fields? h
  exact hasFourDigitYear_of_yearOfDay low high

theorem read_text_of_not_hasFourDigitYear {i : Instant} (h : ¬ i.HasFourDigitYear) :
    read i.text = .error ⟨.instant, i.text, .shape .instant⟩ := by
  have unread : fields? i.chars = none := by
    cases found : fields? i.chars with
    | none => rfl
    | some f => exact absurd (hasFourDigitYear_of_fields? found) h
  rw [read, text, String.toList_ofList, trim_chars, ofTrimmed, unread]
  rfl

/-- The text of an instant is read exactly when its year has four digits. -/
theorem read_text_isOk_iff (i : Instant) :
    (∃ j, read i.text = .ok j) ↔ i.HasFourDigitYear := by
  refine ⟨?_, fun h => ⟨i, read_text h⟩⟩
  rintro ⟨j, h⟩
  by_contra out
  rw [read_text_of_not_hasFourDigitYear out] at h
  contradiction

end Instant

/-! ### Durations -/

namespace Duration

/-- At most six digits in front of the first colon are those of the hours. -/
theorem hours_of_unsignedFields? {hours : Int} {x : List Char} {f : ClockFields}
    (h : unsignedFields? (padded 2 hours ++ ':' :: x) = some f) :
    0 ≤ hours ∧ hours < 1000000 := by
  obtain ⟨ds, digits, nonempty, value, text⟩ := padded_eq 2 hours
  simp only [unsignedFields?] at h
  split_ifs at h with bounds
  simp only [Bool.and_eq_true, decide_eq_true_eq] at bounds
  rw [text] at bounds
  split_ifs at bounds with negative
  · have minus : isAnyDigit '-' = false := by decide
    rw [List.cons_append, List.takeWhile_cons_of_neg (by rw [minus]; exact Bool.false_ne_true)]
      at bounds
    exact absurd bounds.1 (by decide)
  · rw [(takeWhile_append_colon digits x).1] at bounds
    have bound := digitsValue_lt digits
    have short : 10 ^ ds.length ≤ 10 ^ 6 := Nat.pow_le_pow_right (by decide) bounds.2
    omega

theorem hasSixDigitHours_of_magnitude {d : Duration}
    (low : 0 ≤ d.magnitude.toInt.tdiv hourMillis)
    (high : d.magnitude.toInt.tdiv hourMillis < 1000000) : d.HasSixDigitHours := by
  rw [hasSixDigitHours_iff]
  by_cases least : d.millis = Int64.minValue
  · -- The least duration has no magnitude of its own and stays negative.
    have value : d.magnitude.toInt = Int64.minValue.abs.toInt := by rw [magnitude, least]
    rw [value] at low
    exact absurd low (by decide)
  · rw [magnitude_eq least, Int.tdiv_eq_ediv_of_nonneg (Int.natCast_nonneg _)] at high
    simp only [hourMillis, minuteMillis, secondMillis] at high
    omega

/-- A duration is taken apart behind its sign. -/
theorem exists_of_fields?_chars {d : Duration} {f : Fields} (h : fields? d.chars = some f) :
    ∃ clock, unsignedFields? (clockText d.magnitude.toInt) = some clock := by
  simp only [chars] at h
  split_ifs at h with negative
  · obtain ⟨clock, read, -⟩ := Option.map_eq_some_iff.1 h
    exact ⟨clock, read⟩
  · unfold fields? at h
    split at h
    · rename_i minus
      exact absurd minus (clockText_magnitude_ne negative _)
    · obtain ⟨clock, read, -⟩ := Option.map_eq_some_iff.1 h
      exact ⟨clock, read⟩

/-- The text of a duration can be taken apart only if it has at most six digits of hours. -/
theorem hasSixDigitHours_of_fields? {d : Duration} {f : Fields} (h : fields? d.chars = some f) :
    d.HasSixDigitHours := by
  obtain ⟨clock, read⟩ := exists_of_fields?_chars h
  simp only [clockText, List.append_assoc, List.cons_append] at read
  obtain ⟨low, high⟩ := hours_of_unsignedFields? read
  exact hasSixDigitHours_of_magnitude low high

theorem read_text_of_not_hasSixDigitHours {d : Duration} (h : ¬ d.HasSixDigitHours) :
    read d.text = .error ⟨.duration, d.text, .shape .duration⟩ := by
  have unread : fields? d.chars = none := by
    cases found : fields? d.chars with
    | none => rfl
    | some f => exact absurd (hasSixDigitHours_of_fields? found) h
  rw [read, text, String.toList_ofList, trim_chars, ofTrimmed, unread]
  rfl

/-- The text of a duration is read exactly when it has at most six digits of hours. -/
theorem read_text_isOk_iff (d : Duration) :
    (∃ e, read d.text = .ok e) ↔ d.HasSixDigitHours := by
  refine ⟨?_, fun h => ⟨d, read_text h⟩⟩
  rintro ⟨e, h⟩
  by_contra out
  rw [read_text_of_not_hasSixDigitHours out] at h
  contradiction

end Duration

end SeqScript
