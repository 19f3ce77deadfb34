import Mathlib.Data.List.Basic
import SeqScript.Proofs.Time.WrittenInstant

/-!
# Texts in the order of time

The fields of a written time go from the longest unit to the shortest, each padded to its width.  So
the bytes of two texts are in the order of their instants, as long as the years have four digits
(`Instant.utf8_text_lt_iff`).
-/

namespace SeqScript

open Text

namespace Text

/-! ### The order of digits -/

/-- Digits of one length are in the order of their values, whatever follows them. -/
theorem digits_append_lt {as bs x y : List Char} (ha : ∀ c ∈ as, c.isDigit)
    (hb : ∀ c ∈ bs, c.isDigit) (length : as.length = bs.length)
    (value : digitsValue as < digitsValue bs) : as ++ x < bs ++ y := by
  -- By induction from the last digit, which decides only behind the same digits.
  induction as using List.reverseRecOn generalizing bs x y with
  | nil =>
    rw [List.length_eq_zero_iff.1 length.symm] at value
    exact absurd value (Nat.lt_irrefl _)
  | append_singleton as a ih =>
    rcases List.eq_nil_or_concat bs with rfl | ⟨bs, b, rfl⟩
    · simp at length
    · rw [List.concat_eq_append] at hb length value ⊢
      rw [digitsValue_concat, digitsValue_concat] at value
      rw [List.append_assoc, List.append_assoc]
      have initA : ∀ c ∈ as, c.isDigit := fun c hc => ha c (List.mem_append_left _ hc)
      have initB : ∀ c ∈ bs, c.isDigit := fun c hc => hb c (List.mem_append_left _ hc)
      have lowA := digitValue_lt (ha a (by simp))
      have lowB := digitValue_lt (hb b (by simp))
      have init : as.length = bs.length := by simpa using length
      rcases Nat.lt_or_ge (digitsValue as) (digitsValue bs) with less | more
      · exact ih initA initB init less
      · obtain rfl := digitsValue_injective initA initB init (by omega)
        have last : a.toNat < b.toNat := by
          simp only [digitValue] at value
          omega
        exact List.append_left_lt (List.cons_lt_cons_iff.2 (.inl last))

/-- A number in a field of its width, in front of what decides between equal numbers. -/
theorem padded_append_lt {width m n : Nat} {x y : List Char} (pos : 0 < width)
    (fits : n < 10 ^ width) (le : m ≤ n) (rest : m = n → x < y) :
    padded width m ++ x < padded width n ++ y := by
  rcases Nat.lt_or_eq_of_le le with less | rfl
  · refine digits_append_lt (fun _ => isDigit_of_mem_padded) (fun _ => isDigit_of_mem_padded) ?_ ?_
    · rw [length_padded_of_lt width pos (Nat.lt_trans less fits),
        length_padded_of_lt width pos fits]
    · rwa [digitsValue_padded, digitsValue_padded]
  · exact List.append_left_lt (rest rfl)

/-! ### The order of bytes -/

/-- The bytes of a text in UTF-8. -/
def utf8 (s : String) : List UInt8 := s.toByteArray.data.toList

theorem utf8_ofList (cs : List Char) :
    utf8 (String.ofList cs) = cs.flatMap String.utf8EncodeChar := by
  rw [utf8, String.toByteArray_ofList, List.utf8Encode, List.toList_data_toByteArray]

def IsAscii (cs : List Char) : Prop := ∀ c ∈ cs, c.toNat < 128

theorem isAscii_padded (width : Nat) (i : Int) : IsAscii (padded width i) := by
  obtain ⟨ds, digits, -, -, text⟩ := padded_eq width i
  have ascii : IsAscii ds := fun c hc => by
    have digit := digits c hc
    simp only [Char.isDigit, Bool.and_eq_true, decide_eq_true_eq] at digit
    exact Nat.lt_of_le_of_lt digit.2 (by decide)
  rw [text]
  split_ifs
  · exact List.forall_mem_cons.2 ⟨by decide, ascii⟩
  · exact ascii

theorem utf8_ofList_of_isAscii {cs : List Char} (h : IsAscii cs) :
    utf8 (String.ofList cs) = cs.map Char.toUInt8 := by
  rw [utf8_ofList, List.map_eq_flatMap]
  refine List.flatMap_congr fun c hc => String.utf8EncodeChar_eq_singleton ?_
  exact Char.utf8Size_eq_one_iff.2 (Nat.le_of_lt_succ (h c hc))

theorem toUInt8_lt {c d : Char} (hc : c.toNat < 128) (hd : d.toNat < 128) (h : c < d) :
    c.toUInt8 < d.toUInt8 := by
  have byte {c : Char} (hc : c.toNat < 128) : c.toUInt8.toNat = c.toNat :=
    Nat.mod_eq_of_lt (Nat.lt_trans hc (by decide))
  rw [UInt8.lt_iff_toNat_lt, byte hc, byte hd]
  exact h

/-- ASCII texts have their bytes in the order of their characters. -/
theorem utf8_lt {cs ds : List Char} (hc : IsAscii cs) (hd : IsAscii ds) (h : cs < ds) :
    utf8 (String.ofList cs) < utf8 (String.ofList ds) := by
  rw [utf8_ofList_of_isAscii hc, utf8_ofList_of_isAscii hd]
  induction h with
  | nil => exact .nil
  | rel first =>
    exact .rel (toUInt8_lt (hc _ List.mem_cons_self) (hd _ List.mem_cons_self) first)
  | cons _ ih =>
    exact .cons (ih (fun c h => hc c (List.mem_cons_of_mem _ h))
      fun d h => hd d (List.mem_cons_of_mem _ h))

end Text

/-! ### The order of times -/

/-- Clock times of a day are in the order of their milliseconds. -/
theorem clockText_lt {m n : Nat} (h : m < n) (inDay : n < 86400000) :
    clockText m < clockText n := by
  simp only [clockText_natCast, List.append_assoc, List.cons_append]
  refine padded_append_lt (by decide) (by omega) (by omega) fun hours => ?_
  refine List.cons_lt_cons_self.2 ?_
  refine padded_append_lt (by decide) (by omega) (by omega) fun minutes => ?_
  refine List.cons_lt_cons_self.2 ?_
  refine padded_append_lt (by decide) (by omega) (by omega) fun seconds => ?_
  refine List.cons_lt_cons_self.2 ?_
  have millis : m % 1000 < n % 1000 := by omega
  rw [← List.append_nil (padded 3 (m % 1000 : Nat)), ← List.append_nil (padded 3 (n % 1000 : Nat))]
  exact padded_append_lt (by decide) (by omega) (Nat.le_of_lt millis)
    fun same => absurd same (Nat.ne_of_lt millis)

namespace Calendar

theorem yearOfDay_mono {a b : Int} (h : a ≤ b) : yearOfDay a ≤ yearOfDay b :=
  le_yearOfDay_iff.2 (Int.le_trans (daysBeforeYear_yearOfDay_le a) h)

theorem dayOfYear_mono {a b : Int} (h : a ≤ b) (year : yearOfDay a = yearOfDay b) :
    dayOfYear a ≤ dayOfYear b := by
  rw [dayOfYear, dayOfYear, year]
  omega

end Calendar

namespace Instant

/-- The fields of an instant whose year has four digits are natural numbers of their widths. -/
theorem exists_fields {i : Instant} (h : i.HasFourDigitYear) : ∃ year day millis : Nat,
    Calendar.yearOfDay i.day = year ∧ Calendar.dayOfYear i.day = day ∧ i.millisOfDay = millis ∧
      year < 10000 ∧ day < 1000 ∧ millis < 86400000 := by
  obtain ⟨low, high⟩ := yearOfDay_bounds h
  have first := Calendar.one_le_dayOfYear i.day
  have last := Calendar.dayOfYear_le i.day
  have short := Calendar.daysInYear_le (Calendar.yearOfDay i.day)
  have start : 0 ≤ i.millisOfDay := Int.emod_nonneg _ (by decide)
  have stop : i.millisOfDay < 86400000 := Int.emod_lt_of_pos _ (by decide)
  obtain ⟨year, hy⟩ := Int.eq_ofNat_of_zero_le low
  obtain ⟨day, hd⟩ := Int.eq_ofNat_of_zero_le (Int.le_trans (by decide) first)
  obtain ⟨millis, hm⟩ := Int.eq_ofNat_of_zero_le start
  exact ⟨year, day, millis, hy, hd, hm, by omega, by omega, by omega⟩

theorem day_le_of_millis_lt {i j : Instant} (h : i.millis < j.millis) : i.day ≤ j.day :=
  Int.ediv_le_ediv (by decide) (Int.le_of_lt (Int64.lt_iff_toInt_lt.1 h))

/-- On one day the later instant has the later clock time. -/
theorem millisOfDay_lt {i j : Instant} (h : i.millis < j.millis) (day : i.day = j.day) :
    i.millisOfDay < j.millisOfDay := by
  have whole (k : Instant) : dayMillis * k.day + k.millisOfDay = k.millis.toInt :=
    Int.mul_ediv_add_emod _ _
  have order := Int64.lt_iff_toInt_lt.1 h
  rw [← whole i, ← whole j, day] at order
  exact Int.lt_of_add_lt_add_left order

theorem chars_lt {i j : Instant} (hi : i.HasFourDigitYear) (hj : j.HasFourDigitYear)
    (h : i.millis < j.millis) : i.chars < j.chars := by
  obtain ⟨year, day, millis, yearI, dayI, millisI, -, -, -⟩ := exists_fields hi
  obtain ⟨year', day', millis', yearJ, dayJ, millisJ, fourDigits, threeDigits, inDay⟩ :=
    exists_fields hj
  have days := day_le_of_millis_lt h
  have years := Calendar.yearOfDay_mono days
  rw [chars_eq, chars_eq, yearI, dayI, millisI, yearJ, dayJ, millisJ]
  rw [yearI, yearJ] at years
  simp only [List.append_assoc, List.cons_append]
  refine padded_append_lt (by decide) fourDigits (by omega) fun sameYear => ?_
  refine List.cons_lt_cons_self.2 ?_
  have sameYear : Calendar.yearOfDay i.day = Calendar.yearOfDay j.day := by omega
  have inYear := Calendar.dayOfYear_mono days sameYear
  rw [dayI, dayJ] at inYear
  refine padded_append_lt (by decide) threeDigits (by omega) fun sameDay => ?_
  refine List.cons_lt_cons_self.2 (clockText_lt ?_ inDay)
  have sameDay : i.day = j.day := by
    rw [← Calendar.daysBeforeYear_add_dayOfYear i.day, sameYear, dayI, sameDay, ← dayJ,
      Calendar.daysBeforeYear_add_dayOfYear]
  have clock := millisOfDay_lt h sameDay
  omega

theorem isAscii_chars (i : Instant) : IsAscii i.chars := by
  simp only [IsAscii, chars_eq, clockText, List.forall_mem_append, List.forall_mem_cons]
  exact ⟨⟨isAscii_padded 4 _, by decide, isAscii_padded 3 _⟩, by decide,
    ⟨⟨isAscii_padded 2 _, by decide, isAscii_padded 2 _⟩, by decide, isAscii_padded 2 _⟩,
    by decide, isAscii_padded 3 _⟩

/-- In the years 0000 to 9999 the order of instants is the order of the bytes of their texts. -/
theorem utf8_text_lt_iff {i j : Instant} (hi : i.HasFourDigitYear) (hj : j.HasFourDigitYear) :
    utf8 i.text < utf8 j.text ↔ i.millis < j.millis := by
  have bytes {i j : Instant} (hi : i.HasFourDigitYear) (hj : j.HasFourDigitYear)
      (h : i.millis < j.millis) : utf8 i.text < utf8 j.text :=
    utf8_lt i.isAscii_chars j.isAscii_chars (chars_lt hi hj h)
  refine ⟨fun less => ?_, bytes hi hj⟩
  by_contra notLess
  rcases Int64.lt_or_eq_of_le (Int64.not_lt.1 notLess) with more | same
  · exact List.lt_asymm less (bytes hj hi more)
  · obtain ⟨m⟩ := i
    obtain ⟨n⟩ := j
    obtain rfl : n = m := same
    exact List.lt_irrefl _ less

/-- The last millisecond of a leap year before 1970 and the first of the year after it. -/
theorem utf8_text_lt_newYear :
    HasFourDigitYear ⟨-31536000001⟩ ∧ HasFourDigitYear ⟨-31536000000⟩ ∧
      text ⟨-31536000001⟩ = "1968-366T23:59:59.999" ∧
      text ⟨-31536000000⟩ = "1969-001T00:00:00.000" ∧
      utf8 (text ⟨-31536000001⟩) < utf8 (text ⟨-31536000000⟩) := by
  have before : HasFourDigitYear ⟨-31536000001⟩ := (hasFourDigitYear_iff _).2 (by decide)
  have after : HasFourDigitYear ⟨-31536000000⟩ := (hasFourDigitYear_iff _).2 (by decide)
  have leapDay : chars ⟨-31536000001⟩ = "1968-366T23:59:59.999".toList := by
    rw [chars_eq]
    decide
  have newYear : chars ⟨-31536000000⟩ = "1969-001T00:00:00.000".toList := by
    rw [chars_eq]
    decide
  refine ⟨before, after, ?_, ?_, (utf8_text_lt_iff before after).2 (by decide)⟩
  · rw [text, leapDay, String.ofList_toList]
  · rw [text, newYear, String.ofList_toList]

end Instant

end SeqScript
