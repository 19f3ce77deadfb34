import Mathlib.Data.List.Basic
import SeqScript.Proofs.Text.Digit
import SeqScript.Proofs.Time.Date
import SeqScript.Time.Reader

/-!
# Reading written times

The texts that the readers take are those of years with four digits (`Instant.HasFourDigitYear`)
and of hours with at most six (`Duration.HasSixDigitHours`).  Within these ranges a written time is
read back as itself (`Instant.read_text`, `Duration.read_text`), and nothing outside them is ever
read (`Instant.hasFourDigitYear_of_read`, `Duration.hasSixDigitHours_of_read`).
-/

namespace SeqScript

open Text

/-- The instant lies in one of the years 0000 to 9999. -/
def Instant.HasFourDigitYear (i : Instant) : Prop :=
  Calendar.daysBeforeYear 0 * dayMillis ≤ i.millis.toInt ∧
    i.millis.toInt < Calendar.daysBeforeYear 10000 * dayMillis

/-- The magnitude of the duration is at most `999999:59:59.999`. -/
def Duration.HasSixDigitHours (d : Duration) : Prop :=
  (d.millis.toInt.natAbs : Int) ≤
    999999 * hourMillis + 59 * minuteMillis + 59 * secondMillis + 999

theorem Instant.hasFourDigitYear_iff (i : Instant) : i.HasFourDigitYear ↔
    -62167219200000 ≤ i.millis.toInt ∧ i.millis.toInt ≤ 253402300799999 := by
  simp only [HasFourDigitYear, Calendar.daysBeforeYear_zero, Calendar.daysBeforeYear_tenThousand,
    dayMillis, hourMillis, minuteMillis, secondMillis]
  omega

theorem Duration.hasSixDigitHours_iff (d : Duration) :
    d.HasSixDigitHours ↔ d.millis.toInt.natAbs ≤ 3599999999999 := by
  simp only [HasSixDigitHours, hourMillis, minuteMillis, secondMillis]
  omega

/-! ### Clock times -/

/-- The fields of a count of milliseconds. -/
def ClockFields.ofMillis (n : Nat) : ClockFields :=
  ⟨n / 3600000, n % 3600000 / 60000, n % 60000 / 1000, n % 1000⟩

theorem ClockFields.total_eq_ok {f : ClockFields} {millis : Int} :
    f.total = .ok millis ↔ f.minutes < 60 ∧ f.seconds < 60 ∧
      f.hours * hourMillis + f.minutes * minuteMillis + f.seconds * secondMillis + f.millis =
        millis := by
  unfold total
  split_ifs with minutes seconds
  · exact iff_of_false nofun fun h => absurd minutes (Nat.not_le.2 h.1)
  · exact iff_of_false nofun fun h => absurd seconds (Nat.not_le.2 h.2.1)
  · rw [Except.ok.injEq]
    exact ⟨fun h => ⟨Nat.not_le.1 minutes, Nat.not_le.1 seconds, h⟩, fun h => h.2.2⟩

theorem ClockFields.total_ofMillis (n : Nat) : (ClockFields.ofMillis n).total = .ok (n : Int) := by
  simp only [total_eq_ok, ofMillis, hourMillis, minuteMillis, secondMillis]
  omega

theorem ClockFields.nonneg_of_total {f : ClockFields} {millis : Int} (h : f.total = .ok millis) :
    0 ≤ millis := by
  obtain ⟨-, -, rfl⟩ := total_eq_ok.1 h
  simp only [hourMillis, minuteMillis, secondMillis]
  omega

theorem ClockFields.le_of_total {f : ClockFields} {millis : Int} (h : f.total = .ok millis)
    (hours : f.hours < 1000000) (ms : f.millis < 1000) :
    millis ≤ 999999 * hourMillis + 59 * minuteMillis + 59 * secondMillis + 999 := by
  obtain ⟨minutes, seconds, rfl⟩ := total_eq_ok.1 h
  simp only [hourMillis, minuteMillis, secondMillis]
  omega

theorem clockText_natCast (n : Nat) :
    clockText n = padded 2 (n / 3600000 : Nat) ++ ':' :: padded 2 (n % 3600000 / 60000 : Nat) ++
      ':' :: padded 2 (n % 60000 / 1000 : Nat) ++ '.' :: padded 3 (n % 1000 : Nat) := rfl

theorem all_isAnyDigit_padded (width n : Nat) : (padded width n).all isAnyDigit :=
  List.all_eq_true.2 fun _ h => isAnyDigit_of_isDigit (isDigit_of_mem_padded h)

theorem fraction?_padded {n : Nat} (h : n < 1000) : fraction? ('.' :: padded 3 n) = some n := by
  have length := length_padded_of_lt 3 (by decide) h
  simp [fraction?, fractionMillis, length, all_isAnyDigit_padded, fieldValue_padded]

/-- The minutes, seconds and milliseconds that are written are read. -/
theorem minutesOn?_written (hours : Nat) {m s ms : Nat} (hm : m < 60) (hs : s < 60)
    (hms : ms < 1000) :
    minutesOn? hours (':' :: padded 2 m ++ ':' :: padded 2 s ++ '.' :: padded 3 ms) =
      some ⟨hours, m, s, ms⟩ := by
  obtain ⟨m₁, m₂, minutes⟩ := List.length_eq_two.1
    (length_padded_of_lt 2 (n := m) (by decide) (by omega))
  obtain ⟨s₁, s₂, seconds⟩ := List.length_eq_two.1
    (length_padded_of_lt 2 (n := s) (by decide) (by omega))
  have digits : [m₁, m₂, s₁, s₂].all isAnyDigit := by
    have := all_isAnyDigit_padded 2 m
    have := all_isAnyDigit_padded 2 s
    simp_all
  have hm' : fieldValue [m₁, m₂] = m := by rw [← minutes, fieldValue_padded]
  have hs' : fieldValue [s₁, s₂] = s := by rw [← seconds, fieldValue_padded]
  rw [minutes, seconds]
  simp only [List.cons_append, List.nil_append, minutesOn?, if_pos digits, fraction?_padded hms,
    Option.map_some, hm', hs']

theorem fraction?_lt {cs : List Char} {n : Nat} (h : fraction? cs = some n) : n < 1000 := by
  unfold fraction? at h
  split at h
  · obtain rfl := Option.some.inj h
    decide
  · rename_i ds
    split_ifs at h with bounds
    simp only [Bool.and_eq_true, decide_eq_true_eq] at bounds
    obtain rfl := Option.some.inj h
    have field := fieldValue_lt (ds ++ List.replicate (3 - ds.length) '0')
    have wide : (ds ++ List.replicate (3 - ds.length) '0').length = 3 := by
      rw [List.length_append, List.length_replicate]
      omega
    rw [wide] at field
    exact field
  · contradiction

theorem minutesOn?_spec {hours : Nat} {cs : List Char} {f : ClockFields}
    (h : minutesOn? hours cs = some f) : f.hours = hours ∧ f.millis < 1000 := by
  unfold minutesOn? at h
  split at h
  · split_ifs at h
    obtain ⟨millis, fraction, rfl⟩ := Option.map_eq_some_iff.1 h
    exact ⟨rfl, fraction?_lt fraction⟩
  · contradiction

theorem minutesOn?_clockText (n : Nat) :
    minutesOn? (n / 3600000) (':' :: padded 2 (n % 3600000 / 60000 : Nat) ++
      ':' :: padded 2 (n % 60000 / 1000 : Nat) ++ '.' :: padded 3 (n % 1000 : Nat)) =
      some (ClockFields.ofMillis n) :=
  minutesOn?_written _ (by omega) (by omega) (by omega)

/-- A clock time ends in a digit. -/
theorem exists_last_clockText (millis : Int) :
    ∃ z, (clockText millis).getLast? = some z ∧ z.isDigit := by
  obtain ⟨z, last, digit⟩ := exists_last_padded 3 (millis.tmod secondMillis)
  refine ⟨z, ?_, digit⟩
  rw [clockText, List.getLast?_append, List.getLast?_cons, last]
  rfl

/-- Milliseconds end in a digit, so that no `Z` is dropped behind them. -/
theorem dropZulu_append_padded (cs : List Char) (n : Nat) :
    dropZulu (cs ++ '.' :: padded 3 n) = cs ++ '.' :: padded 3 n := by
  obtain ⟨z, last, digit⟩ := exists_last_padded 3 n
  have ends : (cs ++ '.' :: padded 3 n).getLast? = some z := by
    rw [List.getLast?_append, List.getLast?_cons, last]
    rfl
  have other : ¬ (cs ++ '.' :: padded 3 n).getLast? = some 'Z' := by
    rw [ends]
    rintro ⟨⟩
    contradiction
  rw [dropZulu, if_neg other]

/-! ### Instants -/

namespace Instant

theorem fields?_written {year day n : Nat} (hy : year < 10000) (hd : day < 1000)
    (hn : n < 86400000) :
    fields? (padded 4 year ++ '-' :: padded 3 day ++ 'T' :: clockText n) =
      some ⟨year, day, .ofMillis n⟩ := by
  obtain ⟨y₁, y₂, y₃, y₄, years⟩ := List.length_eq_four.1
    (length_padded_of_lt 4 (n := year) (by decide) hy)
  obtain ⟨d₁, d₂, d₃, days⟩ := List.length_eq_three.1
    (length_padded_of_lt 3 (n := day) (by decide) hd)
  obtain ⟨h₁, h₂, hours⟩ := List.length_eq_two.1
    (length_padded_of_lt 2 (n := n / 3600000) (by decide) (by omega))
  have digits : [y₁, y₂, y₃, y₄, d₁, d₂, d₃, h₁, h₂].all isAnyDigit := by
    have := all_isAnyDigit_padded 4 year
    have := all_isAnyDigit_padded 3 day
    have := all_isAnyDigit_padded 2 (n / 3600000)
    simp_all
  have hy' : fieldValue [y₁, y₂, y₃, y₄] = year := by rw [← years, fieldValue_padded]
  have hd' : fieldValue [d₁, d₂, d₃] = day := by rw [← days, fieldValue_padded]
  have hh' : fieldValue [h₁, h₂] = n / 3600000 := by rw [← hours, fieldValue_padded]
  have clock := minutesOn?_clockText n
  rw [← dropZulu_append_padded] at clock
  rw [clockText_natCast, years, days, hours]
  simp only [List.append_assoc, List.cons_append, List.nil_append] at clock ⊢
  simp only [fields?, if_pos digits, hy', hd', hh', clock, Option.map_some]

/-- Fields are those of an instant if the day lies in the year and the clock time in the day. -/
theorem ofFields_eq_ok {f : Fields} {i : Instant} :
    ofFields f = .ok i ↔ 1 ≤ f.day ∧ f.day ≤ Calendar.daysInYear f.year ∧
      ∃ millis, f.clock.total = .ok millis ∧ millis < dayMillis ∧
        ⟨.ofInt ((Calendar.daysBeforeYear f.year + f.day - 1) * dayMillis + millis)⟩ = i := by
  unfold ofFields
  by_cases outside : f.day < 1 ∨ Calendar.daysInYear f.year < f.day
  · rw [if_pos outside]
    exact iff_of_false nofun fun ⟨low, high, _⟩ => by omega
  · have inYear : 1 ≤ f.day ∧ f.day ≤ Calendar.daysInYear f.year := by omega
    rw [if_neg outside]
    rcases f.clock.total with e | millis
    · exact iff_of_false nofun fun ⟨_, _, _, total, _⟩ => nomatch total
    · simp only [inYear, true_and, Except.ok.injEq, exists_eq_left']
      split_ifs with late
      · exact iff_of_false nofun fun h => absurd late (Int.not_le.2 h.1)
      · simp only [Int.not_le.1 late, true_and, Except.ok.injEq]

theorem read_eq_ok {t : String} {i : Instant} :
    read t = .ok i ↔ ∃ f, fields? (trim t.toList) = some f ∧ ofFields f = .ok i := by
  rw [read, ofTrimmed]
  cases fields? (trim t.toList) with
  | none => simp [Except.mapError]
  | some f => cases made : ofFields f <;> simp [made, Except.mapError]

theorem ofFields_written {i : Instant} {year day n : Nat}
    (hy : Calendar.yearOfDay i.day = year) (hd : Calendar.dayOfYear i.day = day)
    (hn : i.millisOfDay = n) : ofFields ⟨year, day, .ofMillis n⟩ = .ok i := by
  have low := Calendar.one_le_dayOfYear i.day
  have high := Calendar.dayOfYear_le i.day
  have total := Calendar.daysBeforeYear_add_dayOfYear i.day
  rw [hd] at low
  rw [hd, hy] at high total
  have bound : i.millisOfDay < dayMillis := Int.emod_lt_of_pos _ (by decide)
  have sum : i.day * dayMillis + n = i.millis.toInt := by
    rw [← hn]
    exact Int.ediv_mul_add_emod _ _
  rw [hn] at bound
  refine ofFields_eq_ok.2 ⟨Int.ofNat_le.1 low, high, n,
    ClockFields.total_ofMillis n, bound, ?_⟩
  simp only [total, sum, Int64.ofInt_toInt]

theorem yearOfDay_bounds {i : Instant} (h : i.HasFourDigitYear) :
    0 ≤ Calendar.yearOfDay i.day ∧ Calendar.yearOfDay i.day < 10000 := by
  have low : Calendar.daysBeforeYear 0 ≤ i.day := Int.le_ediv_of_mul_le (by decide) h.1
  have high : i.day < Calendar.daysBeforeYear 10000 := Int.ediv_lt_of_lt_mul (by decide) h.2
  refine ⟨Calendar.le_yearOfDay_iff.2 low, ?_⟩
  by_contra late
  have := Calendar.le_yearOfDay_iff.1 (Int.not_lt.1 late)
  omega

theorem trim_chars (i : Instant) : trim i.chars = i.chars := by
  obtain ⟨z, last, digit⟩ := exists_last_clockText i.millisOfDay
  rw [chars_eq, List.append_assoc]
  refine trim_padded_append 4 _ (z := z) ?_ digit
  rw [← List.append_assoc, List.getLast?_append, List.getLast?_cons, last]
  rfl

/-- An instant of a year with four digits is read back from its text. -/
theorem read_text {i : Instant} (h : i.HasFourDigitYear) : read i.text = .ok i := by
  obtain ⟨low, high⟩ := yearOfDay_bounds h
  have day := Calendar.dayOfYear_le i.day
  have short := Calendar.daysInYear_le (Calendar.yearOfDay i.day)
  have clock : i.millisOfDay < dayMillis := Int.emod_lt_of_pos _ (by decide)
  obtain ⟨y, hy⟩ := Int.eq_ofNat_of_zero_le low
  obtain ⟨d, hd⟩ := Int.eq_ofNat_of_zero_le
    (Int.le_trans (by decide) (Calendar.one_le_dayOfYear i.day))
  obtain ⟨n, hn⟩ := Int.eq_ofNat_of_zero_le (Int.emod_nonneg i.millis.toInt (b := dayMillis)
    (by decide))
  have bound : n < 86400000 := by
    rw [millisOfDay, hn] at clock
    simp only [dayMillis, hourMillis, minuteMillis, secondMillis] at clock
    omega
  refine read_eq_ok.2 ⟨_, ?_, ofFields_written hy hd hn⟩
  rw [text, String.toList_ofList, trim_chars, chars_eq, hy, hd, show i.millisOfDay = n from hn]
  exact fields?_written (by omega) (by omega) bound

theorem year_lt_of_fields? {cs : List Char} {f : Fields} (h : fields? cs = some f) :
    f.year < 10000 := by
  unfold fields? at h
  split at h
  · split_ifs at h
    obtain ⟨clock, -, rfl⟩ := Option.map_eq_some_iff.1 h
    exact Nat.lt_of_lt_of_eq (fieldValue_lt [_, _, _, _]) (by simp)
  · contradiction

theorem hasFourDigitYear_of_ofFields {f : Fields} {i : Instant} (hy : f.year < 10000)
    (h : ofFields f = .ok i) : i.HasFourDigitYear := by
  obtain ⟨low, high, millis, total, inDay, rfl⟩ := ofFields_eq_ok.1 h
  have nonneg := ClockFields.nonneg_of_total total
  have next := Calendar.daysBeforeYear_succ f.year
  have first := Calendar.daysBeforeYear_mono (a := 0) (b := f.year) (by omega)
  have last := Calendar.daysBeforeYear_mono (a := f.year + 1) (b := 10000) (by omega)
  rw [Calendar.daysBeforeYear_zero] at first
  rw [Calendar.daysBeforeYear_tenThousand] at last
  simp only [HasFourDigitYear, Calendar.daysBeforeYear_zero, Calendar.daysBeforeYear_tenThousand,
    dayMillis, hourMillis, minuteMillis, secondMillis] at inDay ⊢
  rw [Int64.toInt_ofInt_of_le (by omega) (by omega)]
  omega

/-- Only years with four digits are read. -/
theorem hasFourDigitYear_of_read {s : String} {i : Instant} (h : read s = .ok i) :
    i.HasFourDigitYear := by
  obtain ⟨f, fields, made⟩ := read_eq_ok.1 h
  exact hasFourDigitYear_of_ofFields (year_lt_of_fields? fields) made

end Instant

/-! ### Durations -/

namespace Duration

theorem takeWhile_append_colon {ds : List Char} (h : ∀ c ∈ ds, c.isDigit) (cs : List Char) :
    (ds ++ ':' :: cs).takeWhile isAnyDigit = ds ∧
      (ds ++ ':' :: cs).dropWhile isAnyDigit = ':' :: cs := by
  have all : ∀ c ∈ ds, isAnyDigit c := fun c hc => isAnyDigit_of_isDigit (h c hc)
  have colon : isAnyDigit ':' = false := by decide
  constructor
  · rw [List.takeWhile_append_of_pos all, List.takeWhile_cons, colon]
    exact List.append_nil ds
  · rw [List.dropWhile_append_of_pos all, List.dropWhile_cons, colon]
    rfl

theorem unsignedFields?_clockText {n : Nat} (h : n < 3600000000000) :
    unsignedFields? (clockText n) = some (.ofMillis n) := by
  have hours : ∀ c ∈ padded 2 (n / 3600000 : Nat), c.isDigit := fun _ => isDigit_of_mem_padded
  have short := length_padded_le (w := 2) (n := n / 3600000) (k := 6) (by decide) (by decide)
    (by omega)
  have wide := length_padded 2 (n / 3600000)
  have bounds : 2 ≤ (padded 2 (n / 3600000 : Nat)).length &&
      (padded 2 (n / 3600000 : Nat)).length ≤ 6 := by
    simp only [Bool.and_eq_true, decide_eq_true_eq]
    omega
  have clock := minutesOn?_clockText n
  rw [clockText_natCast]
  simp only [List.append_assoc, List.cons_append] at clock ⊢
  simp only [unsignedFields?, (takeWhile_append_colon hours _).1,
    (takeWhile_append_colon hours _).2, if_pos bounds, fieldValue_padded, clock]

theorem trim_chars (d : Duration) : trim d.chars = d.chars := by
  obtain ⟨z, last, digit⟩ := exists_last_clockText d.magnitude.toInt
  unfold chars
  split_ifs
  · refine trim_eq_self rfl (z := z) ?_ (by decide) (not_isBlank_of_isDigit digit)
    rw [List.getLast?_cons, last]
    rfl
  · rw [clockText] at last ⊢
    simp only [List.append_assoc] at last ⊢
    exact trim_padded_append 2 _ last digit

/-- Every duration but the least has its magnitude. -/
theorem magnitude_eq {d : Duration} (h : d.millis ≠ Int64.minValue) :
    d.magnitude.toInt = d.millis.toInt.natAbs :=
  BitVec.toInt_abs_eq_natAbs_of_ne_intMin fun least => h (Int64.toBitVec_inj.1 least)

/-- A duration is the sign and the clock text of its magnitude, unless it is the least. -/
theorem chars_eq {d : Duration} (h : d.millis ≠ Int64.minValue) :
    d.chars = if d.millis.toInt < 0 then '-' :: clockText d.millis.toInt.natAbs
      else clockText d.millis.toInt.natAbs := by
  have sign : d.millis < 0 ↔ d.millis.toInt < 0 := Int64.lt_iff_toInt_lt
  simp only [chars, magnitude_eq h, sign]

theorem HasSixDigitHours.ne_minValue {d : Duration} (h : d.HasSixDigitHours) :
    d.millis ≠ Int64.minValue := by
  intro least
  rw [hasSixDigitHours_iff, least] at h
  exact absurd h (by decide)

theorem fields?_clockText {n : Nat} (h : n < 3600000000000) :
    fields? (clockText n) = some ⟨false, .ofMillis n⟩ := by
  have wide := length_padded 2 (n / 3600000)
  rcases hours : padded 2 (n / 3600000 : Nat) with _ | ⟨c, cs⟩
  · rw [hours, List.length_nil] at wide
    omega
  · have start : c.isDigit :=
      isDigit_of_mem_padded (w := 2) (n := n / 3600000) (hours ▸ List.mem_cons_self)
    have unsigned := unsignedFields?_clockText h
    rw [clockText_natCast, hours] at unsigned ⊢
    simp only [List.cons_append] at unsigned ⊢
    unfold fields?
    split
    · rename_i minus
      obtain ⟨rfl, -⟩ := List.cons.inj minus
      contradiction
    · rw [unsigned]
      rfl

/-- Fields are those of a duration if they have a count, and no sign in front of zero. -/
theorem ofFields_eq_ok {f : Fields} {d : Duration} :
    ofFields f = .ok d ↔ ∃ millis, f.clock.total = .ok millis ∧ ¬ (f.negative ∧ millis = 0) ∧
      ⟨.ofInt (if f.negative then -millis else millis)⟩ = d := by
  unfold ofFields
  rcases f.clock.total with e | millis
  · exact iff_of_false nofun fun ⟨_, total, _⟩ => nomatch total
  · simp only [Except.ok.injEq, exists_eq_left']
    by_cases zero : f.negative ∧ millis = 0
    · rw [if_pos zero]
      exact iff_of_false nofun fun h => h.1 zero
    · rw [if_neg zero, Except.ok.injEq]
      exact (and_iff_right zero).symm

theorem read_eq_ok {t : String} {d : Duration} :
    read t = .ok d ↔ ∃ f, fields? (trim t.toList) = some f ∧ ofFields f = .ok d := by
  rw [read, ofTrimmed]
  cases fields? (trim t.toList) with
  | none => simp [Except.mapError]
  | some f => cases made : ofFields f <;> simp [made, Except.mapError]

/-- A duration of at most six digits of hours is read back from its text. -/
theorem read_text {d : Duration} (h : d.HasSixDigitHours) : read d.text = .ok d := by
  have bound := Nat.lt_succ_of_le ((hasSixDigitHours_iff d).1 h)
  have total := ClockFields.total_ofMillis d.millis.toInt.natAbs
  rw [read_eq_ok, text, String.toList_ofList, trim_chars, chars_eq h.ne_minValue]
  split_ifs with negative
  · have back : -(d.millis.toInt.natAbs : Int) = d.millis.toInt := by omega
    refine ⟨⟨true, _⟩, ?_, ofFields_eq_ok.2 ⟨_, total, by omega, ?_⟩⟩
    · rw [fields?, unsignedFields?_clockText bound]
      rfl
    · simp only [if_true, back, Int64.ofInt_toInt]
  · have back : (d.millis.toInt.natAbs : Int) = d.millis.toInt := by omega
    refine ⟨_, fields?_clockText bound, ofFields_eq_ok.2 ⟨_, total, nofun, ?_⟩⟩
    simp only [Bool.false_eq_true, if_false, back, Int64.ofInt_toInt]

theorem hours_lt_of_unsignedFields? {cs : List Char} {f : ClockFields}
    (h : unsignedFields? cs = some f) : f.hours < 1000000 := by
  simp only [unsignedFields?] at h
  split_ifs at h with bounds
  simp only [Bool.and_eq_true, decide_eq_true_eq] at bounds
  have field := fieldValue_lt (cs.takeWhile isAnyDigit)
  have wide : 10 ^ (cs.takeWhile isAnyDigit).length ≤ 10 ^ 6 :=
    Nat.pow_le_pow_right (by decide) bounds.2
  rw [(minutesOn?_spec h).1]
  omega

theorem clock_bounds_of_fields? {cs : List Char} {f : Fields} (h : fields? cs = some f) :
    f.clock.hours < 1000000 ∧ f.clock.millis < 1000 := by
  have clock : ∃ cs', unsignedFields? cs' = some f.clock := by
    unfold fields? at h
    split at h
    · obtain ⟨clock, read, rfl⟩ := Option.map_eq_some_iff.1 h
      exact ⟨_, read⟩
    · obtain ⟨clock, read, rfl⟩ := Option.map_eq_some_iff.1 h
      exact ⟨_, read⟩
  obtain ⟨cs', read⟩ := clock
  refine ⟨hours_lt_of_unsignedFields? read, ?_⟩
  simp only [unsignedFields?] at read
  split_ifs at read
  exact (minutesOn?_spec read).2

/-- Only hours of at most six digits are read. -/
theorem hasSixDigitHours_of_read {s : String} {d : Duration} (h : read s = .ok d) :
    d.HasSixDigitHours := by
  obtain ⟨f, fields, made⟩ := read_eq_ok.1 h
  obtain ⟨hours, millis⟩ := clock_bounds_of_fields? fields
  obtain ⟨total, sum, -, rfl⟩ := ofFields_eq_ok.1 made
  have low := ClockFields.nonneg_of_total sum
  have high := ClockFields.le_of_total sum hours millis
  simp only [HasSixDigitHours, hourMillis, minuteMillis, secondMillis] at high ⊢
  split_ifs
  · rw [Int64.toInt_ofInt_of_le (by omega) (by omega)]
    omega
  · rw [Int64.toInt_ofInt_of_le (by omega) (by omega)]
    omega

end Duration

end SeqScript
