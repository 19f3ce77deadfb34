import SeqScript.Proofs.Time.WrittenDuration

/-!
# What a duration is read from

An ASCII text is read as a duration exactly when it is, between blanks, the parts of one in their
order (`WrittenDuration.Fits`) with minutes and seconds below sixty and no sign in front of zeros
alone (`Duration.read_eq_ok_iff_fits`).  The duration has this text for its own, but for the zeros
in front of two digits of hours and those that are missing from the fraction.
-/

namespace SeqScript

open Text

/-! ### Zeros in front of digits -/

namespace Text

/-- The digits without leading zeros, but for those among the last `width` of them. -/
def dropZeros (width : Nat) : List Char → List Char
  | [] => []
  | c :: cs => if c = '0' ∧ width ≤ cs.length then dropZeros width cs else c :: cs

/-- Digits that begin with no zero are those of their value. -/
theorem toDigits_digitsValue {c : Char} {cs : List Char} (h : ∀ d ∈ c :: cs, d.isDigit)
    (head : c ≠ '0') : Nat.toDigits 10 (digitsValue (c :: cs)) = c :: cs := by
  have padded := padded_digitsValue h (Nat.succ_pos _)
  rw [padded_natCast] at padded
  rcases zeros : (c :: cs).length - (Nat.toDigits 10 (digitsValue (c :: cs))).length with _ | k
  · rw [zeros] at padded
    exact padded
  · rw [zeros, List.replicate_succ, List.cons_append] at padded
    exact absurd (List.cons.inj padded).1.symm head

/-- The value of digits is written with as few of their leading zeros as the width allows. -/
theorem padded_digitsValue_eq_dropZeros {width : Nat} {ds : List Char} (h : ∀ d ∈ ds, d.isDigit)
    (pos : 0 < width) (wide : width ≤ ds.length) :
    padded width (digitsValue ds) = dropZeros width ds := by
  induction ds with
  | nil => exact absurd wide (Nat.not_le.2 pos)
  | cons c cs ih =>
    rw [dropZeros]
    split_ifs with zero
    · obtain ⟨rfl, fits⟩ := zero
      exact ih (List.forall_mem_cons.1 h).2 fits
    · rcases Nat.lt_or_ge cs.length width with short | long
      · obtain rfl : width = (c :: cs).length := Nat.le_antisymm wide short
        exact padded_digitsValue h pos
      · have head : c ≠ '0' := fun same => zero ⟨same, long⟩
        rw [padded_natCast, toDigits_digitsValue h head, Nat.sub_eq_zero_of_le wide]
        rfl

theorem padded_digitsValue_of_length {width : Nat} {ds : List Char} (h : ∀ d ∈ ds, d.isDigit)
    (pos : 0 < width) (length : ds.length = width) : padded width (digitsValue ds) = ds := by
  subst length
  exact padded_digitsValue h pos

theorem digitsValue_eq_zero_iff {ds : List Char} (h : ∀ d ∈ ds, d.isDigit) :
    digitsValue ds = 0 ↔ ∀ d ∈ ds, d = '0' := by
  have zeros (k : Nat) : digitsValue (List.replicate k '0') = 0 := by
    rw [← List.append_nil (List.replicate k '0'), digitsValue_zeros_append]
    rfl
  constructor
  · intro zero
    have same : ds = List.replicate ds.length '0' :=
      digitsValue_injective h (fun _ mem => WrittenInstant.isDigit_of_mem_zeros mem)
        List.length_replicate.symm (zero.trans (zeros _).symm)
    intro d mem
    rw [same] at mem
    exact (List.mem_replicate.1 mem).2
  · intro all
    rw [List.eq_replicate_of_mem all]
    exact zeros _

/-- The digits among the ASCII characters are the ASCII digits. -/
theorem isDigit_of_isAnyDigit {c : Char} (ascii : c.toNat < 128) (h : isAnyDigit c) :
    c.isDigit := by
  have others : ∀ z ∈ digitZeros, z = 0x30 ∨ 128 ≤ z := by decide
  rw [isAnyDigit, Bool.or_eq_true, List.any_eq_true] at h
  rcases h with digit | ⟨z, mem, range⟩
  · exact digit
  · rw [Bool.and_eq_true, decide_eq_true_eq, decide_eq_true_eq] at range
    rcases others z mem with rfl | high
    · simp only [Char.isDigit, Bool.and_eq_true, decide_eq_true_eq, ge_iff_le,
        UInt32.le_iff_toNat_le]
      exact ⟨range.1, Nat.le_of_lt_succ range.2⟩
    · omega

end Text

/-! ### The parts of a duration that is read -/

open WrittenInstant (fractionText fractionText_of_pos isDigit_of_mem_zeros)

namespace WrittenDuration

/-- The parts have the lengths and the digits of a duration. -/
structure Fits (w : WrittenDuration) : Prop where
  two_le_hours : 2 ≤ w.hours.length
  hours_le : w.hours.length ≤ 6
  minutes : w.minutes.length = 2
  seconds : w.seconds.length = 2
  fraction : w.fraction.length ≤ 3
  digits : ∀ p ∈ w.parts, ∀ c ∈ p, c.isDigit

/-- The minutes and seconds are those of a clock, and there is no sign in front of zeros alone. -/
structure InRange (w : WrittenDuration) : Prop where
  minutes : digitsValue w.minutes < 60
  seconds : digitsValue w.seconds < 60
  nonzero : w.negative → ∃ p ∈ w.parts, ∃ c ∈ p, c ≠ '0'

/-- The duration with three digits of a fraction. -/
def complete (w : WrittenDuration) : WrittenDuration :=
  { w with fraction := w.fraction ++ List.replicate (3 - w.fraction.length) '0' }

/-- The duration with three digits of a fraction and with no zeros in front of two digits of
hours. -/
def shortest (w : WrittenDuration) : WrittenDuration :=
  { w.complete with hours := dropZeros 2 w.hours }

def fields (w : WrittenDuration) : Duration.Fields :=
  ⟨w.negative, digitsValue w.hours, digitsValue w.minutes, digitsValue w.seconds,
    digitsValue w.complete.fraction⟩

/-- The milliseconds of the parts, whatever the sign is. -/
def magnitude (w : WrittenDuration) : Nat :=
  digitsValue w.hours * 3600000 + digitsValue w.minutes * 60000 +
    digitsValue w.seconds * 1000 + digitsValue w.complete.fraction

theorem millis_complete (w : WrittenDuration) :
    w.complete.millis = if w.negative then -(w.magnitude : Int) else w.magnitude := by
  have hour : hourMillis = 3600000 := rfl
  have minute : minuteMillis = 60000 := rfl
  have second : secondMillis = 1000 := rfl
  have same : w.complete.negative = w.negative := rfl
  rw [millis, magnitude, hour, minute, second, same]
  dsimp only [complete]
  split_ifs <;> omega

/-- What follows the sign of a duration. -/
def unsignedChars (w : WrittenDuration) : List Char :=
  w.hours ++ ':' :: w.minutes ++ ':' :: w.seconds ++ fractionText w.fraction

theorem chars_eq_signText_append (w : WrittenDuration) :
    w.chars = signText w.negative ++ w.unsignedChars := by
  simp only [chars, unsignedChars, List.append_assoc]

theorem mem_unsignedChars {w : WrittenDuration} {p : List Char} {c : Char} (hp : p ∈ w.parts)
    (hc : c ∈ p) : c ∈ w.unsignedChars := by
  simp only [parts, List.mem_cons, List.not_mem_nil, or_false] at hp
  simp only [unsignedChars, List.mem_append, List.mem_cons]
  rcases hp with rfl | rfl | rfl | rfl
  · exact .inl (.inl (.inl hc))
  · exact .inl (.inl (.inr (.inr hc)))
  · exact .inl (.inr (.inr hc))
  · rw [fractionText_of_pos (List.length_pos_of_mem hc)]
    exact .inr (List.mem_cons_of_mem _ hc)

theorem digits_iff {w : WrittenDuration} : (∀ p ∈ w.parts, ∀ c ∈ p, c.isDigit) ↔
    (∀ c ∈ w.hours, c.isDigit) ∧ (∀ c ∈ w.minutes, c.isDigit) ∧ (∀ c ∈ w.seconds, c.isDigit) ∧
      ∀ c ∈ w.fraction, c.isDigit := by
  simp only [parts, List.forall_mem_cons, List.not_mem_nil, false_imp_iff, implies_true, and_true]

namespace Fits

variable {w : WrittenDuration}

theorem length_complete (h : w.Fits) : w.complete.fraction.length = 3 := by
  have short := h.fraction
  rw [complete, List.length_append, List.length_replicate]
  omega

theorem isDigit_complete (h : w.Fits) : ∀ c ∈ w.complete.fraction, c.isDigit :=
  List.forall_mem_append.2 ⟨(digits_iff.1 h.digits).2.2.2, fun _ => isDigit_of_mem_zeros⟩

/-- The zeros that complete a fraction add nothing to it. -/
theorem complete_eq_zero_iff (h : w.Fits) :
    digitsValue w.complete.fraction = 0 ↔ ∀ c ∈ w.fraction, c = '0' := by
  rw [digitsValue_eq_zero_iff h.isDigit_complete, complete, List.forall_mem_append,
    and_iff_left fun _ mem => (List.mem_replicate.1 mem).2]

theorem magnitude_eq_zero_iff (h : w.Fits) :
    w.magnitude = 0 ↔ ∀ p ∈ w.parts, ∀ c ∈ p, c = '0' := by
  obtain ⟨hours, minutes, seconds, -⟩ := digits_iff.1 h.digits
  simp only [parts, List.forall_mem_cons, List.not_mem_nil, false_imp_iff, implies_true, and_true,
    ← digitsValue_eq_zero_iff hours, ← digitsValue_eq_zero_iff minutes,
    ← digitsValue_eq_zero_iff seconds, ← h.complete_eq_zero_iff, magnitude]
  omega

/-- A million hours are never reached. -/
theorem magnitude_lt (h : w.Fits) (minutes : digitsValue w.minutes < 60)
    (seconds : digitsValue w.seconds < 60) : w.magnitude < 3600000000000 := by
  obtain ⟨digits, -⟩ := digits_iff.1 h.digits
  have hours := digitsValue_lt digits
  have wide : 10 ^ w.hours.length ≤ 10 ^ 6 := Nat.pow_le_pow_right (by decide) h.hours_le
  have fraction := digitsValue_lt h.isDigit_complete
  rw [h.length_complete] at fraction
  rw [magnitude]
  omega

/-- The milliseconds of parts in range are written with the shortest of these parts. -/
theorem ofMillis_eq (h : w.Fits) (range : w.InRange) :
    ofMillis w.complete.millis = w.shortest := by
  obtain ⟨hours, minutes, seconds, -⟩ := digits_iff.1 h.digits
  have fraction := digitsValue_lt h.isDigit_complete
  rw [h.length_complete] at fraction
  have magnitude : w.complete.millis.natAbs = w.magnitude := by
    rw [millis_complete]
    split_ifs <;> omega
  have sign : decide (w.complete.millis < 0) = w.negative := by
    rw [millis_complete]
    split_ifs with negative
    · obtain ⟨p, hp, c, hc, other⟩ := range.nonzero negative
      have nonzero : w.magnitude ≠ 0 :=
        fun zero => other (h.magnitude_eq_zero_iff.1 zero p hp c hc)
      rw [negative, decide_eq_true_eq]
      omega
    · rw [Bool.eq_false_iff.2 negative, decide_eq_false_iff_not]
      omega
  have value : w.magnitude = digitsValue w.hours * 3600000 + digitsValue w.minutes * 60000 +
      digitsValue w.seconds * 1000 + digitsValue w.complete.fraction := rfl
  obtain ⟨minutes_lt, seconds_lt, -⟩ := range
  have inHours : w.magnitude / 3600000 = digitsValue w.hours := by omega
  have inMinutes : w.magnitude % 3600000 / 60000 = digitsValue w.minutes := by omega
  have inSeconds : w.magnitude % 60000 / 1000 = digitsValue w.seconds := by omega
  have inFraction : w.magnitude % 1000 = digitsValue w.complete.fraction := by omega
  rw [ofMillis, sign, magnitude, inHours, inMinutes, inSeconds, inFraction,
    padded_digitsValue_eq_dropZeros hours (by decide) h.two_le_hours,
    padded_digitsValue_of_length minutes (by decide) h.minutes,
    padded_digitsValue_of_length seconds (by decide) h.seconds,
    padded_digitsValue_of_length h.isDigit_complete (by decide) h.length_complete]
  rfl

end Fits

end WrittenDuration

/-! ### Reading the parts -/

namespace Duration

open WrittenDuration

theorem exists_of_unsignedFields? {cs : List Char} {f : ClockFields} (negative : Bool)
    (ascii : ∀ c ∈ cs, isAnyDigit c → c.isDigit) (h : unsignedFields? cs = some f) :
    ∃ w : WrittenDuration, w.Fits ∧ signText negative ++ cs = w.chars ∧
      ⟨negative, f⟩ = w.fields := by
  simp only [unsignedFields?] at h
  split_ifs at h with bounds
  obtain ⟨ms, ss, ds, minutes, seconds, short, digits, rest, rfl⟩ := (minutesOn?_eq_some_iff _).1 h
  let w : WrittenDuration := ⟨negative, cs.takeWhile isAnyDigit, ms, ss, ds⟩
  have text : cs = w.unsignedChars := by
    calc cs = cs.takeWhile isAnyDigit ++ cs.dropWhile isAnyDigit :=
          List.takeWhile_append_dropWhile.symm
      _ = w.unsignedChars := by
          rw [rest]
          simp only [unsignedChars, w, List.append_assoc, List.cons_append]
  have anyDigits : ∀ p ∈ w.parts, ∀ c ∈ p, isAnyDigit c :=
    List.forall_mem_cons.2 ⟨List.all_eq_true.1 List.all_takeWhile, digits⟩
  simp only [Bool.and_eq_true, decide_eq_true_eq] at bounds
  have fits : w.Fits := ⟨bounds.1, bounds.2, minutes, seconds, short,
    fun p hp c hc => ascii c (text ▸ mem_unsignedChars hp hc) (anyDigits p hp c hc)⟩
  refine ⟨w, fits, ?_, ?_⟩
  · rw [chars_eq_signText_append, ← text]
  · obtain ⟨hours, minutes, seconds, -⟩ := digits_iff.1 fits.digits
    rw [WrittenDuration.fields, ← fieldValue_of_isDigit hours, ← fieldValue_of_isDigit minutes,
      ← fieldValue_of_isDigit seconds, ← fieldValue_of_isDigit fits.isDigit_complete]
    rfl

/-- What is taken apart is the text of a written duration. -/
theorem exists_of_fields? {cs : List Char} {f : Fields}
    (ascii : ∀ c ∈ cs, isAnyDigit c → c.isDigit) (h : fields? cs = some f) :
    ∃ w : WrittenDuration, w.Fits ∧ cs = w.chars ∧ f = w.fields := by
  unfold fields? at h
  split at h
  · obtain ⟨clock, read, rfl⟩ := Option.map_eq_some_iff.1 h
    exact exists_of_unsignedFields? true (List.forall_mem_cons.1 ascii).2 read
  · obtain ⟨clock, read, rfl⟩ := Option.map_eq_some_iff.1 h
    exact exists_of_unsignedFields? false ascii read

theorem unsignedFields?_unsignedChars {w : WrittenDuration} (fits : w.Fits) :
    unsignedFields? w.unsignedChars = some w.fields.clock := by
  obtain ⟨hours, minutes, seconds, -⟩ := digits_iff.1 fits.digits
  have bounds : 2 ≤ w.hours.length && w.hours.length ≤ 6 := by
    simp only [Bool.and_eq_true, decide_eq_true_eq]
    exact ⟨fits.two_le_hours, fits.hours_le⟩
  have any : ∀ p ∈ [w.minutes, w.seconds, w.fraction], ∀ c ∈ p, isAnyDigit c :=
    fun p hp c hc => isAnyDigit_of_isDigit (fits.digits p (List.mem_cons_of_mem _ hp) c hc)
  have clock := (minutesOn?_eq_some_iff (digitsValue w.hours)).2
    ⟨w.minutes, w.seconds, w.fraction, fits.minutes, fits.seconds, fits.fraction, any, rfl, rfl⟩
  simp only [List.append_assoc, List.cons_append] at clock
  simp only [unsignedChars, List.append_assoc, List.cons_append]
  simp only [unsignedFields?, (takeWhile_append_colon hours _).1,
    (takeWhile_append_colon hours _).2, if_pos bounds, fieldValue_of_isDigit hours, clock,
    fieldValue_of_isDigit minutes, fieldValue_of_isDigit seconds,
    WrittenDuration.fields, ← fieldValue_of_isDigit fits.isDigit_complete]
  rfl

theorem fields?_chars {w : WrittenDuration} (fits : w.Fits) : fields? w.chars = some w.fields := by
  have read := unsignedFields?_unsignedChars fits
  have sign : w.fields.negative = w.negative := rfl
  rw [chars_eq_signText_append]
  rcases negative : w.negative with _ | _
  · -- The first digit of the hours is no sign.
    obtain ⟨c, cs, hours⟩ := List.exists_cons_of_length_pos
      (Nat.lt_of_lt_of_le Nat.zero_lt_two fits.two_le_hours)
    have digit := fits.digits w.hours List.mem_cons_self c (hours ▸ List.mem_cons_self)
    have unsigned : ∀ x, signText false ++ w.unsignedChars ≠ '-' :: x := by
      rintro x minus
      rw [unsignedChars, hours] at minus
      rw [(List.cons.inj minus).1] at digit
      contradiction
    unfold fields?
    split
    · rename_i minus
      exact absurd minus (unsigned _)
    · show (unsignedFields? w.unsignedChars).map _ = _
      rw [read, Option.map_some, ← negative, ← sign]
  · show (unsignedFields? w.unsignedChars).map _ = _
    rw [read, Option.map_some, ← negative, ← sign]

theorem total_fields {w : WrittenDuration} {millis : Int} :
    w.fields.clock.total = .ok millis ↔
      digitsValue w.minutes < 60 ∧ digitsValue w.seconds < 60 ∧ (w.magnitude : Int) = millis := by
  rw [ClockFields.total_eq_ok]
  have sum : (w.fields.clock.hours : Int) * hourMillis + w.fields.clock.minutes * minuteMillis +
      w.fields.clock.seconds * secondMillis + w.fields.clock.millis = w.magnitude := by
    simp only [hourMillis, minuteMillis, secondMillis, WrittenDuration.magnitude,
      WrittenDuration.fields]
    omega
  rw [sum]
  rfl

/-- Fields are those of a duration only if they are in range. -/
theorem inRange_of_ofFields {w : WrittenDuration} (fits : w.Fits) {d : Duration}
    (h : ofFields w.fields = .ok d) : w.InRange := by
  obtain ⟨millis, total, signed, -⟩ := ofFields_eq_ok.1 h
  obtain ⟨minutes, seconds, rfl⟩ := total_fields.1 total
  refine ⟨minutes, seconds, fun negative => ?_⟩
  by_contra zeros
  push Not at zeros
  exact signed ⟨negative, Int.natCast_eq_zero.2 (fits.magnitude_eq_zero_iff.2 zeros)⟩

/-- Parts in range are read as the duration that is written by the shortest of them. -/
theorem exists_of_inRange {w : WrittenDuration} (fits : w.Fits) (range : w.InRange) :
    ∃ d, ofFields w.fields = .ok d ∧ d.text = String.ofList w.shortest.chars := by
  have bound := fits.magnitude_lt range.minutes range.seconds
  have nonzero : ¬ (w.fields.negative ∧ (w.magnitude : Int) = 0) := by
    rintro ⟨negative, zero⟩
    obtain ⟨p, hp, c, hc, other⟩ := range.nonzero negative
    exact other (fits.magnitude_eq_zero_iff.1 (Int.natCast_eq_zero.1 zero) p hp c hc)
  have signed : (if w.fields.negative then -(w.magnitude : Int) else w.magnitude) =
      w.complete.millis := (millis_complete w).symm
  let d : Duration := ⟨.ofInt w.complete.millis⟩
  have millis : d.millis.toInt = w.complete.millis := by
    apply Int64.toInt_ofInt_of_le
    · rw [millis_complete]
      split_ifs <;> omega
    · rw [millis_complete]
      split_ifs <;> omega
  have six : d.HasSixDigitHours := by
    rw [hasSixDigitHours_iff, millis, millis_complete]
    split_ifs <;> omega
  refine ⟨d, ?_, ?_⟩
  · refine ofFields_eq_ok.2 ⟨w.magnitude, ?_, nonzero, by rw [signed]⟩
    exact total_fields.2 ⟨range.minutes, range.seconds, rfl⟩
  · rw [Duration.text, chars_eq six.ne_minValue, ← chars_ofMillis, millis, fits.ofMillis_eq range]

/-- Fields in range are those of the duration that is written by the shortest of the parts. -/
theorem ofFields_eq_ok_iff {w : WrittenDuration} (fits : w.Fits) {d : Duration} :
    ofFields w.fields = .ok d ↔ w.InRange ∧ d.text = String.ofList w.shortest.chars := by
  constructor
  · intro h
    have range := inRange_of_ofFields fits h
    obtain ⟨e, made, text⟩ := exists_of_inRange fits range
    rw [h] at made
    obtain rfl := Except.ok.inj made
    exact ⟨range, text⟩
  · rintro ⟨range, text⟩
    obtain ⟨e, made, text'⟩ := exists_of_inRange fits range
    obtain rfl := text_injective (text.trans text'.symm)
    exact made

theorem read_eq_error {t : String} {e : TimeError} (h : read t = .error e) :
    e.form = .duration ∧ e.input = t := by
  rw [read] at h
  cases made : ofTrimmed (trim t.toList) with
  | ok d =>
    rw [made] at h
    contradiction
  | error fault =>
    rw [made] at h
    obtain rfl := Except.error.inj h
    exact ⟨rfl, rfl⟩

theorem read_eq_ok_iff_written {t : String} (ascii : ∀ c ∈ t.toList, c.toNat < 128)
    {d : Duration} : read t = .ok d ↔ ∃ w : WrittenDuration, w.Fits ∧ trim t.toList = w.chars ∧
      w.InRange ∧ d.text = String.ofList w.shortest.chars := by
  have digits : ∀ c ∈ trim t.toList, isAnyDigit c → c.isDigit :=
    fun c mem => isDigit_of_isAnyDigit (ascii c (mem_of_mem_trim mem))
  rw [read_eq_ok]
  constructor
  · rintro ⟨f, fields, made⟩
    obtain ⟨w, fits, text, rfl⟩ := exists_of_fields? digits fields
    exact ⟨w, fits, text, (ofFields_eq_ok_iff fits).1 made⟩
  · rintro ⟨w, fits, text, read⟩
    rw [text]
    exact ⟨w.fields, fields?_chars fits, (ofFields_eq_ok_iff fits).2 read⟩

/-- A text of ASCII characters is read as a duration exactly if it is, between blanks, a written
duration in range.  The duration has this text but for the zeros in front of two digits of hours
and those that are missing from the fraction.  Any other text is refused with the text as it was
given, its blanks included. -/
theorem read_eq_ok_iff_fits (t : String) (ascii : ∀ c ∈ t.toList, c.toNat < 128) :
    ((∃ d, read t = .ok d) ↔
      ∃ w : WrittenDuration, w.Fits ∧ w.InRange ∧ trim t.toList = w.chars) ∧
    (∀ d, read t = .ok d ↔ ∃ w : WrittenDuration, w.Fits ∧ trim t.toList = w.chars ∧ w.InRange ∧
      d.text = String.ofList w.shortest.chars) ∧
    ∀ e, read t = .error e → e.form = .duration ∧ e.input = t := by
  refine ⟨?_, fun d => read_eq_ok_iff_written ascii, fun e => read_eq_error⟩
  constructor
  · rintro ⟨d, h⟩
    obtain ⟨w, fits, text, range, -⟩ := (read_eq_ok_iff_written ascii).1 h
    exact ⟨w, fits, range, text⟩
  · rintro ⟨w, fits, range, text⟩
    obtain ⟨d, -, shown⟩ := exists_of_inRange fits range
    exact ⟨d, (read_eq_ok_iff_written ascii).2 ⟨w, fits, text, range, shown⟩⟩

/-- A negative duration with zeros in front of its hours and half a second, and a negative zero. -/
theorem read_eq_ok_iff_fits_half :
    ((∀ c ∈ " -0012:05:07.5 ".toList, c.toNat < 128) ∧
      read " -0012:05:07.5 " = .ok ⟨-43507500⟩ ∧ text ⟨-43507500⟩ = "-12:05:07.500") ∧
    (∀ c ∈ " -00:00:00.0".toList, c.toNat < 128) ∧
      ∃ e, read " -00:00:00.0" = .error e ∧ e.fault = .negativeZero ∧
        e.form = .duration ∧ e.input = " -00:00:00.0" := by
  let w : WrittenDuration := ⟨true, ['0', '0', '1', '2'], ['0', '5'], ['0', '7'], ['5']⟩
  have digits : w.parts.all fun p => p.all (·.isDigit) := by decide
  have fits : w.Fits := ⟨by decide, by decide, rfl, rfl, by decide, fun p hp =>
    List.all_eq_true.1 (List.all_eq_true.1 digits p hp)⟩
  have range : w.InRange :=
    ⟨by decide, by decide, fun _ => ⟨['5'], by decide, '5', by decide, by decide⟩⟩
  have shown : text ⟨-43507500⟩ = String.ofList w.shortest.chars := by decide
  have ascii (t : String) (all : t.toList.all fun c => c.toNat < 128) :
      ∀ c ∈ t.toList, c.toNat < 128 :=
    fun c hc => of_decide_eq_true (List.all_eq_true.1 all c hc)
  have half := ascii " -0012:05:07.5 " (by decide)
  have zero := ascii " -00:00:00.0" (by decide)
  refine ⟨⟨half, ?_, shown⟩, zero, _, rfl, rfl, ?_⟩
  · exact ((read_eq_ok_iff_fits " -0012:05:07.5 " half).2.1 _).2 ⟨w, fits, rfl, range, shown⟩
  · exact (read_eq_ok_iff_fits " -00:00:00.0" zero).2.2 _ rfl

end Duration

end SeqScript
