import SeqScript.Proofs.Time.Injective
import SeqScript.Proofs.Time.RoundTrip

/-!
# What an instant is read from

A text is read as an instant exactly when it is the parts of one in their order
(`WrittenInstant.chars`), all in range, between blanks.  The digits of a part may be those of any
script.  If they are ASCII digits, the instant has the parts for its text; a part with another digit
is read as zeros (`Instant.read_eq_ok_iff`).
-/

namespace SeqScript

open Text

/-! ### Digits of one length -/

namespace Text

/-- Digits in a field of their width are told by their value. -/
theorem digitsValue_injective {as bs : List Char} (ha : ∀ c ∈ as, c.isDigit)
    (hb : ∀ c ∈ bs, c.isDigit) (length : as.length = bs.length)
    (value : digitsValue as = digitsValue bs) : as = bs := by
  induction as using List.reverseRecOn generalizing bs with
  | nil => exact (List.length_eq_zero_iff.1 length.symm).symm
  | append_singleton as a ih =>
    rcases List.eq_nil_or_concat bs with rfl | ⟨bs, b, rfl⟩
    · simp at length
    · rw [List.concat_eq_append] at hb length value ⊢
      rw [digitsValue_concat, digitsValue_concat] at value
      have digitA := ha a (by simp)
      have digitB := hb b (by simp)
      have lowA := digitValue_lt digitA
      have lowB := digitValue_lt digitB
      have init := ih (fun c hc => ha c (List.mem_append_left _ hc))
        (fun c hc => hb c (List.mem_append_left _ hc)) (by simpa using length) (by omega)
      have last : a = b := by
        simp only [Char.isDigit, Bool.and_eq_true, decide_eq_true_eq] at digitA digitB
        have zeroA : 48 ≤ a.toNat := digitA.1
        have zeroB : 48 ≤ b.toNat := digitB.1
        have same : a.toNat = b.toNat := by
          simp only [digitValue, Char.reduceToNat] at value lowA lowB
          omega
        exact Char.toNat_inj.1 same
      rw [init, last]

/-- Digits are the padded form of their value. -/
theorem padded_digitsValue {ds : List Char} (h : ∀ c ∈ ds, c.isDigit) (nonempty : 0 < ds.length) :
    padded ds.length (digitsValue ds) = ds := by
  have digits : ∀ c ∈ padded ds.length (digitsValue ds), c.isDigit :=
    fun c hc => isDigit_of_mem_padded hc
  apply digitsValue_injective digits h
  · exact length_padded_of_lt _ nonempty (digitsValue_lt h)
  · rw [← fieldValue_of_isDigit digits, fieldValue_padded]

/-- The digits that a field is read as: zeros, unless all of them are ASCII digits. -/
def fieldDigits (ds : List Char) : List Char :=
  if ds.all Char.isDigit then ds else List.replicate ds.length '0'

theorem fieldDigits_eq_self {ds : List Char} (h : ∀ c ∈ ds, c.isDigit) : fieldDigits ds = ds := by
  rw [fieldDigits, if_pos (List.all_eq_true.2 h)]

theorem length_fieldDigits (ds : List Char) : (fieldDigits ds).length = ds.length := by
  rw [fieldDigits]
  split_ifs
  · rfl
  · exact List.length_replicate

theorem isDigit_of_mem_fieldDigits {ds : List Char} {c : Char} (h : c ∈ fieldDigits ds) :
    c.isDigit := by
  unfold fieldDigits at h
  split_ifs at h with ascii
  · exact List.all_eq_true.1 ascii c h
  · rw [(List.mem_replicate.1 h).2]
    decide

/-- A field is read as the digits that its value is written in. -/
theorem padded_fieldValue {ds : List Char} {width : Nat} (length : ds.length = width)
    (wide : 0 < width) : padded width (fieldValue ds) = fieldDigits ds := by
  subst length
  rw [fieldValue, fieldDigits]
  split_ifs with ascii
  · exact padded_digitsValue (List.all_eq_true.1 ascii) wide
  · have zeros : ∀ c ∈ List.replicate ds.length '0', c.isDigit := by
      intro c hc
      rw [(List.mem_replicate.1 hc).2]
      decide
    have value : digitsValue (List.replicate ds.length '0') = 0 := by
      rw [← List.append_nil (List.replicate ds.length '0'), digitsValue_zeros_append]
      rfl
    have padded := padded_digitsValue zeros (by rwa [List.length_replicate])
    rwa [List.length_replicate, value] at padded

theorem mem_of_mem_trim {cs : List Char} {c : Char} (h : c ∈ trim cs) : c ∈ cs := by
  rw [trim, List.mem_reverse] at h
  have front := (List.dropWhile_sublist isBlank).subset h
  exact (List.dropWhile_sublist isBlank).subset (List.mem_reverse.1 front)

end Text

/-! ### The parts of a written instant -/

/-- The parts of a text `YYYY-DDDThh:mm:ss`, with the digits of a fraction, or none, and with a `Z`
at its end or without. -/
structure WrittenInstant where
  year : List Char
  day : List Char
  hours : List Char
  minutes : List Char
  seconds : List Char
  fraction : List Char
  zulu : Bool

namespace WrittenInstant

def parts (w : WrittenInstant) : List (List Char) :=
  [w.year, w.day, w.hours, w.minutes, w.seconds, w.fraction]

def fractionText (ds : List Char) : List Char := if ds.isEmpty then [] else '.' :: ds

def zuluText (zulu : Bool) : List Char := if zulu then ['Z'] else []

def chars (w : WrittenInstant) : List Char :=
  w.year ++ '-' :: w.day ++ 'T' :: w.hours ++ ':' :: w.minutes ++ ':' :: w.seconds ++
    fractionText w.fraction ++ zuluText w.zulu

theorem fractionText_of_pos {ds : List Char} (h : 0 < ds.length) : fractionText ds = '.' :: ds := by
  have filled : ¬ ds.isEmpty := fun empty => List.ne_nil_of_length_pos h (List.isEmpty_iff.1 empty)
  rw [fractionText, if_neg filled]

/-- The parts have the lengths and the digits of an instant. -/
structure Fits (w : WrittenInstant) : Prop where
  year : w.year.length = 4
  day : w.day.length = 3
  hours : w.hours.length = 2
  minutes : w.minutes.length = 2
  seconds : w.seconds.length = 2
  fraction : w.fraction.length ≤ 3
  digits : ∀ p ∈ w.parts, ∀ c ∈ p, isAnyDigit c

def IsAscii (w : WrittenInstant) : Prop := ∀ p ∈ w.parts, ∀ c ∈ p, c.isDigit

theorem forall_parts_iff {w : WrittenInstant} {f : Char → Bool} :
    (∀ p ∈ w.parts, ∀ c ∈ p, f c) ↔ w.parts.all fun p => p.all f := by
  simp only [List.all_eq_true]

instance (w : WrittenInstant) : Decidable w.IsAscii := decidable_of_iff' _ forall_parts_iff

/-- The day is one of the year, and the time is one of the day. -/
structure InRange (w : WrittenInstant) : Prop where
  one_le_day : 1 ≤ fieldValue w.day
  day_le : (fieldValue w.day : Int) ≤ Calendar.daysInYear (fieldValue w.year)
  hours : fieldValue w.hours < 24
  minutes : fieldValue w.minutes < 60
  seconds : fieldValue w.seconds < 60

/-- The instant with three digits of a fraction and without a `Z`. -/
def complete (w : WrittenInstant) : WrittenInstant :=
  { w with fraction := w.fraction ++ List.replicate (3 - w.fraction.length) '0', zulu := false }

/-- The instant with every part as it is read. -/
def asRead (w : WrittenInstant) : WrittenInstant :=
  ⟨fieldDigits w.year, fieldDigits w.day, fieldDigits w.hours, fieldDigits w.minutes,
    fieldDigits w.seconds, fieldDigits w.fraction, w.zulu⟩

def fields (w : WrittenInstant) : Instant.Fields :=
  ⟨fieldValue w.year, fieldValue w.day,
    ⟨fieldValue w.hours, fieldValue w.minutes, fieldValue w.seconds, fractionMillis w.fraction⟩⟩

end WrittenInstant

/-! ### Reading the parts -/

open WrittenInstant

theorem fraction?_eq_some_iff {cs : List Char} {n : Nat} : fraction? cs = some n ↔
    ∃ ds, ds.length ≤ 3 ∧ (∀ c ∈ ds, isAnyDigit c) ∧ cs = fractionText ds ∧
      n = fractionMillis ds := by
  constructor
  · intro h
    unfold fraction? at h
    split at h
    · obtain rfl := Option.some.inj h
      exact ⟨[], by decide, List.forall_mem_nil _, rfl, rfl⟩
    · rename_i ds
      split_ifs at h with fits
      simp only [Bool.and_eq_true, decide_eq_true_eq, List.all_eq_true] at fits
      obtain rfl := Option.some.inj h
      exact ⟨ds, fits.1.2, fits.2, (fractionText_of_pos fits.1.1).symm, rfl⟩
    · contradiction
  · rintro ⟨ds, short, digits, rfl, rfl⟩
    cases ds with
    | nil => rfl
    | cons d ds =>
      have fits : 1 ≤ (d :: ds).length && (d :: ds).length ≤ 3 && (d :: ds).all isAnyDigit := by
        simp only [Bool.and_eq_true, decide_eq_true_eq, List.all_eq_true]
        exact ⟨⟨Nat.succ_le_succ (Nat.zero_le _), short⟩, digits⟩
      show fraction? ('.' :: d :: ds) = _
      rw [fraction?, if_pos fits]

theorem minutesOn?_eq_some_iff (hours : Nat) {cs : List Char} {f : ClockFields} :
    minutesOn? hours cs = some f ↔ ∃ ms ss ds : List Char, ms.length = 2 ∧ ss.length = 2 ∧
      ds.length ≤ 3 ∧ (∀ p ∈ [ms, ss, ds], ∀ c ∈ p, isAnyDigit c) ∧
      cs = ':' :: ms ++ ':' :: ss ++ fractionText ds ∧
      f = ⟨hours, fieldValue ms, fieldValue ss, fractionMillis ds⟩ := by
  constructor
  · intro h
    unfold minutesOn? at h
    split at h
    · rename_i m₁ m₂ s₁ s₂ rest
      split_ifs at h with digits
      obtain ⟨n, fraction, rfl⟩ := Option.map_eq_some_iff.1 h
      obtain ⟨ds, short, fractionDigits, rfl, rfl⟩ := fraction?_eq_some_iff.1 fraction
      refine ⟨[m₁, m₂], [s₁, s₂], ds, rfl, rfl, short, ?_, rfl, rfl⟩
      simp only [List.all_cons, List.all_nil, Bool.and_eq_true] at digits
      simp only [List.forall_mem_cons, List.not_mem_nil, false_imp_iff, implies_true, and_true]
      exact ⟨⟨digits.1, digits.2.1⟩, ⟨digits.2.2.1, digits.2.2.2.1⟩, fractionDigits⟩
    · contradiction
  · rintro ⟨ms, ss, ds, lengthM, lengthS, short, digits, rfl, rfl⟩
    obtain ⟨m₁, m₂, rfl⟩ := List.length_eq_two.1 lengthM
    obtain ⟨s₁, s₂, rfl⟩ := List.length_eq_two.1 lengthS
    simp only [List.forall_mem_cons, List.not_mem_nil, false_imp_iff, implies_true, and_true]
      at digits
    obtain ⟨⟨hm₁, hm₂⟩, ⟨hs₁, hs₂⟩, fractionDigits⟩ := digits
    have clock : [m₁, m₂, s₁, s₂].all isAnyDigit := by simp [hm₁, hm₂, hs₁, hs₂]
    have fraction := fraction?_eq_some_iff.2 ⟨ds, short, fractionDigits, rfl, rfl⟩
    show minutesOn? hours (':' :: m₁ :: m₂ :: ':' :: s₁ :: s₂ :: fractionText ds) = _
    rw [minutesOn?, if_pos clock, fraction, Option.map_some]

/-- A text is what is left of it and the `Z` that may be dropped. -/
theorem exists_dropZulu (cs : List Char) : ∃ zulu, cs = dropZulu cs ++ zuluText zulu := by
  by_cases last : cs.getLast? = some 'Z'
  · obtain ⟨init, rfl⟩ := List.getLast?_eq_some_iff.1 last
    refine ⟨true, ?_⟩
    rw [dropZulu, if_pos last, List.dropLast_concat]
    rfl
  · refine ⟨false, ?_⟩
    rw [dropZulu, if_neg last]
    exact (List.append_nil cs).symm

/-- A `Z` is dropped from the end of digits, and no digit is. -/
theorem dropZulu_append {cs : List Char} {z : Char} (last : cs.getLast? = some z)
    (digit : isAnyDigit z) (zulu : Bool) : dropZulu (cs ++ zuluText zulu) = cs := by
  cases zulu with
  | true =>
    show dropZulu (cs ++ ['Z']) = cs
    rw [dropZulu, if_pos List.getLast?_concat, List.dropLast_concat]
  | false =>
    show dropZulu (cs ++ []) = cs
    rw [List.append_nil, dropZulu, if_neg]
    intro same
    rw [last, Option.some.injEq] at same
    rw [same] at digit
    exact absurd digit (by decide)

/-- The clock time of a written instant ends in a digit. -/
theorem exists_last_clock (ms : List Char) {ss ds : List Char} (seconds : ss.length = 2)
    (digits : ∀ p ∈ [ss, ds], ∀ c ∈ p, isAnyDigit c) :
    ∃ z, (':' :: ms ++ ':' :: ss ++ fractionText ds).getLast? = some z ∧ isAnyDigit z := by
  obtain ⟨s₁, s₂, rfl⟩ := List.length_eq_two.1 seconds
  rcases List.eq_nil_or_concat ds with rfl | ⟨init, z, rfl⟩
  · have text : ':' :: ms ++ ':' :: [s₁, s₂] ++ fractionText [] =
        ':' :: ms ++ [':', s₁] ++ [s₂] := by simp [fractionText]
    exact ⟨s₂, text ▸ List.getLast?_concat, digits [s₁, s₂] (by simp) s₂ (by simp)⟩
  · have text : ':' :: ms ++ ':' :: [s₁, s₂] ++ fractionText (init.concat z) =
        ':' :: ms ++ ':' :: [s₁, s₂] ++ '.' :: init ++ [z] := by simp [fractionText]
    exact ⟨z, text ▸ List.getLast?_concat, digits (init.concat z) (by simp) z (by simp)⟩

namespace Instant

/-- What is taken apart is the text of a written instant. -/
theorem exists_of_fields? {cs : List Char} {f : Fields} (h : fields? cs = some f) :
    ∃ w : WrittenInstant, w.Fits ∧ cs = w.chars ∧ f = w.fields := by
  unfold fields? at h
  split at h
  · rename_i y₁ y₂ y₃ y₄ d₁ d₂ d₃ h₁ h₂ rest
    split_ifs at h with digits
    obtain ⟨clock, minutes, rfl⟩ := Option.map_eq_some_iff.1 h
    obtain ⟨ms, ss, ds, lengthM, lengthS, short, clockDigits, clockText, rfl⟩ :=
      (minutesOn?_eq_some_iff _).1 minutes
    obtain ⟨zulu, text⟩ := exists_dropZulu rest
    rw [clockText] at text
    refine ⟨⟨[y₁, y₂, y₃, y₄], [d₁, d₂, d₃], [h₁, h₂], ms, ss, ds, zulu⟩,
      ⟨rfl, rfl, rfl, lengthM, lengthS, short, ?_⟩, ?_, rfl⟩
    · simp only [List.all_cons, List.all_nil, Bool.and_eq_true] at digits
      obtain ⟨hy₁, hy₂, hy₃, hy₄, hd₁, hd₂, hd₃, hh₁, hh₂, -⟩ := digits
      simp only [parts, List.forall_mem_cons, List.not_mem_nil, false_imp_iff, implies_true,
        and_true] at clockDigits ⊢
      exact ⟨⟨hy₁, hy₂, hy₃, hy₄⟩, ⟨hd₁, hd₂, hd₃⟩, ⟨hh₁, hh₂⟩, clockDigits⟩
    · rw [text]
      simp only [WrittenInstant.chars, List.append_assoc, List.cons_append, List.nil_append]
  · contradiction

theorem fields?_chars {w : WrittenInstant} (fits : w.Fits) : fields? w.chars = some w.fields := by
  obtain ⟨ys, dd, hh, ms, ss, ds, zulu⟩ := w
  obtain ⟨year, day, hours, minutes, seconds, short, digits⟩ := fits
  dsimp only at year day hours minutes seconds short
  obtain ⟨y₁, y₂, y₃, y₄, rfl⟩ := List.length_eq_four.1 year
  obtain ⟨d₁, d₂, d₃, rfl⟩ := List.length_eq_three.1 day
  obtain ⟨h₁, h₂, rfl⟩ := List.length_eq_two.1 hours
  simp only [parts, List.forall_mem_cons, List.not_mem_nil, false_imp_iff, implies_true,
    and_true] at digits
  obtain ⟨⟨hy₁, hy₂, hy₃, hy₄⟩, ⟨hd₁, hd₂, hd₃⟩, ⟨hh₁, hh₂⟩, hm, hs, hf⟩ := digits
  have first : [y₁, y₂, y₃, y₄, d₁, d₂, d₃, h₁, h₂].all isAnyDigit := by
    simp [hy₁, hy₂, hy₃, hy₄, hd₁, hd₂, hd₃, hh₁, hh₂]
  obtain ⟨z, last, digit⟩ := exists_last_clock ms seconds
    (List.forall_mem_cons.2 ⟨hs, List.forall_mem_singleton.2 hf⟩)
  have clock := (minutesOn?_eq_some_iff (fieldValue [h₁, h₂])).2 ⟨ms, ss, ds, minutes,
    seconds, short, List.forall_mem_cons.2 ⟨hm, List.forall_mem_cons.2 ⟨hs,
      List.forall_mem_singleton.2 hf⟩⟩, rfl, rfl⟩
  rw [← dropZulu_append last digit zulu] at clock
  simp only [WrittenInstant.chars, List.append_assoc, List.cons_append, List.nil_append]
    at clock ⊢
  rw [fields?, if_pos first, clock, Option.map_some]
  rfl

/-- Fields in range are those of the instant that is written by them. -/
theorem exists_ofFields {y d h m s f : Nat} (hy : y < 10000) (one_le : 1 ≤ d)
    (le : (d : Int) ≤ Calendar.daysInYear y) (hh : h < 24) (hm : m < 60) (hs : s < 60)
    (hf : f < 1000) : ∃ i, ofFields ⟨y, d, ⟨h, m, s, f⟩⟩ = .ok i ∧
      i.chars = padded 4 y ++ '-' :: padded 3 d ++ 'T' :: (padded 2 h ++ ':' :: padded 2 m ++
        ':' :: padded 2 s ++ '.' :: padded 3 f) := by
  let n : Nat := h * 3600000 + m * 60000 + s * 1000 + f
  let day : Int := Calendar.daysBeforeYear y + d - 1
  let i : Instant := ⟨.ofInt (day * 86400000 + n)⟩
  have hn : n = h * 3600000 + m * 60000 + s * 1000 + f := rfl
  have clock : ClockFields.ofMillis n = ⟨h, m, s, f⟩ := by
    rw [ClockFields.ofMillis, ClockFields.mk.injEq]
    omega
  have millis : i.millis.toInt = day * 86400000 + n := by
    have first := Calendar.daysBeforeYear_mono (a := 0) (b := y) (by omega)
    have last := Calendar.daysBeforeYear_mono (a := y) (b := 10000) (by omega)
    have short := Calendar.daysInYear_le y
    rw [Calendar.daysBeforeYear_zero] at first
    rw [Calendar.daysBeforeYear_tenThousand] at last
    exact Int64.toInt_ofInt_of_le (by omega) (by omega)
  have unit : dayMillis = 86400000 := rfl
  have dayOf : i.day = day := by
    rw [Instant.day, millis, unit]
    omega
  have millisOfDay : i.millisOfDay = n := by
    rw [Instant.millisOfDay, millis, unit]
    omega
  have year : Calendar.yearOfDay i.day = y := by
    rw [dayOf]
    exact Calendar.yearOfDay_eq (by omega) le
  have dayOfYear : Calendar.dayOfYear i.day = d := by
    have total := Calendar.daysBeforeYear_add_dayOfYear i.day
    have hday : day = Calendar.daysBeforeYear y + d - 1 := rfl
    rw [year, dayOf] at total
    rw [dayOf]
    omega
  refine ⟨i, clock ▸ ofFields_written year dayOfYear millisOfDay, ?_⟩
  rw [ClockFields.ofMillis, ClockFields.mk.injEq] at clock
  rw [chars_eq, year, dayOfYear, millisOfDay, clockText_natCast, clock.1, clock.2.1, clock.2.2.1,
    clock.2.2.2]

/-- Fields are those of an instant only if they are in range. -/
theorem inRange_of_ofFields {w : WrittenInstant} {i : Instant} (h : ofFields w.fields = .ok i) :
    w.InRange := by
  obtain ⟨low, high, millis, total, inDay, -⟩ := ofFields_eq_ok.1 h
  obtain ⟨minutes, seconds, rfl⟩ := ClockFields.total_eq_ok.1 total
  simp only [WrittenInstant.fields, dayMillis, hourMillis, minuteMillis, secondMillis]
    at low high minutes seconds inDay
  exact ⟨low, high, by omega, minutes, seconds⟩

/-- Parts in range are read as the instant that is written by what each of them is read as. -/
theorem exists_of_inRange {w : WrittenInstant} (fits : w.Fits) (range : w.InRange) :
    ∃ i, ofFields w.fields = .ok i ∧ i.text = String.ofList w.complete.asRead.chars := by
  have fraction : (w.fraction ++ List.replicate (3 - w.fraction.length) '0').length = 3 := by
    have short := fits.fraction
    rw [List.length_append, List.length_replicate]
    omega
  have year := fieldValue_lt w.year
  rw [fits.year] at year
  have millis := fieldValue_lt (w.fraction ++ List.replicate (3 - w.fraction.length) '0')
  rw [fraction] at millis
  obtain ⟨j, made, text⟩ := exists_ofFields year range.one_le_day range.day_le range.hours
    range.minutes range.seconds millis
  refine ⟨j, made, ?_⟩
  rw [padded_fieldValue fits.year (by decide), padded_fieldValue fits.day (by decide),
    padded_fieldValue fits.hours (by decide), padded_fieldValue fits.minutes (by decide),
    padded_fieldValue fits.seconds (by decide), padded_fieldValue fraction (by decide)] at text
  have filled : w.complete.asRead.fraction.length = 3 := (length_fieldDigits _).trans fraction
  rw [Instant.text, text, WrittenInstant.chars, fractionText_of_pos (by omega)]
  simp only [complete, asRead, zuluText, List.append_assoc, List.cons_append, List.append_nil,
    Bool.false_eq_true, if_false]

theorem ofFields_eq_ok_iff {w : WrittenInstant} (fits : w.Fits) {i : Instant} :
    ofFields w.fields = .ok i ↔
      w.InRange ∧ i.text = String.ofList w.complete.asRead.chars := by
  constructor
  · intro h
    have range := inRange_of_ofFields h
    obtain ⟨j, made, text⟩ := exists_of_inRange fits range
    rw [h] at made
    obtain rfl := Except.ok.inj made
    exact ⟨range, text⟩
  · rintro ⟨range, text⟩
    obtain ⟨j, made, text'⟩ := exists_of_inRange fits range
    obtain rfl := text_injective (text.trans text'.symm)
    exact made

theorem read_eq_ok_iff_written {t : String} {i : Instant} : read t = .ok i ↔
    ∃ w : WrittenInstant, w.Fits ∧ trim t.toList = w.chars ∧ w.InRange ∧
      i.text = String.ofList w.complete.asRead.chars := by
  rw [read_eq_ok]
  constructor
  · rintro ⟨f, fields, made⟩
    obtain ⟨w, fits, text, rfl⟩ := exists_of_fields? fields
    exact ⟨w, fits, text, (ofFields_eq_ok_iff fits).1 made⟩
  · rintro ⟨w, fits, text, read⟩
    rw [text]
    exact ⟨w.fields, fields?_chars fits, (ofFields_eq_ok_iff fits).2 read⟩

end Instant

/-! ### Digits of other scripts -/

namespace WrittenInstant

/-- The characters of a written instant are those of its parts and the separators. -/
theorem mem_chars_iff {w : WrittenInstant} {c : Char} (digit : isAnyDigit c) :
    c ∈ w.chars ↔ ∃ p ∈ w.parts, c ∈ p := by
  have separator {d : Char} (h : isAnyDigit d = false) : c ≠ d := by
    rintro rfl
    rw [h] at digit
    contradiction
  have fraction : c ∈ fractionText w.fraction ↔ c ∈ w.fraction := by
    cases w.fraction with
    | nil => rfl
    | cons d ds => simp [fractionText, separator (d := '.') (by decide)]
  have zulu : c ∉ zuluText w.zulu := by
    cases w.zulu with
    | false => exact List.not_mem_nil
    | true => simp [zuluText, separator (d := 'Z') (by decide)]
  simp only [chars, parts, List.mem_append, List.mem_cons, fraction, zulu,
    separator (d := '-') (by decide), separator (d := 'T') (by decide),
    separator (d := ':') (by decide), false_or, or_false, exists_eq_or_imp, exists_eq_left,
    List.not_mem_nil, or_assoc]

theorem isAscii_of_chars {w : WrittenInstant} (fits : w.Fits)
    (h : ∀ c ∈ w.chars, isAnyDigit c → c.isDigit) : w.IsAscii := by
  intro p hp c hc
  have digit := fits.digits p hp c hc
  exact h c ((mem_chars_iff digit).2 ⟨p, hp, hc⟩) digit

theorem isAscii_asRead (w : WrittenInstant) : w.asRead.IsAscii := by
  intro p hp c hc
  have parts : w.asRead.parts = w.parts.map fieldDigits := rfl
  rw [parts] at hp
  obtain ⟨q, -, rfl⟩ := List.mem_map.1 hp
  exact isDigit_of_mem_fieldDigits hc

theorem asRead_eq_self {w : WrittenInstant} (h : w.IsAscii) : w.asRead = w := by
  obtain ⟨year, day, hours, minutes, seconds, fraction, zulu⟩ := w
  simp only [IsAscii, parts, List.forall_mem_cons, List.not_mem_nil, false_imp_iff, implies_true,
    and_true] at h
  obtain ⟨hy, hd, hh, hm, hs, hf⟩ := h
  simp only [asRead, fieldDigits_eq_self hy, fieldDigits_eq_self hd, fieldDigits_eq_self hh,
    fieldDigits_eq_self hm, fieldDigits_eq_self hs, fieldDigits_eq_self hf]

theorem isDigit_of_mem_zeros {k : Nat} {c : Char} (h : c ∈ List.replicate k '0') : c.isDigit := by
  rw [(List.mem_replicate.1 h).2]
  decide

theorem isAscii_complete_iff {w : WrittenInstant} : w.complete.IsAscii ↔ w.IsAscii := by
  have zeros : ∀ c ∈ List.replicate (3 - w.fraction.length) '0', c.isDigit :=
    fun _ => isDigit_of_mem_zeros
  simp only [IsAscii, parts, complete, List.forall_mem_cons, List.forall_mem_append,
    and_iff_left zeros]

theorem fits_complete {w : WrittenInstant} (fits : w.Fits) : w.complete.Fits := by
  obtain ⟨year, day, hours, minutes, seconds, fraction, digits⟩ := fits
  refine ⟨year, day, hours, minutes, seconds, ?_, ?_⟩
  · rw [complete, List.length_append, List.length_replicate]
    omega
  · have zeros : ∀ c ∈ List.replicate (3 - w.fraction.length) '0', isAnyDigit c :=
      fun _ h => isAnyDigit_of_isDigit (isDigit_of_mem_zeros h)
    simpa only [parts, complete, List.forall_mem_cons, List.forall_mem_append, and_iff_left zeros]
      using digits

/-- An instant is read with its own parts exactly if they have ASCII digits. -/
theorem chars_asRead_complete_iff {w : WrittenInstant} (fits : w.Fits) :
    w.complete.asRead.chars = w.complete.chars ↔ w.IsAscii := by
  constructor
  · intro same
    apply isAscii_complete_iff.1
    apply isAscii_of_chars (fits_complete fits)
    intro c hc digit
    rw [← same, mem_chars_iff digit] at hc
    obtain ⟨p, hp, hc⟩ := hc
    exact isAscii_asRead _ p hp c hc
  · intro ascii
    rw [asRead_eq_self (isAscii_complete_iff.2 ascii)]

end WrittenInstant

/-- What is read as an instant.  A text of ASCII digits is read exactly if it is a written instant
in range, between blanks, and the instant has this text but for a `Z` and the digits that are
missing from its fraction.  A text with other digits is read as if each part with such a digit were
zeros, so that the instant does not have the text. -/
theorem Instant.read_eq_ok_iff (t : String) :
    ((∀ c ∈ t.toList, isAnyDigit c → c.isDigit) → ∀ i, Instant.read t = .ok i ↔
      ∃ w : WrittenInstant, w.Fits ∧ w.IsAscii ∧ trim t.toList = w.chars ∧ w.InRange ∧
        i.text = String.ofList w.complete.chars) ∧
    (∀ i, Instant.read t = .ok i ↔ ∃ w : WrittenInstant, w.Fits ∧ trim t.toList = w.chars ∧
      w.InRange ∧ i.text = String.ofList w.complete.asRead.chars) ∧
    (∀ w : WrittenInstant, w.Fits → trim t.toList = w.chars → w.InRange →
      ∃ i, Instant.read t = .ok i ∧ (i.text = String.ofList w.complete.chars ↔ w.IsAscii)) := by
  refine ⟨fun ascii i => ?_, fun i => read_eq_ok_iff_written, fun w fits text range => ?_⟩
  · rw [read_eq_ok_iff_written]
    constructor
    · rintro ⟨w, fits, text, range, shown⟩
      have digits : w.IsAscii := by
        apply isAscii_of_chars fits
        intro c hc
        rw [← text] at hc
        exact ascii c (mem_of_mem_trim hc)
      refine ⟨w, fits, digits, text, range, ?_⟩
      rw [shown, (chars_asRead_complete_iff fits).2 digits]
    · rintro ⟨w, fits, digits, text, range, shown⟩
      refine ⟨w, fits, text, range, ?_⟩
      rw [shown, (chars_asRead_complete_iff fits).2 digits]
  · obtain ⟨i, -, shown⟩ := exists_of_inRange fits range
    refine ⟨i, read_eq_ok_iff_written.2 ⟨w, fits, text, range, shown⟩, ?_⟩
    rw [shown, String.ofList_inj]
    exact chars_asRead_complete_iff fits

/-- An instant between blanks with half a second, and one whose year has the digits of another
script. -/
theorem Instant.read_eq_ok_iff_half :
    (∀ c ∈ " 2020-060T03:45:19.5Z".toList, isAnyDigit c → c.isDigit) ∧
    (∃ i, Instant.read " 2020-060T03:45:19.5Z" = .ok i ∧ i.text = "2020-060T03:45:19.500" ∧
      ∃ w : WrittenInstant, w.Fits ∧ w.IsAscii ∧ trim " 2020-060T03:45:19.5Z".toList = w.chars ∧
        w.InRange ∧ i.text = String.ofList w.complete.chars) ∧
    ∃ i, Instant.read "\u0662\u0660\u0662\u0660-001T00:00:00" = .ok i ∧
      i.text ≠ "\u0662\u0660\u0662\u0660-001T00:00:00.000" := by
  have ascii : ∀ c ∈ " 2020-060T03:45:19.5Z".toList, isAnyDigit c → c.isDigit := by
    have all : " 2020-060T03:45:19.5Z".toList.all fun c => !isAnyDigit c || c.isDigit := by decide
    intro c hc digit
    simpa [digit] using List.all_eq_true.1 all c hc
  let half : WrittenInstant := ⟨['2', '0', '2', '0'], ['0', '6', '0'], ['0', '3'], ['4', '5'],
    ['1', '9'], ['5'], true⟩
  let foreign : WrittenInstant := ⟨['\u0662', '\u0660', '\u0662', '\u0660'], ['0', '0', '1'],
    ['0', '0'], ['0', '0'], ['0', '0'], [], false⟩
  have fits : half.Fits :=
    ⟨rfl, rfl, rfl, rfl, rfl, by decide, forall_parts_iff.2 (by decide)⟩
  have range : half.InRange := ⟨by decide, by decide, by decide, by decide, by decide⟩
  have foreignFits : foreign.Fits :=
    ⟨rfl, rfl, rfl, rfl, rfl, by decide, forall_parts_iff.2 (by decide)⟩
  have foreignRange : foreign.InRange := ⟨by decide, by decide, by decide, by decide, by decide⟩
  refine ⟨ascii, ?_, ?_⟩
  · obtain ⟨written, -, exact⟩ := Instant.read_eq_ok_iff " 2020-060T03:45:19.5Z"
    obtain ⟨i, read, own⟩ := exact half fits rfl range
    exact ⟨i, read, own.2 (by decide), (written ascii i).1 read⟩
  · obtain ⟨i, read, own⟩ := (Instant.read_eq_ok_iff
      "\u0662\u0660\u0662\u0660-001T00:00:00").2.2 foreign foreignFits rfl foreignRange
    exact ⟨i, read, fun same => absurd (own.1 same) (by decide)⟩

/-- A year in the digits of another script is taken for the year zero, where no ASCII digit is. -/
theorem Instant.read_foreign_year :
    (∃ i, Instant.read "\u0662\u0660\u0662\u0660-001T00:00:00" = .ok i ∧
      i.text = "0000-001T00:00:00.000") ∧
    ¬ ∃ w : WrittenInstant, w.Fits ∧ w.IsAscii ∧
      trim "\u0662\u0660\u0662\u0660-001T00:00:00".toList = w.chars := by
  refine ⟨⟨_, rfl, by rw [Instant.text, Instant.chars_eq]; rfl⟩, ?_⟩
  rintro ⟨w, fits, ascii, text⟩
  have year : w.year = ['\u0662', '\u0660', '\u0662', '\u0660'] := by
    have first := congrArg (List.take 4) text
    simp only [WrittenInstant.chars, List.append_assoc] at first
    rw [List.take_left' fits.year] at first
    exact first.symm
  have digit := ascii w.year List.mem_cons_self '\u0662' (year ▸ List.mem_cons_self)
  exact absurd digit (by decide)

end SeqScript
