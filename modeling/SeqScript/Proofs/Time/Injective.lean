import SeqScript.Proofs.Text.Digit
import SeqScript.Proofs.Time.Date

/-!
# Times told by their texts

Different instants have different texts, and so have different durations
(`Instant.text_injective`, `Duration.text_injective`), those out of the range that is read back
included: the year of an instant may be negative or long, and the least duration keeps the sign of
its magnitude in every field.
-/

namespace SeqScript

open Text (padded padded_append_iff)

/-- A separator is no digit. -/
theorem head?_separator {c : Char} (h : c.isDigit = false) (x : List Char) :
    ∀ d ∈ (c :: x).head?, d.isDigit = false := by
  rintro _ ⟨⟩
  exact h

theorem clockText_injective {m n : Int} (h : clockText m = clockText n) : m = n := by
  have point := head?_separator (c := '.') rfl
  have colon := head?_separator (c := ':') rfl
  simp only [clockText, List.append_assoc, List.cons_append] at h
  obtain ⟨hours, h⟩ := (padded_append_iff (colon _) (colon _)).1 h
  obtain ⟨minutes, h⟩ := (padded_append_iff (colon _) (colon _)).1 (List.cons.inj h).2
  obtain ⟨seconds, h⟩ := (padded_append_iff (point _) (point _)).1 (List.cons.inj h).2
  have last := (List.cons.inj h).2
  rw [← List.append_nil (padded 3 (m.tmod _)), ← List.append_nil (padded 3 (n.tmod _))] at last
  have stop : ∀ c ∈ ([] : List Char).head?, c.isDigit = false :=
    fun c h => absurd h (Option.not_mem_none c)
  obtain ⟨millis, -⟩ := (padded_append_iff stop stop).1 last
  have split (k : Int) : k = hourMillis * k.tdiv hourMillis +
      (minuteMillis * (k.tmod hourMillis).tdiv minuteMillis +
        (secondMillis * (k.tmod minuteMillis).tdiv secondMillis + k.tmod secondMillis)) := by
    have inHour := Int.mul_tdiv_add_tmod k hourMillis
    have inMinute := Int.mul_tdiv_add_tmod (k.tmod hourMillis) minuteMillis
    have inSecond := Int.mul_tdiv_add_tmod (k.tmod minuteMillis) secondMillis
    rw [Int.tmod_tmod_of_dvd k (by decide)] at inMinute inSecond
    rw [inSecond, inMinute, inHour]
  rw [split m, split n, hours, minutes, seconds, millis]

theorem Instant.text_injective : Function.Injective Instant.text := by
  intro i j h
  have same : i.chars = j.chars := String.ofList_injective h
  simp only [chars_eq, List.append_assoc, List.cons_append] at same
  have dash := head?_separator (c := '-') rfl
  have tee := head?_separator (c := 'T') rfl
  obtain ⟨year, same⟩ := (padded_append_iff (dash _) (dash _)).1 same
  obtain ⟨day, same⟩ := (padded_append_iff (tee _) (tee _)).1 (List.cons.inj same).2
  have clock := clockText_injective (List.cons.inj same).2
  have days : i.day = j.day := by
    rw [← Calendar.daysBeforeYear_add_dayOfYear i.day, year, day,
      Calendar.daysBeforeYear_add_dayOfYear]
  have millis : i.millis.toInt = j.millis.toInt := by
    rw [← Int.mul_ediv_add_emod i.millis.toInt dayMillis,
      ← Int.mul_ediv_add_emod j.millis.toInt dayMillis]
    exact congrArg₂ (fun d m => dayMillis * d + m) days clock
  obtain ⟨a⟩ := i
  obtain ⟨b⟩ := j
  exact congrArg Instant.mk (Int64.toInt_inj.1 millis)

namespace Duration

theorem msb_eq (d : Duration) : d.millis.toBitVec.msb = decide (d.millis < 0) := by
  rw [BitVec.msb_eq_toInt, decide_eq_decide, Int64.lt_iff_toInt_lt]
  rfl

/-- Durations of one sign are told by their magnitudes, the least one too. -/
theorem magnitude_injective {d e : Duration} (sign : d.millis < 0 ↔ e.millis < 0)
    (h : d.magnitude = e.magnitude) : d = e := by
  have words : d.millis.toBitVec.abs = e.millis.toBitVec.abs := congrArg Int64.toBitVec h
  obtain ⟨a⟩ := d
  obtain ⟨b⟩ := e
  refine congrArg Duration.mk (Int64.toBitVec_inj.1 ?_)
  rw [BitVec.abs_eq, BitVec.abs_eq, msb_eq ⟨a⟩, msb_eq ⟨b⟩] at words
  by_cases negative : b < 0
  · simpa only [decide_eq_true (sign.2 negative), decide_eq_true negative, if_true,
      BitVec.neg_inj] using words
  · simpa only [decide_eq_false (mt sign.1 negative), decide_eq_false negative,
      Bool.false_eq_true, if_false] using words

/-- The clock text of a duration that is not negative does not begin with a minus sign. -/
theorem clockText_magnitude_ne {d : Duration} (h : ¬ d.millis < 0) (x : List Char) :
    clockText d.magnitude.toInt ≠ '-' :: x := by
  have plain : d.millis.toBitVec.abs = d.millis.toBitVec := by
    rw [BitVec.abs_eq, msb_eq, decide_eq_false h, if_neg Bool.false_ne_true]
  have magnitude : d.magnitude.toInt = d.millis.toInt := congrArg BitVec.toInt plain
  have zero : (0 : Int64).toInt = 0 := rfl
  rw [Int64.lt_iff_toInt_lt, zero] at h
  have hours : ¬ d.millis.toInt.tdiv hourMillis < 0 :=
    Int.not_lt.2 (Int.tdiv_nonneg (Int.not_lt.1 h) (by decide))
  obtain ⟨ds, digits, nonempty, -, text⟩ := Text.padded_eq 2 (d.millis.toInt.tdiv hourMillis)
  rw [if_neg hours] at text
  rcases ds with _ | ⟨c, ds⟩
  · exact absurd rfl nonempty
  · intro minus
    rw [magnitude] at minus
    simp only [clockText, text, List.append_assoc, List.cons_append] at minus
    have digit := digits c List.mem_cons_self
    rw [(List.cons.inj minus).1] at digit
    contradiction

theorem text_injective : Function.Injective Duration.text := by
  intro d e h
  have same : d.chars = e.chars := String.ofList_injective h
  simp only [chars] at same
  split_ifs at same with hd he he
  · have clock := clockText_injective (List.cons.inj same).2
    exact magnitude_injective (iff_of_true hd he) (Int64.toInt_inj.1 clock)
  · exact absurd same.symm (clockText_magnitude_ne he _)
  · exact absurd same (clockText_magnitude_ne hd _)
  · exact magnitude_injective (iff_of_false hd he) (Int64.toInt_inj.1 (clockText_injective same))

end Duration

end SeqScript
