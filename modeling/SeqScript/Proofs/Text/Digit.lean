import Mathlib.Algebra.Group.Nat.Defs
import Mathlib.Data.List.Induction
import SeqScript.Text.Blank
import SeqScript.Text.Digit

/-!
# Written and read digits

A natural number that is written in base ten, with zeros before it or not, is read back as itself
(`fieldValue_padded`), and a field of `n` characters denotes a number below `10 ^ n`
(`fieldValue_lt`).  Digits are never blank, so a text that starts and ends with one is its own
trimmed form (`trim_eq_self`).
-/

namespace SeqScript.Text

/-! ### Characters -/

theorem isAnyDigit_of_isDigit {c : Char} (h : c.isDigit) : isAnyDigit c := by
  simp [isAnyDigit, h]

theorem digitValue_lt {c : Char} (h : c.isDigit) : digitValue c < 10 := by
  simp only [Char.isDigit, Bool.and_eq_true, decide_eq_true_eq] at h
  have high : c.toNat ≤ 57 := h.2
  simp only [digitValue, Char.reduceToNat]
  omega

theorem not_isBlank_of_isDigit {c : Char} (h : c.isDigit) : isBlank c = false := by
  simp only [Char.isDigit, Bool.and_eq_true, decide_eq_true_eq] at h
  have low : 48 ≤ c.toNat := h.1
  have high : c.toNat ≤ 57 := h.2
  simp only [isBlank, Bool.or_eq_false_iff, Bool.and_eq_false_iff, decide_eq_false_iff_not,
    beq_eq_false_iff_ne]
  omega

/-! ### Blanks around a text -/

theorem dropWhile_isBlank {c : Char} (cs : List Char) (h : isBlank c = false) :
    (c :: cs).dropWhile isBlank = c :: cs := by
  simp [h]

/-- A text between two characters that are not blank has no blanks to trim. -/
theorem trim_eq_self {a z : Char} {cs mid : List Char} (start : cs = a :: mid)
    (stop : cs.getLast? = some z) (hf : isBlank a = false) (hl : isBlank z = false) :
    trim cs = cs := by
  obtain ⟨init, rfl⟩ : ∃ init, cs = init ++ [z] := by
    rw [List.getLast?_eq_some_iff] at stop
    exact stop
  have front : (init ++ [z]).dropWhile isBlank = init ++ [z] := by
    rw [start, dropWhile_isBlank mid hf]
  have back : (init ++ [z]).reverse.dropWhile isBlank = (init ++ [z]).reverse := by
    rw [List.reverse_append, List.reverse_singleton, List.singleton_append,
      dropWhile_isBlank _ hl]
  rw [trim, front, back, List.reverse_reverse]

/-! ### Runs of characters -/

theorem takeWhile_run {k : Char → Bool} {cs x : List Char} (h : ∀ c ∈ cs, k c)
    (hx : ∀ c ∈ x.head?, k c = false) : (cs ++ x).takeWhile k = cs := by
  have none : x.takeWhile k = [] := by
    rcases x with _ | ⟨c, x⟩
    · rfl
    · exact List.takeWhile_cons_of_neg (by rw [hx c rfl]; exact Bool.false_ne_true)
  rw [List.takeWhile_append_of_pos h, none, List.append_nil]

/-- Runs of characters of a class, in front of what stops them. -/
theorem append_run_iff {k : Char → Bool} {cs ds x y : List Char} (hc : ∀ c ∈ cs, k c)
    (hd : ∀ c ∈ ds, k c) (hx : ∀ c ∈ x.head?, k c = false) (hy : ∀ c ∈ y.head?, k c = false) :
    cs ++ x = ds ++ y ↔ cs = ds ∧ x = y := by
  constructor
  · intro same
    have runs := congrArg (List.takeWhile k) same
    rw [takeWhile_run hc hx, takeWhile_run hd hy] at runs
    rw [runs, List.append_cancel_left_eq] at same
    exact ⟨runs, same⟩
  · rintro ⟨rfl, rfl⟩
    rfl

/-! ### Values of digits -/

theorem digitsValue_append (as bs : List Char) :
    digitsValue (as ++ bs) = bs.foldl (fun n c => 10 * n + digitValue c) (digitsValue as) :=
  List.foldl_append

theorem digitsValue_concat (ds : List Char) (c : Char) :
    digitsValue (ds ++ [c]) = 10 * digitsValue ds + digitValue c := by
  rw [digitsValue_append]
  rfl

theorem digitsValue_toDigits (n : Nat) : digitsValue (Nat.toDigits 10 n) = n :=
  Nat.ofDigitChars_ten_toDigits

theorem digitsValue_zeros_append (k : Nat) (ds : List Char) :
    digitsValue (List.replicate k '0' ++ ds) = digitsValue ds := by
  induction k with
  | zero => rfl
  | succ k ih =>
    rw [List.replicate_succ, List.cons_append]
    exact ih

theorem digitsValue_lt {ds : List Char} (h : ∀ c ∈ ds, c.isDigit) :
    digitsValue ds < 10 ^ ds.length := by
  induction ds using List.reverseRecOn with
  | nil => decide
  | append_singleton ds c ih =>
    have low := ih fun d hd => h d (List.mem_append_left _ hd)
    have digit := digitValue_lt (h c (by simp))
    rw [digitsValue_concat, List.length_append, List.length_singleton, Nat.pow_succ]
    omega

theorem fieldValue_of_isDigit {ds : List Char} (h : ∀ c ∈ ds, c.isDigit) :
    fieldValue ds = digitsValue ds := by
  rw [fieldValue, if_pos (List.all_eq_true.2 h)]

theorem fieldValue_lt (ds : List Char) : fieldValue ds < 10 ^ ds.length := by
  by_cases h : ds.all Char.isDigit
  · rw [fieldValue, if_pos h]
    exact digitsValue_lt (List.all_eq_true.1 h)
  · rw [fieldValue, if_neg h]
    exact Nat.pow_pos (by decide)

/-! ### Padded numbers -/

theorem padded_natCast (width n : Nat) :
    padded width n =
      List.replicate (width - (Nat.toDigits 10 n).length) '0' ++ Nat.toDigits 10 n := by
  have h : ¬ (n : Int) < 0 := by omega
  simp only [padded, if_neg h, Int.natAbs_natCast]

theorem isDigit_of_mem_padded {w n : Nat} {c : Char} (h : c ∈ padded w n) : c.isDigit := by
  rw [padded_natCast, List.mem_append, List.mem_replicate] at h
  rcases h with ⟨-, rfl⟩ | h
  · decide
  · exact Nat.isDigit_of_mem_toDigits (by decide) (by decide) h

theorem digitsValue_padded (width n : Nat) : digitsValue (padded width n) = n := by
  rw [padded_natCast, digitsValue_zeros_append, digitsValue_toDigits]

theorem fieldValue_padded (width n : Nat) : fieldValue (padded width n) = n := by
  rw [fieldValue_of_isDigit fun c h => isDigit_of_mem_padded h, digitsValue_padded]

theorem length_padded (width n : Nat) :
    (padded width n).length = max width (Nat.toDigits 10 n).length := by
  rw [padded_natCast, List.length_append, List.length_replicate]
  omega

theorem length_padded_le {w n k : Nat} (hw : w ≤ k) (hk : 0 < k) (h : n < 10 ^ k) :
    (padded w n).length ≤ k := by
  have fits := (Nat.length_toDigits_le_iff (by decide) hk).2 h
  rw [length_padded]
  omega

theorem length_padded_of_lt (width : Nat) {n : Nat} (hw : 0 < width) (h : n < 10 ^ width) :
    (padded width n).length = width := by
  have fits := length_padded_le (Nat.le_refl width) hw h
  have wide := length_padded width n
  omega

/-- A padded integer is a sign and digits, or digits, whose value is its magnitude. -/
theorem padded_eq (width : Nat) (i : Int) : ∃ ds, (∀ c ∈ ds, c.isDigit) ∧ ds ≠ [] ∧
    digitsValue ds = i.natAbs ∧ padded width i = if i < 0 then '-' :: ds else ds := by
  have filled (k : Nat) : (∀ c ∈ List.replicate k '0' ++ Nat.toDigits 10 i.natAbs, c.isDigit) ∧
      List.replicate k '0' ++ Nat.toDigits 10 i.natAbs ≠ [] ∧
      digitsValue (List.replicate k '0' ++ Nat.toDigits 10 i.natAbs) = i.natAbs := by
    refine ⟨fun c hc => ?_, List.append_ne_nil_of_right_ne_nil _ Nat.toDigits_ne_nil, ?_⟩
    · rcases List.mem_append.1 hc with hc | hc
      · rw [(List.mem_replicate.1 hc).2]
        decide
      · exact Nat.isDigit_of_mem_toDigits (by decide) (by decide) hc
    · rw [digitsValue_zeros_append, digitsValue_toDigits]
  by_cases negative : i < 0
  · obtain ⟨digits, nonempty, value⟩ := filled (width - 1 - (Nat.toDigits 10 i.natAbs).length)
    exact ⟨_, digits, nonempty, value, by rw [padded, if_pos negative, if_pos negative]⟩
  · obtain ⟨digits, nonempty, value⟩ := filled (width - (Nat.toDigits 10 i.natAbs).length)
    exact ⟨_, digits, nonempty, value, by rw [padded, if_neg negative, if_neg negative]⟩

theorem exists_last_padded (width : Nat) (i : Int) :
    ∃ z, (padded width i).getLast? = some z ∧ z.isDigit := by
  obtain ⟨ds, digits, nonempty, -, text⟩ := padded_eq width i
  obtain ⟨z, last⟩ := List.getLast?_isSome.2 nonempty |> Option.isSome_iff_exists.1
  refine ⟨z, ?_, digits z (List.mem_of_getLast? last)⟩
  rw [text]
  split_ifs
  · rw [List.getLast?_cons, last]
    rfl
  · exact last

/-- A text that begins with a number and ends in a digit has no blanks around it. -/
theorem trim_padded_append (width : Nat) (i : Int) {x : List Char} {z : Char}
    (last : (padded width i ++ x).getLast? = some z) (digit : z.isDigit) :
    trim (padded width i ++ x) = padded width i ++ x := by
  obtain ⟨ds, digits, nonempty, -, text⟩ := padded_eq width i
  rw [text] at last ⊢
  split_ifs at last ⊢
  · exact trim_eq_self rfl last (by decide) (not_isBlank_of_isDigit digit)
  · obtain ⟨c, cs, rfl⟩ := List.exists_cons_of_ne_nil nonempty
    have first := digits c List.mem_cons_self
    exact trim_eq_self rfl last (not_isBlank_of_isDigit first) (not_isBlank_of_isDigit digit)

/-- A padded integer in front of what is no digit tells the integer. -/
theorem padded_append_iff {width : Nat} {i j : Int} {x y : List Char}
    (hx : ∀ c ∈ x.head?, c.isDigit = false) (hy : ∀ c ∈ y.head?, c.isDigit = false) :
    padded width i ++ x = padded width j ++ y ↔ i = j ∧ x = y := by
  constructor
  · intro same
    obtain ⟨ds, digitsI, nonemptyI, valueI, textI⟩ := padded_eq width i
    obtain ⟨es, digitsJ, nonemptyJ, valueJ, textJ⟩ := padded_eq width j
    have minus {cs : List Char} (digits : ∀ c ∈ cs, c.isDigit) (nonempty : cs ≠ [])
        (u v : List Char) : '-' :: u ≠ cs ++ v := by
      rcases cs with _ | ⟨c, cs⟩
      · exact absurd rfl nonempty
      · intro h
        have digit := digits c List.mem_cons_self
        rw [← (List.cons.inj h).1] at digit
        contradiction
    rw [textI, textJ] at same
    split_ifs at same with hi hj hj
    · obtain ⟨rfl, rest⟩ := (append_run_iff digitsI digitsJ hx hy).1 (List.cons.inj same).2
      exact ⟨by omega, rest⟩
    · exact absurd same (minus digitsJ nonemptyJ _ _)
    · exact absurd same.symm (minus digitsI nonemptyI _ _)
    · obtain ⟨rfl, rest⟩ := (append_run_iff digitsI digitsJ hx hy).1 same
      exact ⟨by omega, rest⟩
  · rintro ⟨rfl, rfl⟩
    rfl

end SeqScript.Text
