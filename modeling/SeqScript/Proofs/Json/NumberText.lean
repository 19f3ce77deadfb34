import SeqScript.Json.Reader
import SeqScript.Proofs.Number.Numeral
import SeqScript.Proofs.Text.Digit

/-!
# Reading written numbers

The reader of a number takes a whole numeral, and whether it succeeds, and with which number,
depends on nothing that follows (`readsWhole_readNumber`).  So a number in a longer text is read as
its own text is (`Number.reread?`).  Every integer is read back as itself
(`Number.reread?_integer`); a double need not be.
-/

namespace SeqScript

namespace Json

open Reading
open Text (digitValue digitsValue)

variable {α β : Type}

/-! ### What ends a number -/

/-- A character that may continue a number. -/
def isNumberChar (c : Char) : Bool :=
  c.isDigit || c == '+' || c == '-' || c == '.' || c == 'e' || c == 'E'

/-- The text is empty or starts with a character that continues no number. -/
def EndsNumber (cs : List Char) : Prop := ∀ c ∈ cs.head?, isNumberChar c = false

theorem EndsNumber.cases {x : List Char} (h : EndsNumber x) :
    x = [] ∨ ∃ c cs, x = c :: cs ∧ c.isDigit = false ∧ c ≠ '.' ∧ c ≠ 'e' ∧ c ≠ 'E' := by
  rcases x with _ | ⟨c, cs⟩
  · exact .inl rfl
  · have plain := h c rfl
    simp only [isNumberChar, Bool.or_eq_false_iff, beq_eq_false_iff_ne] at plain
    obtain ⟨⟨⟨⟨⟨digit, -⟩, -⟩, point⟩, lower⟩, upper⟩ := plain
    exact .inr ⟨c, cs, rfl, digit, point, lower, upper⟩

/-- The text is empty or starts with no digit. -/
def EndsDigits (cs : List Char) : Prop := ∀ c ∈ cs.head?, c.isDigit = false

theorem endsNumber_nil : EndsNumber [] := fun c h => absurd h (Option.not_mem_none c)

theorem EndsNumber.endsDigits {x : List Char} (h : EndsNumber x) : EndsDigits x := by
  intro c hc
  have plain := h c hc
  simp only [isNumberChar, Bool.or_eq_false_iff] at plain
  exact plain.1.1.1.1.1

theorem endsDigits_cons {c : Char} {cs : List Char} (h : c.isDigit = false) :
    EndsDigits (c :: cs) := by
  rintro _ ⟨⟩
  exact h

theorem span_digits {ds x : List Char} (h : ∀ c ∈ ds, c.isDigit) (hx : EndsDigits x) :
    (ds ++ x).takeWhile Char.isDigit = ds ∧ (ds ++ x).dropWhile Char.isDigit = x := by
  rw [List.takeWhile_append_of_pos h, List.dropWhile_append_of_pos h]
  rcases x with _ | ⟨c, cs⟩
  · exact ⟨List.append_nil ds, rfl⟩
  · have other := hx c rfl
    simp [other]

/-! ### Reading a whole numeral -/

/-- What is read from the text is the same whatever ends it, and nothing of the text is left. -/
def ReadsWhole (read : List Char → Reading α) (cs : List Char) : Prop :=
  ∃ o : Option α, ∀ x, EndsNumber x → (read (cs ++ x)).toOption = o.map (·, x)

theorem toOption_eq_some {ε : Type} {r : Except ε α} {a : α} (h : r.toOption = some a) :
    r = .ok a := by
  rcases r with e | b
  · contradiction
  · exact congrArg Except.ok (Option.some.inj h)

theorem toOption_eq_none {ε : Type} {r : Except ε α} (h : r.toOption = none) :
    ∃ e, r = .error e := by
  rcases r with e | b
  · exact ⟨e, rfl⟩
  · contradiction

theorem readsWhole_scaled (negative : Bool) (n : Nat) (e : Int) :
    ReadsWhole (scaled negative n e) [] := by
  unfold scaled
  generalize (Binary64.ofNat? n >>= fun y => y.scaleByTen e) = rounded
  rcases rounded with _ | y
  · exact ⟨none, fun _ _ => rfl⟩
  · exact ⟨some _, fun _ _ => rfl⟩

theorem readsWhole_readExponentDigits (vast : Bool) (e : Nat) {ds : List Char}
    (h : ∀ c ∈ ds, c.isDigit) : ReadsWhole (readExponentDigits vast e) ds := by
  induction ds generalizing e with
  | nil =>
    refine ⟨some e, fun x hx => ?_⟩
    rcases x with _ | ⟨c, cs⟩
    · rfl
    · have other := hx.endsDigits c rfl
      simp only [List.nil_append, readExponentDigits, other, Bool.false_eq_true, if_false]
      rfl
  | cons c ds ih =>
    obtain ⟨digit, rest⟩ := List.forall_mem_cons.1 h
    by_cases vastness : (vast && decide (exponentLimit < 10 * e + digitValue c)) = true
    · refine ⟨none, fun x _ => ?_⟩
      simp only [List.cons_append, readExponentDigits, digit, if_true, vastness]
      rfl
    · obtain ⟨o, read⟩ := ih (10 * e + digitValue c) rest
      refine ⟨o, fun x hx => ?_⟩
      simp only [List.cons_append, readExponentDigits, digit, if_true, if_neg vastness]
      exact read x hx

theorem readsWhole_readSignedExponent (negative : Bool) (n : Nat) (start : Int) (down : Bool)
    {ds : List Char} (h : IsDigits ds) :
    ReadsWhole (readSignedExponent negative n start down) ds := by
  obtain ⟨nonempty, digits⟩ := h
  rcases ds with _ | ⟨c, ds⟩
  · exact absurd rfl nonempty
  · obtain ⟨digit, rest⟩ := List.forall_mem_cons.1 digits
    obtain ⟨o, read⟩ := readsWhole_readExponentDigits (!down && n != 0) (digitValue c) rest
    rcases o with _ | e
    · refine ⟨none, fun x hx => ?_⟩
      obtain ⟨stop, stopped⟩ := toOption_eq_none (read x hx)
      simp only [List.cons_append, readSignedExponent, digit, if_true, stopped]
      rfl
    · obtain ⟨o, scale⟩ := readsWhole_scaled negative n (if down then start - e else start + e)
      refine ⟨o, fun x hx => ?_⟩
      have exponent := toOption_eq_some (read x hx)
      simp only [List.cons_append, readSignedExponent, digit, if_true, exponent]
      exact scale x hx

theorem readsWhole_readExponent (negative : Bool) (n : Nat) (start : Int) {sign : Char}
    {ds : List Char} (signed : sign = '+' ∨ sign = '-') (h : IsDigits ds) :
    ReadsWhole (readExponent negative n start) (sign :: ds) := by
  rcases signed with rfl | rfl
  · exact readsWhole_readSignedExponent negative n start false h
  · exact readsWhole_readSignedExponent negative n start true h

theorem readScale_plain (negative : Bool) (n : Nat) (start : Int) {x : List Char}
    (h : EndsNumber x) : readScale negative n start x = scaled negative n start x := by
  unfold readScale
  rcases h.cases with rfl | ⟨c, cs, rfl, -, -, lower, upper⟩
  · rfl
  · split
    · rename_i same
      exact absurd (List.cons.inj same).1 lower
    · rename_i same
      exact absurd (List.cons.inj same).1 upper
    · rfl

theorem readsWhole_readScale (negative : Bool) (n : Nat) (start : Int) {power : List Char}
    (h : IsPower power) : ReadsWhole (readScale negative n start) power := by
  rcases h with rfl | ⟨sign, ds, rfl, signed, digits⟩
  · obtain ⟨o, scale⟩ := readsWhole_scaled negative n start
    refine ⟨o, fun x hx => ?_⟩
    rw [List.nil_append, readScale_plain negative n start hx]
    exact scale x hx
  · exact readsWhole_readExponent negative n start signed digits

theorem endsDigits_power {power x : List Char} (h : IsPower power) (hx : EndsNumber x) :
    EndsDigits (power ++ x) := by
  rcases h with rfl | ⟨sign, ds, rfl, -, -⟩
  · exact hx.endsDigits
  · exact endsDigits_cons (by decide)

theorem readsWhole_readFraction (negative : Bool) (n : Nat) (start : Int) {ds power : List Char}
    (h : IsDigits ds) (hp : IsPower power) :
    ReadsWhole (readFraction negative n start) (ds ++ power) := by
  have nonempty : ¬ ds.isEmpty := fun nil => h.1 (List.isEmpty_iff.1 nil)
  obtain ⟨o, scale⟩ := readsWhole_readScale negative (gather n ds).1
    (start - (ds.length - (gather n ds).2.length : Nat)) hp
  refine ⟨o, fun x hx => ?_⟩
  obtain ⟨taken, dropped⟩ := span_digits h.2 (endsDigits_power hp hx)
  rw [List.append_assoc, readFraction]
  simp only [taken, dropped, if_neg nonempty]
  exact scale x hx

theorem readsWhole_integerNumber (negative : Bool) (n : Nat) :
    ReadsWhole (integerNumber negative n) [] := by
  unfold integerNumber
  rcases (if negative && n == 0 then none else Number.ofInt? (if negative then -n else n))
    with _ | i
  · exact readsWhole_scaled negative n 0
  · exact ⟨some i, fun _ _ => rfl⟩

theorem integerNumber_eq {negative : Bool} {n : Nat} {i : Number}
    (nonzero : (negative && n == 0) = false)
    (fits : Number.ofInt? (if negative then -n else n) = some i) (cs : List Char) :
    integerNumber negative n cs = .ok (i, cs) := by
  unfold integerNumber
  rw [nonzero]
  simp only [Bool.false_eq_true, if_false, fits]

/-- What is read after integer digits that no point or power follows. -/
theorem readAfterInteger_plain (negative : Bool) (ds : List Char) {x : List Char}
    (h : EndsNumber x) : readAfterInteger negative ds x =
      if (gather 0 ds).2.isEmpty then integerNumber negative (gather 0 ds).1 x
      else scaled negative (gather 0 ds).1 (gather 0 ds).2.length x := by
  unfold readAfterInteger
  rcases gather 0 ds with ⟨n, dropped⟩
  rcases h.cases with rfl | ⟨c, cs, rfl, -, point, lower, upper⟩
  · rfl
  · simp only
    split
    · rename_i same
      exact absurd (List.cons.inj same).1 point
    · rename_i same
      exact absurd (List.cons.inj same).1 lower
    · rename_i same
      exact absurd (List.cons.inj same).1 upper
    · rfl

theorem readsWhole_readAfterInteger (negative : Bool) (ds : List Char) {part power : List Char}
    (hf : IsFraction part) (hp : IsPower power) :
    ReadsWhole (readAfterInteger negative ds) (part ++ power) := by
  rcases hf with rfl | ⟨fs, rfl, fraction⟩
  · rcases hp with rfl | ⟨sign, es, rfl, signed, digits⟩
    · by_cases fits : (gather 0 ds).2.isEmpty
      · obtain ⟨o, read⟩ := readsWhole_integerNumber negative (gather 0 ds).1
        refine ⟨o, fun x hx => ?_⟩
        show (readAfterInteger negative ds x).toOption = _
        rw [readAfterInteger_plain negative ds hx, if_pos fits]
        exact read x hx
      · obtain ⟨o, read⟩ := readsWhole_scaled negative (gather 0 ds).1 (gather 0 ds).2.length
        refine ⟨o, fun x hx => ?_⟩
        show (readAfterInteger negative ds x).toOption = _
        rw [readAfterInteger_plain negative ds hx, if_neg fits]
        exact read x hx
    · exact readsWhole_readExponent negative (gather 0 ds).1 (gather 0 ds).2.length signed digits
  · exact readsWhole_readFraction negative (gather 0 ds).1 (gather 0 ds).2.length fraction hp

theorem endsDigits_fraction {part power x : List Char} (hf : IsFraction part) (hp : IsPower power)
    (hx : EndsNumber x) : EndsDigits (part ++ (power ++ x)) := by
  rcases hf with rfl | ⟨fs, rfl, -⟩
  · show EndsDigits (power ++ x)
    exact endsDigits_power hp hx
  · exact endsDigits_cons (by decide)

/-- A zero is a number by itself, and no other number starts with one. -/
theorem readNumber_zero (negative : Bool) (cs : List Char) :
    readNumber negative ('0' :: cs) =
      if (cs.takeWhile Char.isDigit).isEmpty then readAfterInteger negative ['0'] cs
      else stopAt .invalidNumber cs := rfl

theorem readNumber_digit (negative : Bool) {c : Char} (cs : List Char) (digit : c.isDigit)
    (nonzero : c ≠ '0') : readNumber negative (c :: cs) =
      readAfterInteger negative (c :: cs.takeWhile Char.isDigit)
        (cs.dropWhile Char.isDigit) := by
  unfold readNumber
  split
  · contradiction
  · rename_i same
    exact absurd (List.cons.inj same).1 nonzero
  · rename_i same
    obtain ⟨rfl, rfl⟩ := List.cons.inj same
    rw [if_pos digit]

/-- A numeral is read whole. -/
theorem readsWhole_readNumber (negative : Bool) {cs : List Char} (h : IsNumeral cs) :
    ReadsWhole (readNumber negative) cs := by
  obtain ⟨whole, part, power, rfl, ⟨nonempty, digits⟩, hf, hp⟩ := h
  rcases whole with _ | ⟨c, ds⟩
  · exact absurd rfl nonempty
  · obtain ⟨digit, rest⟩ := List.forall_mem_cons.1 digits
    by_cases zero : c = '0'
    · subst zero
      by_cases single : ds = []
      · subst single
        obtain ⟨o, read⟩ := readsWhole_readAfterInteger negative ['0'] hf hp
        refine ⟨o, fun x hx => ?_⟩
        have ended := endsDigits_fraction hf hp hx
        have none : ((part ++ (power ++ x)).takeWhile Char.isDigit).isEmpty := by
          rw [List.isEmpty_iff]
          exact (span_digits (List.forall_mem_nil _) ended).1
        have whole := read x hx
        rw [List.append_assoc] at whole
        simp only [List.cons_append, List.nil_append, List.append_assoc, readNumber_zero,
          if_pos none]
        exact whole
      · refine ⟨none, fun x hx => ?_⟩
        have some : ¬ ((ds ++ (part ++ (power ++ x))).takeWhile Char.isDigit).isEmpty := by
          rw [List.isEmpty_iff, (span_digits rest (endsDigits_fraction hf hp hx)).1]
          exact single
        simp only [List.cons_append, List.append_assoc, readNumber_zero, if_neg some]
        rfl
    · obtain ⟨o, read⟩ := readsWhole_readAfterInteger negative (c :: ds) hf hp
      refine ⟨o, fun x hx => ?_⟩
      obtain ⟨taken, dropped⟩ := span_digits rest (endsDigits_fraction hf hp hx)
      have whole := read x hx
      rw [List.append_assoc] at whole
      simp only [List.cons_append, List.append_assoc]
      rw [readNumber_digit negative _ digit zero, taken, dropped]
      exact whole

/-! ### Numbers among other values -/

theorem isSpace_of_isDigit {c : Char} (h : c.isDigit) : isSpace c = false := by
  simp only [isSpace, Bool.or_eq_false_iff, beq_eq_false_iff_ne]
  refine ⟨⟨⟨?_, ?_⟩, ?_⟩, ?_⟩ <;> rintro rfl <;> contradiction

theorem skipSpace_cons {c : Char} (cs : List Char) (h : isSpace c = false) :
    skipSpace (c :: cs) = c :: cs := by
  simp [skipSpace, h]

theorem readScalar_digit {c : Char} (cs : List Char) (digit : c.isDigit) :
    readScalar (c :: cs) = wrap number (readNumber false (c :: cs)) := by
  have other {d : Char} {ds : List Char} (plain : d.isDigit = false) : c :: cs ≠ d :: ds := by
    rintro ⟨⟩
    rw [plain] at digit
    contradiction
  unfold readScalar
  split
  · contradiction
  · exact absurd ‹_› (other rfl)
  · exact absurd ‹_› (other rfl)
  · exact absurd ‹_› (other rfl)
  · exact absurd ‹_› (other rfl)
  · exact absurd ‹_› (other rfl)
  · rename_i same
    obtain ⟨rfl, rfl⟩ := List.cons.inj same
    rw [if_pos digit]

theorem toOption_wrap (f : α → Json) (r : Reading α) :
    (wrap f r).toOption = r.toOption.map fun (a, cs) => (f a, cs) := by
  rcases r with stop | ⟨a, cs⟩ <;> rfl

/-- Where no bracket stands, a value is a scalar. -/
theorem readValue_scalar (d : Nat) {c : Char} (cs : List Char) (space : isSpace c = false)
    (bracket : c ≠ '[') (brace : c ≠ '{') : readValue d (c :: cs) = readScalar (c :: cs) := by
  unfold readValue
  rw [skipSpace_cons cs space]
  split
  · rename_i same
    exact absurd (List.cons.inj same).1 bracket
  · rename_i same
    exact absurd (List.cons.inj same).1 brace
  · rfl

/-- The text of a number starts with a sign or a digit. -/
theorem exists_cons_text (n : Number) :
    ∃ c cs, n.text.toList = c :: cs ∧ (c = '-' ∨ c.isDigit) := by
  obtain ⟨cs, numeral, text | text⟩ := n.isNumeral_text
  · obtain ⟨c, ds, first, digit⟩ := numeral.exists_cons
    exact ⟨c, ds, text.trans first, .inr digit⟩
  · exact ⟨'-', cs, text, .inl rfl⟩

theorem readScalar_text (n : Number) : ∃ o : Option Number, ∀ x, EndsNumber x →
    (readScalar (n.text.toList ++ x)).toOption = o.map fun m => (number m, x) := by
  obtain ⟨cs, numeral, text | text⟩ := n.isNumeral_text
  · obtain ⟨o, read⟩ := readsWhole_readNumber false numeral
    obtain ⟨c, ds, rfl, digit⟩ := numeral.exists_cons
    refine ⟨o, fun x hx => ?_⟩
    rw [text, List.cons_append, readScalar_digit _ digit, toOption_wrap, ← List.cons_append,
      read x hx]
    cases o <;> rfl
  · obtain ⟨o, read⟩ := readsWhole_readNumber true numeral
    refine ⟨o, fun x hx => ?_⟩
    rw [text]
    show (wrap number (readNumber true (cs ++ x))).toOption = _
    rw [toOption_wrap, read x hx]
    cases o <;> rfl

theorem readValue_text (d : Nat) (n : Number) (x : List Char) :
    readValue d (n.text.toList ++ x) = readScalar (n.text.toList ++ x) := by
  obtain ⟨c, cs, text, sign | digit⟩ := exists_cons_text n
  · rw [text, sign]
    exact readValue_scalar d _ (by decide) (by decide) (by decide)
  · rw [text]
    refine readValue_scalar d _ (isSpace_of_isDigit digit) ?_ ?_
    · rintro rfl
      contradiction
    · rintro rfl
      contradiction

/-! ### Integers -/

theorem le_foldl_digits (n : Nat) (ds : List Char) :
    n ≤ ds.foldl (fun n c => 10 * n + digitValue c) n := by
  induction ds generalizing n with
  | nil => exact Nat.le_refl n
  | cons c ds ih =>
    have := ih (10 * n + digitValue c)
    rw [List.foldl_cons]
    omega

theorem gather_eq {n : Nat} {ds : List Char}
    (h : ds.foldl (fun n c => 10 * n + digitValue c) n ≤ wordLimit) :
    gather n ds = (ds.foldl (fun n c => 10 * n + digitValue c) n, []) := by
  induction ds generalizing n with
  | nil => rfl
  | cons c ds ih =>
    rw [List.foldl_cons] at h ⊢
    have next := Nat.le_trans (le_foldl_digits (10 * n + digitValue c) ds) h
    simp only [gather, if_pos next]
    exact ih h

/-- The digits of a natural number have no zero in front, unless they are one. -/
theorem toDigits_head {n : Nat} {cs : List Char} (h : Nat.toDigits 10 n = '0' :: cs) : cs = [] := by
  by_contra more
  have digits : ∀ c ∈ cs, c.isDigit := fun c hc =>
    (isDigits_toDigits n).2 c (h ▸ List.mem_cons_of_mem _ hc)
  have value : digitsValue cs = n := by
    rw [← Text.digitsValue_toDigits n, h]
    rfl
  have small := Text.digitsValue_lt digits
  rw [value] at small
  have short := (Nat.length_toDigits_le_iff (by decide) (List.length_pos_iff.2 more)).2 small
  rw [h, List.length_cons] at short
  omega

theorem readNumber_toDigits (negative : Bool) {n : Nat} (h : n ≤ wordLimit) :
    readNumber negative (Nat.toDigits 10 n) = integerNumber negative n [] := by
  have digits := isDigits_toDigits n
  have value : (Nat.toDigits 10 n).foldl (fun n c => 10 * n + digitValue c) 0 = n :=
    Text.digitsValue_toDigits n
  have gathered : gather 0 (Nat.toDigits 10 n) = (n, []) := by
    rw [gather_eq (by rw [value]; exact h), value]
  have whole : readNumber negative (Nat.toDigits 10 n) =
      readAfterInteger negative (Nat.toDigits 10 n) [] := by
    rcases first : Nat.toDigits 10 n with _ | ⟨c, cs⟩
    · exact absurd first digits.1
    · obtain ⟨digit, rest⟩ := List.forall_mem_cons.1 (first ▸ digits.2)
      by_cases zero : c = '0'
      · subst zero
        rw [toDigits_head first, readNumber_zero]
        exact if_pos rfl
      · obtain ⟨taken, dropped⟩ := span_digits rest endsNumber_nil.endsDigits
        rw [List.append_nil] at taken dropped
        rw [readNumber_digit negative cs digit zero, taken, dropped]
  rw [whole, readAfterInteger_plain negative _ endsNumber_nil, gathered]
  exact if_pos rfl

end Json

/-- The number that the text of a number is read as, if it is read. -/
def Number.reread? (n : Number) : Option Number :=
  match Json.read n.text with
  | .ok (.number m) => some m
  | _ => none

namespace Json

theorem reread?_eq {n : Number} {o : Option Number}
    (h : (readScalar (n.text.toList ++ [])).toOption = o.map fun m => (number m, [])) :
    n.reread? = o := by
  unfold Number.reread? read readNested
  rw [← readValue_text nestingLimit, List.append_nil] at h
  rcases o with _ | m
  · obtain ⟨stop, stopped⟩ := toOption_eq_none h
    rw [stopped]
    rfl
  · rw [toOption_eq_some h]
    rfl

/-- A number is read in a longer text as it is alone. -/
theorem toOption_readValue_number (d : Nat) (n : Number) {x : List Char} (h : EndsNumber x) :
    (readValue d (n.text.toList ++ x)).toOption = n.reread?.map fun m => (number m, x) := by
  obtain ⟨o, read⟩ := readScalar_text n
  rw [readValue_text, read x h, reread?_eq (read [] endsNumber_nil)]

end Json

/-- An integer is read back as itself. -/
theorem Number.reread?_integer (i : Int) (lower : -0x8000000000000000 ≤ i)
    (upper : i < 0x10000000000000000) :
    (Number.integer i lower upper).reread? = some (.integer i lower upper) := by
  refine Json.reread?_eq ?_
  have limit : i.natAbs ≤ Json.wordLimit := by
    simp only [Json.wordLimit]
    omega
  have found : ofInt? i = some (.integer i lower upper) := dif_pos ⟨lower, upper⟩
  rw [List.append_nil, text, decimalText, String.toList_ofList]
  by_cases negative : i < 0
  · have signed : -(i.natAbs : Int) = i := by omega
    have nonzero : (true && i.natAbs == 0) = false := beq_false_of_ne (by omega)
    rw [if_pos negative]
    show (Json.wrap Json.number (Json.readNumber true (Nat.toDigits 10 i.natAbs))).toOption = _
    rw [Json.readNumber_toDigits true limit,
      Json.integerNumber_eq nonzero (by rw [if_pos rfl, signed, found])]
    rfl
  · have signed : (i.natAbs : Int) = i := by omega
    have digits := isDigits_toDigits i.natAbs
    rw [if_neg negative]
    obtain ⟨c, cs, first, digit⟩ := digits.isNumeral.exists_cons
    rw [first, Json.readScalar_digit cs digit, ← first, Json.readNumber_toDigits false limit,
      Json.integerNumber_eq rfl (by rw [if_neg Bool.false_ne_true, signed, found])]
    rfl

end SeqScript
