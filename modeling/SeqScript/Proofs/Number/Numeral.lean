import Mathlib.Tactic.Common
import SeqScript.Number.Basic

/-!
# The form of numbers

The text of a number is a numeral after an optional sign (`Number.isNumeral_text`): digits, then
perhaps a point and more digits, then perhaps a power of ten with its own sign.
-/

namespace SeqScript

/-- At least one digit, and nothing else. -/
def IsDigits (ds : List Char) : Prop := ds ≠ [] ∧ ∀ c ∈ ds, c.isDigit

/-- Nothing, or a point and digits. -/
def IsFraction (cs : List Char) : Prop := cs = [] ∨ ∃ ds, cs = '.' :: ds ∧ IsDigits ds

/-- Nothing, or a signed power of ten. -/
def IsPower (cs : List Char) : Prop :=
  cs = [] ∨ ∃ sign ds, cs = 'e' :: sign :: ds ∧ (sign = '+' ∨ sign = '-') ∧ IsDigits ds

/-- The form of a number without its sign. -/
def IsNumeral (cs : List Char) : Prop :=
  ∃ whole part power, cs = whole ++ (part ++ power) ∧ IsDigits whole ∧ IsFraction part ∧
    IsPower power

theorem isDigits_toDigits (n : Nat) : IsDigits (Nat.toDigits 10 n) :=
  ⟨Nat.toDigits_ne_nil, fun _ h => Nat.isDigit_of_mem_toDigits (by decide) (by decide) h⟩

theorem isDigits_zero : IsDigits ['0'] := ⟨List.cons_ne_nil _ _, List.forall_mem_singleton.2 rfl⟩

theorem IsDigits.isNumeral {ds : List Char} (h : IsDigits ds) : IsNumeral ds :=
  ⟨ds, [], [], by rw [List.append_nil, List.append_nil], h, .inl rfl, .inl rfl⟩

theorem IsNumeral.exists_cons {cs : List Char} (h : IsNumeral cs) :
    ∃ c ds, cs = c :: ds ∧ c.isDigit := by
  obtain ⟨whole, part, power, rfl, ⟨nonempty, digits⟩, -, -⟩ := h
  rcases whole with _ | ⟨c, ds⟩
  · exact absurd rfl nonempty
  · exact ⟨c, _, rfl, digits c List.mem_cons_self⟩

namespace Binary64

theorem isDigits_significantDigits (x : Binary64) : IsDigits x.significantDigits.1 := by
  unfold significantDigits
  simp only
  split_ifs with empty
  · exact isDigits_zero
  · refine ⟨fun nil => empty (List.isEmpty_iff.2 nil), fun c hc => ?_⟩
    have kept := List.mem_reverse.1 hc
    have digit := List.mem_reverse.1 ((List.dropWhile_sublist _).subset kept)
    exact (isDigits_toDigits _).2 c digit

theorem isNumeral_positional {ds : List Char} (h : IsDigits ds) (e : Int) :
    IsNumeral (positional ds e) := by
  have zero : ∀ k, ∀ c ∈ List.replicate k '0', c.isDigit := by
    intro k c hc
    rw [(List.mem_replicate.1 hc).2]
    decide
  rcases e with n | n
  · have whole : IsDigits (ds.take (n + 1) ++
        List.replicate (n + 1 - (ds.take (n + 1)).length) '0') := by
      refine ⟨fun nil => ?_, fun c hc => ?_⟩
      · have front := (List.append_eq_nil_iff.1 nil).1
        rw [List.take_eq_nil_iff] at front
        exact front.elim (Nat.succ_ne_zero n) h.1
      · rcases List.mem_append.1 hc with hc | hc
        · exact h.2 c (List.mem_of_mem_take hc)
        · exact zero _ c hc
    have part : IsDigits (if (ds.drop (n + 1)).isEmpty then ['0'] else ds.drop (n + 1)) := by
      split_ifs with empty
      · exact isDigits_zero
      · refine ⟨fun nil => empty (List.isEmpty_iff.2 nil), fun c hc => ?_⟩
        exact h.2 c (List.mem_of_mem_drop hc)
    refine ⟨_, _, [], ?_, whole, .inr ⟨_, rfl, part⟩, .inl rfl⟩
    rw [List.append_nil]
    rfl
  · have part : IsDigits (List.replicate n '0' ++ ds) := by
      refine ⟨fun nil => h.1 (List.append_eq_nil_iff.1 nil).2, fun c hc => ?_⟩
      rcases List.mem_append.1 hc with hc | hc
      · exact zero _ c hc
      · exact h.2 c hc
    refine ⟨['0'], _, [], ?_, isDigits_zero, .inr ⟨_, rfl, part⟩, .inl rfl⟩
    rw [List.append_nil]
    rfl

theorem isNumeral_scientific {ds : List Char} (h : IsDigits ds) (e : Int) :
    IsNumeral (scientific ds e) := by
  have power : IsPower ('e' :: (if e < 0 then '-' else '+') :: Nat.toDigits 10 e.natAbs) := by
    refine .inr ⟨_, _, rfl, ?_, isDigits_toDigits _⟩
    split_ifs
    · exact .inr rfl
    · exact .inl rfl
  simp only [scientific]
  by_cases single : ds.length ≤ 1
  · rw [if_pos single]
    exact ⟨ds, [], _, rfl, h, .inl rfl, power⟩
  · rw [if_neg single]
    have whole : IsDigits (ds.take 1) := by
      refine ⟨fun nil => ?_, fun c hc => h.2 c (List.mem_of_mem_take hc)⟩
      exact (List.take_eq_nil_iff.1 nil).elim (Nat.succ_ne_zero 0) h.1
    have part : IsDigits (ds.drop 1) := by
      refine ⟨fun nil => ?_, fun c hc => h.2 c (List.mem_of_mem_drop hc)⟩
      exact single (List.drop_eq_nil_iff.1 nil)
    refine ⟨_, '.' :: ds.drop 1, _, ?_, whole, .inr ⟨_, rfl, part⟩, power⟩
    rw [List.append_assoc]

end Binary64

/-- The text of a number is a numeral, with a minus sign in front or without. -/
theorem Number.isNumeral_text (n : Number) :
    ∃ cs, IsNumeral cs ∧ (n.text.toList = cs ∨ n.text.toList = '-' :: cs) := by
  cases n with
  | integer i lower upper =>
    refine ⟨Nat.toDigits 10 i.natAbs, (isDigits_toDigits _).isNumeral, ?_⟩
    rw [text, decimalText, String.toList_ofList]
    split_ifs
    · exact .inr rfl
    · exact .inl rfl
  | real x =>
    have digits := x.isDigits_significantDigits
    rw [text, Binary64.text]
    simp only [String.toList_ofList]
    split_ifs with negative small small
    · exact ⟨_, Binary64.isNumeral_positional digits _, .inr rfl⟩
    · exact ⟨_, Binary64.isNumeral_scientific digits _, .inr rfl⟩
    · exact ⟨_, Binary64.isNumeral_positional digits _, .inl rfl⟩
    · exact ⟨_, Binary64.isNumeral_scientific digits _, .inl rfl⟩

end SeqScript
