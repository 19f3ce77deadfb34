import Mathlib.Data.List.DropRight
import SeqScript.Proofs.Text.Digit
import SeqScript.Proofs.Text.Lines
import SeqScript.Text.OneLine

/-!
# Messages on one line

A message is put on one line by trimming its lines and joining those that are not empty.  What is
left is trimmed and has no line end (`isTrimmed_joinSpaced`), it has the characters of the message
but for blanks (`nonBlanks_oneLineChars`), and two messages one below the other are put on one line
like each of them (`oneLineChars_append`).  So the line is a normal form of the message
(`oneLine_normalForm`).
-/

namespace SeqScript.Text

/-! ### Trimmed texts -/

/-- The text neither begins nor ends with a blank. -/
structure IsTrimmed (cs : List Char) : Prop where
  head : ∀ c ∈ cs.head?, isBlank c = false
  last : ∀ c ∈ cs.getLast?, isBlank c = false

theorem isTrimmed_nil : IsTrimmed [] := ⟨nofun, nofun⟩

theorem not_isBlank_head_dropWhile {cs : List Char} {c : Char}
    (h : c ∈ (cs.dropWhile isBlank).head?) : isBlank c = false := by
  have first := List.head?_dropWhile_not isBlank cs
  rw [Option.mem_def.1 h] at first
  exact first

theorem isTrimmed_trim (cs : List Char) : IsTrimmed (trim cs) where
  head := by
    intro c hc
    -- What is left of the text begins like the text without its first blanks.
    obtain ⟨rest, whole⟩ := List.rdropWhile_prefix isBlank (cs.dropWhile isBlank)
    have start : (trim cs ++ rest).head? = some c := by
      rw [List.head?_append, Option.mem_def.1 hc, Option.some_or]
    exact not_isBlank_head_dropWhile (whole ▸ start)
  last := by
    intro c hc
    rw [trim, List.getLast?_reverse] at hc
    exact not_isBlank_head_dropWhile hc

theorem trim_sublist (cs : List Char) : (trim cs).Sublist cs :=
  (List.rdropWhile_prefix isBlank _).sublist.trans (List.dropWhile_sublist isBlank)

theorem dropWhile_eq_self_of_head {cs : List Char} (h : ∀ c ∈ cs.head?, isBlank c = false) :
    cs.dropWhile isBlank = cs := by
  cases cs with
  | nil => rfl
  | cons c cs => exact dropWhile_isBlank cs (h c rfl)

theorem IsTrimmed.trim_eq {cs : List Char} (h : IsTrimmed cs) : trim cs = cs := by
  have back : ∀ c ∈ cs.reverse.head?, isBlank c = false := by
    rw [List.head?_reverse]
    exact h.last
  rw [trim, dropWhile_eq_self_of_head h.head, dropWhile_eq_self_of_head back, List.reverse_reverse]

/-- A blank behind a text is trimmed with the others. -/
theorem trim_concat_blank (cs : List Char) {c : Char} (h : isBlank c) :
    trim (cs ++ [c]) = trim cs := by
  have trim_eq (cs : List Char) : trim cs = (cs.dropWhile isBlank).rdropWhile isBlank := rfl
  rw [trim_eq, trim_eq, List.dropWhile_append]
  by_cases blank : (cs.dropWhile isBlank).isEmpty
  · rw [if_pos blank, List.isEmpty_iff.1 blank, List.dropWhile_cons_of_pos h, List.dropWhile_nil]
  · rw [if_neg blank, List.rdropWhile_concat_pos isBlank _ c h]

/-! ### Characters that are not blank -/

def nonBlanks (cs : List Char) : List Char := cs.filter fun c => !isBlank c

theorem nonBlanks_append (cs ds : List Char) :
    nonBlanks (cs ++ ds) = nonBlanks cs ++ nonBlanks ds := List.filter_append ..

theorem nonBlanks_dropWhile (cs : List Char) :
    nonBlanks (cs.dropWhile isBlank) = nonBlanks cs := by
  have blanks : nonBlanks (cs.takeWhile isBlank) = [] :=
    List.filter_eq_nil_iff.2 fun c hc => by simp [List.mem_takeWhile_imp hc]
  calc nonBlanks (cs.dropWhile isBlank)
      = nonBlanks (cs.takeWhile isBlank) ++ nonBlanks (cs.dropWhile isBlank) := by
        rw [blanks, List.nil_append]
    _ = nonBlanks cs := by rw [← nonBlanks_append, List.takeWhile_append_dropWhile]

theorem nonBlanks_trim (cs : List Char) : nonBlanks (trim cs) = nonBlanks cs := by
  have reversed (ds : List Char) : nonBlanks ds.reverse = (nonBlanks ds).reverse :=
    List.filter_reverse ..
  rw [trim, reversed, nonBlanks_dropWhile, reversed, List.reverse_reverse, nonBlanks_dropWhile]

/-! ### Joined pieces -/

theorem joinSpaced_cons (l : List Char) {ls : List (List Char)} (h : ls ≠ []) :
    joinSpaced (l :: ls) = l ++ ' ' :: joinSpaced ls := by
  cases ls with
  | nil => contradiction
  | cons m ls => rfl

theorem joinSpaced_append {ls ms : List (List Char)} (hl : ls ≠ []) (hm : ms ≠ []) :
    joinSpaced (ls ++ ms) = joinSpaced ls ++ ' ' :: joinSpaced ms := by
  induction ls with
  | nil => contradiction
  | cons l ls ih =>
    by_cases alone : ls = []
    · rw [alone]
      exact joinSpaced_cons l hm
    · have more : ls ++ ms ≠ [] := List.append_ne_nil_of_left_ne_nil alone ms
      rw [List.cons_append, joinSpaced_cons l more, joinSpaced_cons l alone, ih alone,
        List.append_assoc, List.cons_append]

theorem nonBlanks_joinSpaced (ls : List (List Char)) :
    nonBlanks (joinSpaced ls) = ls.flatMap nonBlanks := by
  induction ls with
  | nil => rfl
  | cons l ls ih =>
    by_cases alone : ls = []
    · rw [alone]
      exact (List.append_nil _).symm
    · rw [joinSpaced_cons l alone, nonBlanks_append, List.flatMap_cons, ← ih]
      rfl

theorem not_mem_joinSpaced {c : Char} (space : c ≠ ' ') {ls : List (List Char)}
    (h : ∀ l ∈ ls, c ∉ l) : c ∉ joinSpaced ls := by
  induction ls with
  | nil => exact List.not_mem_nil
  | cons l ls ih =>
    obtain ⟨first, others⟩ := List.forall_mem_cons.1 h
    by_cases alone : ls = []
    · rw [alone]
      exact first
    · rw [joinSpaced_cons l alone, List.mem_append, List.mem_cons, not_or, not_or]
      exact ⟨first, space, ih others⟩

theorem joinSpaced_eq_nil_iff {ls : List (List Char)} (h : ∀ l ∈ ls, l ≠ []) :
    joinSpaced ls = [] ↔ ls = [] := by
  cases ls with
  | nil => exact iff_of_true rfl rfl
  | cons l ls =>
    refine iff_of_false (fun empty => ?_) (List.cons_ne_nil l ls)
    have first : l ≠ [] := h l (List.mem_cons_self ..)
    by_cases alone : ls = []
    · rw [alone] at empty
      exact first empty
    · rw [joinSpaced_cons l alone] at empty
      exact first (List.append_eq_nil_iff.1 empty).1

/-- Trimmed pieces that are not empty are joined to a trimmed text. -/
theorem isTrimmed_joinSpaced {ls : List (List Char)} (h : ∀ l ∈ ls, l ≠ [] ∧ IsTrimmed l) :
    IsTrimmed (joinSpaced ls) := by
  induction ls with
  | nil => exact isTrimmed_nil
  | cons l ls ih =>
    obtain ⟨⟨nonempty, trimmed⟩, others⟩ := List.forall_mem_cons.1 h
    by_cases alone : ls = []
    · rw [alone]
      exact trimmed
    · have rest : joinSpaced ls ≠ [] :=
        mt (joinSpaced_eq_nil_iff fun m hm => (others m hm).1).1 alone
      rw [joinSpaced_cons l alone]
      constructor
      · rw [List.head?_append_of_ne_nil _ nonempty]
        exact trimmed.head
      · rw [List.getLast?_append_of_ne_nil _ (List.cons_ne_nil _ _),
          ← List.singleton_append, List.getLast?_append_of_ne_nil _ rest]
        exact (ih others).last

/-! ### Messages -/

/-- The lines that a message is shown with. -/
def shownLines (cs : List Char) : List (List Char) :=
  ((pieces '\n' cs).map trim).filter (!·.isEmpty)

theorem oneLineChars_eq (cs : List Char) : oneLineChars cs = joinSpaced (shownLines cs) := rfl

theorem shownLine {cs l : List Char} (h : l ∈ shownLines cs) :
    l ≠ [] ∧ IsTrimmed l ∧ '\n' ∉ l := by
  obtain ⟨mem, nonempty⟩ := List.mem_filter.1 h
  obtain ⟨piece, inside, rfl⟩ := List.mem_map.1 mem
  refine ⟨by simpa using nonempty, isTrimmed_trim piece, fun newline => ?_⟩
  -- Trimming takes characters away and adds none.
  exact not_mem_of_mem_pieces inside ((trim_sublist piece).subset newline)

theorem shownLines_ne_nil {cs l : List Char} (h : l ∈ shownLines cs) : l ≠ [] := (shownLine h).1

theorem isTrimmed_oneLineChars (cs : List Char) : IsTrimmed (oneLineChars cs) :=
  isTrimmed_joinSpaced fun _ hl => ⟨(shownLine hl).1, (shownLine hl).2.1⟩

theorem newline_oneLineChars (cs : List Char) : '\n' ∉ oneLineChars cs :=
  not_mem_joinSpaced (by decide) fun _ hl => (shownLine hl).2.2

/-- A trimmed text of one line is shown as it is. -/
theorem oneLineChars_eq_self {cs : List Char} (newline : '\n' ∉ cs) (trimmed : IsTrimmed cs) :
    oneLineChars cs = cs := by
  rw [oneLineChars, pieces_eq_singleton newline, List.map_singleton, trimmed.trim_eq]
  cases cs with
  | nil => rfl
  | cons c cs => rfl

theorem nonBlanks_oneLineChars (cs : List Char) : nonBlanks (oneLineChars cs) = nonBlanks cs := by
  have shown (ls : List (List Char)) :
      (ls.filter (!·.isEmpty)).flatMap nonBlanks = ls.flatMap nonBlanks := by
    induction ls with
    | nil => rfl
    | cons l ls ih =>
      cases l with
      | nil => exact ih
      | cons c l => rw [List.filter_cons_of_pos rfl, List.flatMap_cons, ih, List.flatMap_cons]
  calc nonBlanks (oneLineChars cs)
      = (shownLines cs).flatMap nonBlanks := nonBlanks_joinSpaced _
    _ = (pieces '\n' cs).flatMap fun l => nonBlanks (trim l) := by
      rw [shownLines, shown, List.flatMap_map]
    _ = (pieces '\n' cs).flatMap nonBlanks := by simp only [nonBlanks_trim]
    _ = nonBlanks cs := flatMap_filter_pieces (by decide) cs

/-- Messages one below the other. -/
theorem oneLineChars_append (cs ds : List Char) :
    oneLineChars (cs ++ '\n' :: ds) =
      if oneLineChars cs = [] then oneLineChars ds
      else if oneLineChars ds = [] then oneLineChars cs
      else oneLineChars cs ++ ' ' :: oneLineChars ds := by
  have lines : shownLines (cs ++ '\n' :: ds) = shownLines cs ++ shownLines ds := by
    rw [shownLines, pieces_append_cons, List.map_append, List.filter_append, shownLines,
      shownLines]
  have empty (es : List Char) : joinSpaced (shownLines es) = [] ↔ shownLines es = [] :=
    joinSpaced_eq_nil_iff fun _ => shownLines_ne_nil
  simp only [oneLineChars_eq, lines, empty]
  by_cases first : shownLines cs = []
  · rw [if_pos first, first, List.nil_append]
  · by_cases second : shownLines ds = []
    · rw [if_neg first, if_pos second, second, List.append_nil]
    · rw [if_neg first, if_neg second, joinSpaced_append first second]

/-- A carriage return in front of a line feed is not seen. -/
theorem oneLineChars_carriage (cs ds : List Char) :
    oneLineChars (cs ++ '\r' :: '\n' :: ds) = oneLineChars (cs ++ '\n' :: ds) := by
  obtain ⟨first, last, ended⟩ := exists_last_piece '\n' cs
  have plain := ended [] List.not_mem_nil
  have carriage := ended ['\r'] (by decide)
  have behind : cs ++ '\r' :: '\n' :: ds = cs ++ ['\r'] ++ '\n' :: ds := by
    rw [List.append_assoc, List.singleton_append]
  rw [List.append_nil, List.append_nil] at plain
  rw [oneLineChars, oneLineChars, behind, pieces_append_cons, pieces_append_cons, carriage, plain]
  simp only [List.map_append, List.map_singleton, trim_concat_blank last (by decide : isBlank '\r')]

/-- The line of a message is trimmed, has no line feed and is its own line; it has the characters of
the message but for blanks; and the lines of two messages one below the other stand side by side,
whichever line end is between them. -/
theorem oneLine_normalForm (a b : String) :
    ('\n' ∉ (oneLine a).toList ∧ IsTrimmed (oneLine a).toList) ∧
    oneLine (oneLine a) = oneLine a ∧
    nonBlanks (oneLine a).toList = nonBlanks a.toList ∧
    (oneLine (a ++ "\n" ++ b) =
      if oneLine a = "" then oneLine b
      else if oneLine b = "" then oneLine a
      else oneLine a ++ " " ++ oneLine b) ∧
    oneLine (a ++ "\r\n" ++ b) = oneLine (a ++ "\n" ++ b) := by
  have text (s : String) : (oneLine s).toList = oneLineChars s.toList := String.toList_ofList
  have empty (s : String) : oneLine s = "" ↔ oneLineChars s.toList = [] := by
    rw [← String.toList_inj, text]
    rfl
  have below : (a ++ "\n" ++ b).toList = a.toList ++ '\n' :: b.toList := by
    simp only [String.toList_append, List.append_assoc]
    rfl
  have carriage : (a ++ "\r\n" ++ b).toList = a.toList ++ '\r' :: '\n' :: b.toList := by
    simp only [String.toList_append, List.append_assoc]
    rfl
  have newline := newline_oneLineChars a.toList
  have trimmed := isTrimmed_oneLineChars a.toList
  refine ⟨⟨text a ▸ newline, text a ▸ trimmed⟩, ?_, ?_, ?_, ?_⟩
  · rw [← String.toList_inj, text, text, oneLineChars_eq_self newline trimmed]
  · rw [text, nonBlanks_oneLineChars]
  · rw [← String.toList_inj, text, below, oneLineChars_append]
    simp only [empty]
    split_ifs
    · rw [text]
    · rw [text]
    · rw [String.toList_append, String.toList_append, text, text, List.append_assoc]
      rfl
  · rw [← String.toList_inj, text, text, carriage, below, oneLineChars_carriage]

example : oneLine "  bad\r\n\n  input\r" = "bad input" := by decide +kernel

end SeqScript.Text
