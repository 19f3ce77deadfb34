import Mathlib.Tactic.Common
import SeqScript.Text.Split

/-!
# Pieces and lines

A text that is put together around a separator has the pieces of its parts
(`pieces_append_cons`), and what has no separator is part of one piece.  No piece has a separator in
it, and together the pieces have all the other characters of the text (`flatMap_filter_pieces`).
-/

namespace SeqScript.Text

/-! ### Pieces -/

theorem pieces_cons (sep c : Char) (cs : List Char) : pieces sep (c :: cs) =
    if c = sep then [] :: pieces sep cs else (pieces sep cs).modifyHead (c :: ·) := by
  unfold pieces
  rw [splitFirst]
  split_ifs <;> rfl

theorem pieces_append_cons (sep : Char) (cs ds : List Char) :
    pieces sep (cs ++ sep :: ds) = pieces sep cs ++ pieces sep ds := by
  induction cs with
  | nil => rw [List.nil_append, pieces_cons, if_pos rfl]; rfl
  | cons c cs ih =>
    rw [List.cons_append, pieces_cons, pieces_cons, ih]
    by_cases h : c = sep
    · rw [if_pos h, if_pos h, List.cons_append]
    · rw [if_neg h, if_neg h]
      rfl

theorem pieces_eq_singleton {sep : Char} {cs : List Char} (h : sep ∉ cs) :
    pieces sep cs = [cs] := by
  induction cs with
  | nil => rfl
  | cons c cs ih =>
    rw [List.mem_cons, not_or] at h
    rw [pieces_cons, if_neg (Ne.symm h.1), ih h.2]
    rfl

/-- What has no separator is part of the last piece. -/
theorem exists_last_piece (sep : Char) (cs : List Char) : ∃ first last, ∀ ds, sep ∉ ds →
    pieces sep (cs ++ ds) = first ++ [last ++ ds] := by
  induction cs with
  | nil => exact ⟨[], [], fun ds h => pieces_eq_singleton h⟩
  | cons c cs ih =>
    obtain ⟨first, last, pieces_eq⟩ := ih
    by_cases h : c = sep
    · refine ⟨[] :: first, last, fun ds hds => ?_⟩
      rw [List.cons_append, pieces_cons, if_pos h, pieces_eq ds hds, List.cons_append]
    · rcases first with _ | ⟨piece, first⟩
      · refine ⟨[], c :: last, fun ds hds => ?_⟩
        rw [List.cons_append, pieces_cons, if_neg h, pieces_eq ds hds]
        rfl
      · refine ⟨(c :: piece) :: first, last, fun ds hds => ?_⟩
        rw [List.cons_append, pieces_cons, if_neg h, pieces_eq ds hds]
        rfl

theorem not_mem_of_mem_pieces {sep : Char} {cs piece : List Char} (h : piece ∈ pieces sep cs) :
    sep ∉ piece := by
  induction cs generalizing piece with
  | nil =>
    obtain rfl := List.mem_singleton.1 h
    exact List.not_mem_nil
  | cons c cs ih =>
    rw [pieces_cons] at h
    by_cases same : c = sep
    · rw [if_pos same, List.mem_cons] at h
      rcases h with rfl | h
      · exact List.not_mem_nil
      · exact ih h
    · obtain ⟨first, later, split⟩ : ∃ first later, pieces sep cs = first :: later := ⟨_, _, rfl⟩
      rw [split] at ih
      rw [if_neg same, split, List.modifyHead_cons, List.mem_cons] at h
      rcases h with rfl | h
      · rw [List.mem_cons, not_or]
        exact ⟨Ne.symm same, ih (List.mem_cons_self ..)⟩
      · exact ih (List.mem_cons_of_mem _ h)

/-- The pieces have all characters of the text but the separators, in their order. -/
theorem flatMap_filter_pieces {sep : Char} {k : Char → Bool} (h : k sep = false) (cs : List Char) :
    (pieces sep cs).flatMap (·.filter k) = cs.filter k := by
  induction cs with
  | nil => rfl
  | cons c cs ih =>
    rw [pieces_cons]
    by_cases same : c = sep
    · rw [if_pos same, List.flatMap_cons, ih, same, List.filter_cons_of_neg (by simp [h])]
      rfl
    · obtain ⟨first, later, split⟩ : ∃ first later, pieces sep cs = first :: later := ⟨_, _, rfl⟩
      rw [split, List.flatMap_cons] at ih
      rw [if_neg same, split, List.modifyHead_cons, List.flatMap_cons, List.filter_cons,
        List.filter_cons, ← ih]
      split_ifs <;> rfl

/-! ### Lines -/

theorem lines_append_newline (s t : String) : lines (s ++ ("\n" ++ t)) = lines s ++ lines t := by
  have text : (s ++ ("\n" ++ t)).toList = s.toList ++ '\n' :: t.toList := by
    rw [String.toList_append, String.toList_append]
    rfl
  rw [lines, text, pieces_append_cons, List.map_append, lines, lines]

/-- What has no line feed is part of the last line. -/
theorem exists_last_line (s : String) : ∃ first last, ∀ t : String, '\n' ∉ t.toList →
    lines (s ++ t) = first ++ [last ++ t] := by
  obtain ⟨first, last, pieces_eq⟩ := exists_last_piece '\n' s.toList
  refine ⟨first.map String.ofList, String.ofList last, fun t h => ?_⟩
  rw [lines, String.toList_append, pieces_eq t.toList h, List.map_append, List.map_singleton,
    String.ofList_append, String.ofList_toList]

end SeqScript.Text
