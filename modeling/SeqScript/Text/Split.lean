/-!
# Splitting a text

The pieces of a text between the occurrences of a separator; there is one more of them than of the
separator, so that `pieces` is never empty.
-/

namespace SeqScript.Text

/-- The piece before the first separator, and the pieces after it. -/
def splitFirst (sep : Char) : List Char → List Char × List (List Char)
  | [] => ([], [])
  | c :: cs =>
    let (piece, later) := splitFirst sep cs
    if c = sep then ([], piece :: later) else (c :: piece, later)

def pieces (sep : Char) (cs : List Char) : List (List Char) :=
  let (piece, later) := splitFirst sep cs
  piece :: later

/-- The lines of a text, without their line feeds. -/
def lines (s : String) : List String := (pieces '\n' s.toList).map String.ofList

theorem length_pieces (sep : Char) (cs : List Char) :
    (pieces sep cs).length = cs.count sep + 1 := by
  induction cs with
  | nil => rfl
  | cons c cs ih =>
    simp only [pieces, splitFirst, List.length_cons] at ih ⊢
    by_cases h : c = sep
    · simp [h, ih]
    · simpa [h] using ih

end SeqScript.Text
