import SeqScript.Text.Blank
import SeqScript.Text.Split

/-!
# One-line messages

A message is shown on one line: its lines are trimmed, the empty ones dropped, and the others
joined by single spaces.
-/

namespace SeqScript.Text

/-- The pieces with a single space between neighbours. -/
def joinSpaced : List (List Char) → List Char
  | [] => []
  | [l] => l
  | l :: ls => l ++ ' ' :: joinSpaced ls

def oneLineChars (cs : List Char) : List Char :=
  joinSpaced (((pieces '\n' cs).map trim).filter (!·.isEmpty))

/-- The text on one line. -/
def oneLine (s : String) : String := String.ofList (oneLineChars s.toList)

end SeqScript.Text
