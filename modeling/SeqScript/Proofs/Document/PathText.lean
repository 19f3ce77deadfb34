import SeqScript.Document.Path
import SeqScript.Proofs.Number.Numeral
import SeqScript.Proofs.Text.Digit

/-!
# The texts of paths

A text is read as a path from its end: a point closes the name of a field, and an opening bracket
the digits of an index (`ofText`).  The text of a path is read back as the path (`ofText_text`)
when a point or an opening bracket stands in no name and the names are not empty.
-/

namespace SeqScript.Document

open Text

/-- A name that can be told from what surrounds it in the text of a path. -/
def isPlainName (name : String) : Bool :=
  !name.isEmpty && name.toList.all fun c => c != '.' && c != '['

def Segment.isPlain : Segment → Bool
  | .field name => isPlainName name
  | .index _ => true

namespace Path

def IsPlain (path : Path) : Prop := ∀ segment ∈ path, segment.isPlain

/-- Reads the characters of a path into those of the first name and the segments behind it. -/
def scan : List Char → List Char × Path
  | [] => ([], [])
  | c :: cs =>
    let (word, path) := scan cs
    match c with
    | '.' => ([], .field (String.ofList word) :: path)
    | '[' => ([], .index (digitsValue (word.takeWhile Char.isDigit)) :: path)
    | c => (c :: word, path)

def ofText (s : String) : Path :=
  match scan s.toList with
  | ([], path) => path
  | (word, path) => .field (String.ofList word) :: path

theorem scan_word {word cs : List Char} {path : Path} (plain : ∀ c ∈ word, c ≠ '.' ∧ c ≠ '[')
    (rest : scan cs = ([], path)) : scan (word ++ cs) = (word, path) := by
  induction word with
  | nil => exact rest
  | cons c word ih =>
    obtain ⟨⟨point, bracket⟩, plain⟩ := List.forall_mem_cons.1 plain
    simp only [List.cons_append, scan, ih plain]

theorem isPlainName_iff {name : String} :
    isPlainName name ↔ name.toList ≠ [] ∧ ∀ c ∈ name.toList, c ≠ '.' ∧ c ≠ '[' := by
  simp [isPlainName]

/-- The digits of an index and the closing bracket are no name. -/
theorem scan_index {cs : List Char} {path : Path} (i : Nat) (rest : scan cs = ([], path)) :
    scan ('[' :: (Nat.toDigits 10 i ++ ']' :: cs)) = ([], .index i :: path) := by
  have digits : ∀ c ∈ Nat.toDigits 10 i, c.isDigit := (isDigits_toDigits i).2
  have word : scan ((Nat.toDigits 10 i ++ [']']) ++ cs) = (Nat.toDigits 10 i ++ [']'], path) := by
    refine scan_word (fun c mem => ?_) rest
    rcases List.mem_append.1 mem with mem | mem
    · constructor <;> rintro rfl <;> exact absurd (digits _ mem) (by decide)
    · obtain rfl := List.mem_singleton.1 mem
      decide
  rw [List.append_assoc, List.singleton_append] at word
  simp only [scan, word]
  have bracket : ∀ c ∈ [']'].head?, c.isDigit = false := fun c mem => Option.some.inj mem ▸ rfl
  rw [takeWhile_run digits bracket, digitsValue_toDigits]

theorem scan_continuation {path : Path} (plain : path.IsPlain) :
    scan path.continuation.toList = ([], path) := by
  induction path with
  | nil => rfl
  | cons segment path ih =>
    obtain ⟨first, rest⟩ := List.forall_mem_cons.1 plain
    cases segment with
    | field name =>
      have word := scan_word (isPlainName_iff.1 first).2 (ih rest)
      simp [continuation, scan, word]
    | index i =>
      have index := scan_index i (ih rest)
      simpa [continuation] using index

theorem ofText_text {path : Path} (plain : path.IsPlain) : ofText path.text = path := by
  rcases path with _ | ⟨name | i, path⟩
  · rfl
  · obtain ⟨first, rest⟩ := List.forall_mem_cons.1 plain
    obtain ⟨nonempty, letters⟩ := isPlainName_iff.1 first
    have word := scan_word letters (scan_continuation rest)
    rw [ofText, text, String.toList_append, word]
    obtain ⟨c, cs, same⟩ := List.exists_cons_of_ne_nil nonempty
    rw [same, ← same]
    simp
  · rw [ofText, text, scan_continuation plain]
    nofun

end Path

end SeqScript.Document
