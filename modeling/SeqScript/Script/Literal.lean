import SeqScript.Number.Basic

/-!
# Script literals

A string stands between single quotes, with a backslash before quotes and backslashes and escapes
for line feed and carriage return; every other character stands for itself.  An object key is bare
when it is an identifier.  A whole double below `2 ^ 53` is written without a fraction.
-/

namespace SeqScript.Script

def escapeChar (c : Char) : List Char :=
  match c with
  | '\\' => ['\\', '\\']
  | '\'' => ['\\', '\'']
  | '\n' => ['\\', 'n']
  | '\r' => ['\\', 'r']
  | c => [c]

/-- A string literal. -/
def quote (s : String) : String := String.ofList ('\'' :: (s.toList.flatMap escapeChar ++ ['\'']))

/-! ### Keys -/

def isIdentifierStart (c : Char) : Bool := c.isAlpha || c == '_' || c == '$'

def isIdentifierRest (c : Char) : Bool := isIdentifierStart c || c.isDigit

/-- Letters, digits, `_` and `$`, of which a digit is not the first; ASCII only. -/
def isIdentifier (s : String) : Bool :=
  match s.toList with
  | [] => false
  | c :: cs => isIdentifierStart c && cs.all isIdentifierRest

/-- The key of a member of an object. -/
def key (name : String) : String := if isIdentifier name then name else quote name

/-! ### Numbers -/

/-- Below this magnitude every whole double is exact. -/
def wholeLimit : Nat := 2 * binadeSize

/-- The integer that a double is written as. -/
def wholeNumber? (x : Binary64) : Option Int :=
  x.toInt?.bind fun i => if i.natAbs < wholeLimit then some i else none

/-- A double, by the integer that it is written as if it is written as one. -/
def real (x : Binary64) : Option Int → String
  | some i => decimalText i
  | none => x.text

def number : Number → String
  | .real x => real x (wholeNumber? x)
  | n => n.text

end SeqScript.Script
