import SeqScript.Text.Glyph

/-!
# Escaped text in messages

A message that quotes a text shows it between double quotes, with a backslash before quotes and
backslashes, short escapes for tab, carriage return, line feed and NUL, and the code point in
braces for every other character without a glyph of its own.
-/

namespace SeqScript.Text

def hexDigits (n : Nat) : List Char := Nat.toDigits 16 n

def escapedChar (c : Char) : List Char :=
  match c with
  | '\x00' => ['\\', '0']
  | '\t' => ['\\', 't']
  | '\r' => ['\\', 'r']
  | '\n' => ['\\', 'n']
  | '"' => ['\\', '"']
  | '\\' => ['\\', '\\']
  | c => if hasGlyph c then [c] else '\\' :: 'u' :: '{' :: (hexDigits c.toNat ++ ['}'])

/-- The text as a message quotes it. -/
def escaped (s : String) : String :=
  String.ofList ('"' :: (s.toList.flatMap escapedChar ++ ['"']))

end SeqScript.Text
