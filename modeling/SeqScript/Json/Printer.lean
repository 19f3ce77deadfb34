import SeqScript.Json.Value

/-!
# JSON text

Compact text has no blanks; spread text puts every member on a line of its own, indented by two
spaces for each level.  In strings only the quote, the backslash and the characters below the
space are escaped.
-/

namespace SeqScript.Json

/-- A hexadecimal digit in lower case. -/
def hexDigit (n : Nat) : Char := Nat.digitChar n

def escapeChar (c : Char) : List Char :=
  match c with
  | '"' => ['\\', '"']
  | '\\' => ['\\', '\\']
  | '\x08' => ['\\', 'b']
  | '\x0c' => ['\\', 'f']
  | '\n' => ['\\', 'n']
  | '\r' => ['\\', 'r']
  | '\t' => ['\\', 't']
  | c =>
    if c.toNat < 0x20 then
      ['\\', 'u', '0', '0', hexDigit (c.toNat / 16), hexDigit (c.toNat % 16)]
    else [c]

def stringText (s : String) : String :=
  String.ofList ('"' :: (s.toList.flatMap escapeChar ++ ['"']))

/-- How the members of a container are set apart. -/
structure Spacing where
  /-- What stands before a member at a level, or before the bracket that closes a container at
  it. -/
  gap : Nat → String
  colon : String

def Spacing.compact : Spacing := ⟨fun _ => "", ":"⟩

def Spacing.spread : Spacing :=
  ⟨fun level => "\n" ++ String.join (List.replicate level "  "), ": "⟩

mutual

/-- The text of a value whose first line starts at a level. -/
def textWith (s : Spacing) (level : Nat) : Json → String
  | null => "null"
  | bool b => if b then "true" else "false"
  | number n => n.text
  | string v => stringText v
  | array [] => "[]"
  | array (v :: vs) =>
    "[" ++ s.gap (level + 1) ++ textWith s (level + 1) v ++ itemsText s level vs ++
      s.gap level ++ "]"
  | object [] => "\x7b\x7d"
  | object ((k, v) :: ms) =>
    "\x7b" ++ s.gap (level + 1) ++ stringText k ++ s.colon ++ textWith s (level + 1) v ++
      membersText s level ms ++ s.gap level ++ "\x7d"

def itemsText (s : Spacing) (level : Nat) : List Json → String
  | [] => ""
  | v :: vs => "," ++ s.gap (level + 1) ++ textWith s (level + 1) v ++ itemsText s level vs

def membersText (s : Spacing) (level : Nat) : List (String × Json) → String
  | [] => ""
  | (k, v) :: ms =>
    "," ++ s.gap (level + 1) ++ stringText k ++ s.colon ++ textWith s (level + 1) v ++
      membersText s level ms

end

def compact (v : Json) : String := textWith .compact 0 v

def spread (v : Json) : String := textWith .spread 0 v

end SeqScript.Json
