/-!
# Malformed JSON text

A reader that stops says why and how far it had read: the characters it had not taken yet, and how
many bytes of those it had already looked at (`Stop`).  The position of a fault counts lines, and
bytes since the last line feed (`Position`).
-/

namespace SeqScript.Json

/-- Why a text is no JSON value. -/
inductive TextFault where
  | endInValue
  | endInList
  | endInObject
  | endInString
  | expectedColon
  | expectedListCommaOrEnd
  | expectedObjectCommaOrEnd
  | expectedWord
  | expectedValue
  | invalidEscape
  | invalidNumber
  | numberOutOfRange
  | controlCharacter
  | keyNotString
  | loneSurrogate
  | endOfHexEscape
  | trailingComma
  | trailingCharacters
  | nestedTooDeep
  deriving DecidableEq

def TextFault.message : TextFault → String
  | endInValue => "EOF while parsing a value"
  | endInList => "EOF while parsing a list"
  | endInObject => "EOF while parsing an object"
  | endInString => "EOF while parsing a string"
  | expectedColon => "expected `:`"
  | expectedListCommaOrEnd => "expected `,` or `]`"
  | expectedObjectCommaOrEnd => "expected `,` or `\x7d`"
  | expectedWord => "expected ident"
  | expectedValue => "expected value"
  | invalidEscape => "invalid escape"
  | invalidNumber => "invalid number"
  | numberOutOfRange => "number out of range"
  | controlCharacter => "control character (\\u0000-\\u001F) found while parsing a string"
  | keyNotString => "key must be a string"
  | loneSurrogate => "lone leading surrogate in hex escape"
  | endOfHexEscape => "unexpected end of hex escape"
  | trailingComma => "trailing comma"
  | trailingCharacters => "trailing characters"
  | nestedTooDeep => "recursion limit exceeded"

/-- Where a reader stopped for a reason: `rest` was not taken, `ahead` bytes of it were seen. -/
structure Stop (ε : Type) where
  reason : ε
  rest : List Char
  ahead : Nat
  deriving DecidableEq

/-- A place in a text: lines count from 1, and the column is the number of bytes in the line. -/
structure Position where
  line : Nat
  column : Nat
  deriving DecidableEq

namespace Position

def start : Position := ⟨1, 0⟩

/-- The place `n` bytes further on in a text, or its end. -/
def advance (p : Position) : Nat → List Char → Position
  | _, [] => p
  | n, c :: cs =>
    if c.utf8Size ≤ n then
      let next : Position :=
        if c = '\n' then ⟨p.line + 1, 0⟩ else ⟨p.line, p.column + c.utf8Size⟩
      advance next (n - c.utf8Size) cs
    else ⟨p.line, p.column + n⟩

/-- What a message says after the fault. -/
def suffix (p : Position) : String :=
  " at line " ++ toString p.line ++ " column " ++ toString p.column

end Position

/-- The number of bytes a text takes. -/
def byteCount : List Char → Nat
  | [] => 0
  | c :: cs => c.utf8Size + byteCount cs

/-- The place of a stop in the text that was read. -/
def Stop.position {ε : Type} (s : Stop ε) (text : List Char) : Position :=
  .advance .start (byteCount text - byteCount s.rest + s.ahead) text

end SeqScript.Json
