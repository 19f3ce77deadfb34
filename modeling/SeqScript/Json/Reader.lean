import SeqScript.Json.Error
import SeqScript.Json.Value
import SeqScript.Text.Digit

/-!
# Reading JSON text

Every reader takes characters from the front and gives back the rest, or stops (`Reading`).  A
value may nest arrays and objects as deep as `nestingLimit`; the reader of a value recurses on the
depth that is left, and the loops over items and members on a text that bounds the rest: each round
takes at least a comma.

A number without fraction and exponent that fits 64 bits is an integer.  Any other is a double: its
digits are gathered while they fit an unsigned 64-bit word, the others dropped, and the word is
scaled by one power of ten (`Binary64.scaleByTen`).
-/

namespace SeqScript.Json

open Text (digitValue)

/-- A reader's answer: a value and the rest of the text, or the place where it stopped. -/
abbrev Reading (α : Type) := Except (Stop TextFault) (α × List Char)

/-- The arrays and objects that may contain one another. -/
def nestingLimit : Nat := 127

namespace Reading

variable {α : Type}

/-- Stops before `rest`. -/
def stopBefore (fault : TextFault) (rest : List Char) : Reading α := .error ⟨fault, rest, 0⟩

/-- Stops at the next character, if there is one. -/
def stopAt (fault : TextFault) (rest : List Char) : Reading α := .error ⟨fault, rest, 1⟩

end Reading

open Reading

def isSpace (c : Char) : Bool := c == ' ' || c == '\t' || c == '\n' || c == '\r'

def skipSpace (cs : List Char) : List Char := cs.dropWhile isSpace

/-- Reads the letters of a word that is left once its first letter decided for it. -/
def readWord : List Char → List Char → Reading Unit
  | [], cs => .ok ((), cs)
  | _ :: _, [] => stopBefore .endInValue []
  | w :: ws, c :: cs => if c = w then readWord ws cs else stopAt .expectedWord (c :: cs)

/-! ### Strings -/

def hexValue? (c : Char) : Option Nat :=
  if c.isDigit then some (c.toNat - '0'.toNat)
  else if 'a' ≤ c ∧ c ≤ 'f' then some (c.toNat - 'a'.toNat + 10)
  else if 'A' ≤ c ∧ c ≤ 'F' then some (c.toNat - 'A'.toNat + 10)
  else none

def hexWord? (a b c d : Char) : Option Nat := do
  let a ← hexValue? a
  let b ← hexValue? b
  let c ← hexValue? c
  let d ← hexValue? d
  return ((a * 16 + b) * 16 + c) * 16 + d

/-- Stops in the four digits of an escape, of which at least one is wrong or missing. -/
def stopInHex {α : Type} (cs : List Char) : Reading α :=
  if byteCount cs < 4 then stopBefore .endInString [] else .error ⟨.invalidEscape, cs, 4⟩

def isLeadSurrogate (n : Nat) : Bool := 0xd800 ≤ n && n < 0xdc00

def isTrailSurrogate (n : Nat) : Bool := 0xdc00 ≤ n && n < 0xe000

/-- The character of a surrogate pair. -/
def pairedChar (lead trail : Nat) : Char :=
  Char.ofNat (0x10000 + (lead - 0xd800) * 0x400 + (trail - 0xdc00))

/-- The character that a one-letter escape stands for. -/
def shortEscape? : Char → Option Char
  | '"' => some '"'
  | '\\' => some '\\'
  | '/' => some '/'
  | 'b' => some '\x08'
  | 'f' => some '\x0c'
  | 'n' => some '\n'
  | 'r' => some '\r'
  | 't' => some '\t'
  | _ => none

/-- Reads a string after its opening quote, with the characters before this point in reverse. -/
def readStringFrom (seen : List Char) : List Char → Reading String
  | [] => stopBefore .endInString []
  | '"' :: cs => .ok (String.ofList seen.reverse, cs)
  | '\\' :: 'u' :: a :: b :: c :: d :: cs =>
    match hexWord? a b c d with
    | none => stopInHex (a :: b :: c :: d :: cs)
    | some n =>
      if isTrailSurrogate n then stopBefore .loneSurrogate cs
      else if isLeadSurrogate n then
        match cs with
        | [] => stopBefore .endInString []
        | '\\' :: 'u' :: e :: f :: g :: h :: cs =>
          match hexWord? e f g h with
          | none => stopInHex (e :: f :: g :: h :: cs)
          | some m =>
            if isTrailSurrogate m then readStringFrom (pairedChar n m :: seen) cs
            else stopBefore .loneSurrogate cs
        | '\\' :: 'u' :: cs => stopInHex cs
        | ['\\'] => stopBefore .endInString []
        | '\\' :: cs => stopAt .endOfHexEscape cs
        | cs => stopAt .endOfHexEscape cs
      else readStringFrom (Char.ofNat n :: seen) cs
  | '\\' :: 'u' :: cs => stopInHex cs
  | ['\\'] => stopBefore .endInString []
  | '\\' :: c :: cs =>
    match shortEscape? c with
    | none => stopAt .invalidEscape (c :: cs)
    | some e => readStringFrom (e :: seen) cs
  | c :: cs =>
    if c.toNat < 0x20 then stopAt .controlCharacter (c :: cs) else readStringFrom (c :: seen) cs

/-- Reads a string after its opening quote. -/
def readString (cs : List Char) : Reading String := readStringFrom [] cs

/-! ### Numbers -/

/-- The greatest significand. -/
def wordLimit : Nat := 0xffffffffffffffff

/-- The greatest written exponent. -/
def exponentLimit : Nat := 0x7fffffff

/-- Appends digits to a significand while it fits a word, and gives those that were not taken. -/
def gather : Nat → List Char → Nat × List Char
  | n, [] => (n, [])
  | n, c :: cs =>
    let next := 10 * n + digitValue c
    if next ≤ wordLimit then gather next cs else (n, c :: cs)

/-- A rounded magnitude with its sign, if there is one; `cs` is the text after it. -/
def signed (negative : Bool) (cs : List Char) : Option Binary64 → Reading Number
  | some x => .ok (.real (x.withSign negative), cs)
  | none => stopBefore .numberOutOfRange cs

/-- A double from its sign, significand and exponent of ten; `cs` is the text after it. -/
def scaled (negative : Bool) (significand : Nat) (exponent : Int) (cs : List Char) :
    Reading Number :=
  signed negative cs (Binary64.ofNat? significand >>= (·.scaleByTen exponent))

/-- Reads the digits of an exponent after the first one.  A number that is out of range for its
exponent alone stops at the digit that makes it so. -/
def readExponentDigits (vast : Bool) (e : Nat) : List Char → Reading Nat
  | [] => .ok (e, [])
  | c :: cs =>
    if c.isDigit then
      let next := 10 * e + digitValue c
      if vast && exponentLimit < next then stopBefore .numberOutOfRange cs
      else readExponentDigits vast next cs
    else .ok (e, c :: cs)

/-- Reads an exponent after its sign. -/
def readSignedExponent (negative : Bool) (significand : Nat) (start : Int) (down : Bool) :
    List Char → Reading Number
  | [] => stopBefore .endInValue []
  | c :: cs =>
    if c.isDigit then
      match readExponentDigits (!down && significand != 0) (digitValue c) cs with
      | .error stop => .error stop
      | .ok (e, cs) => scaled negative significand (if down then start - e else start + e) cs
    else stopAt .invalidNumber (c :: cs)

/-- Reads an exponent after its letter. -/
def readExponent (negative : Bool) (significand : Nat) (start : Int) :
    List Char → Reading Number
  | '+' :: cs => readSignedExponent negative significand start false cs
  | '-' :: cs => readSignedExponent negative significand start true cs
  | cs => readSignedExponent negative significand start false cs

/-- Reads an exponent, if there is one. -/
def readScale (negative : Bool) (significand : Nat) (start : Int) : List Char → Reading Number
  | 'e' :: cs => readExponent negative significand start cs
  | 'E' :: cs => readExponent negative significand start cs
  | cs => scaled negative significand start cs

/-- Reads a fraction after its point. -/
def readFraction (negative : Bool) (significand : Nat) (start : Int) (cs : List Char) :
    Reading Number :=
  let ds := cs.takeWhile Char.isDigit
  let rest := cs.dropWhile Char.isDigit
  if ds.isEmpty then
    if rest.isEmpty then stopBefore .endInValue [] else stopAt .invalidNumber rest
  else
    let (n, dropped) := gather significand ds
    readScale negative n (start - (ds.length - dropped.length : Nat)) rest

/-- The number of a literal without fraction and exponent: an integer if it fits one, and a double
otherwise.  Minus zero is a double. -/
def integerNumber (negative : Bool) (n : Nat) (cs : List Char) : Reading Number :=
  match if negative && n == 0 then none else Number.ofInt? (if negative then -n else n) with
  | some i => .ok (i, cs)
  | none => scaled negative n 0 cs

/-- What follows the integer digits `ds` of a number. -/
def readAfterInteger (negative : Bool) (ds : List Char) (cs : List Char) : Reading Number :=
  let (n, dropped) := gather 0 ds
  match cs with
  | '.' :: cs => readFraction negative n dropped.length cs
  | 'e' :: cs => readExponent negative n dropped.length cs
  | 'E' :: cs => readExponent negative n dropped.length cs
  | cs =>
    if dropped.isEmpty then integerNumber negative n cs
    else scaled negative n dropped.length cs

/-- Reads a number after its sign. -/
def readNumber (negative : Bool) : List Char → Reading Number
  | [] => stopBefore .endInValue []
  | '0' :: cs =>
    if (cs.takeWhile Char.isDigit).isEmpty then readAfterInteger negative ['0'] cs
    else stopAt .invalidNumber cs
  | c :: cs =>
    if c.isDigit then
      readAfterInteger negative (c :: cs.takeWhile Char.isDigit) (cs.dropWhile Char.isDigit)
    else stopAt .invalidNumber (c :: cs)

/-! ### Containers -/

/-- Reads the items of a list after one of them.  The first text, of which each round drops a
character, is at least as long as the one to be read, which is empty when the first one is. -/
def readItems {α : Type} (item : List Char → Reading α) :
    List Char → List α → List Char → Reading (List α)
  | [], _, _ => stopBefore .endInList []
  | _ :: bound, seen, cs =>
    match skipSpace cs with
    | [] => stopBefore .endInList []
    | ']' :: cs => .ok (seen.reverse, cs)
    | ',' :: cs =>
      match skipSpace cs with
      | [] => stopBefore .endInValue []
      | ']' :: cs => stopAt .trailingComma (']' :: cs)
      | cs => match item cs with
        | .error stop => .error stop
        | .ok (v, cs) => readItems item bound (v :: seen) cs
    | cs => stopAt .expectedListCommaOrEnd cs

/-- Reads a list after its opening bracket. -/
def readList {α : Type} (item : List Char → Reading α) (cs : List Char) : Reading (List α) :=
  match skipSpace cs with
  | [] => stopBefore .endInList []
  | ']' :: cs => .ok ([], cs)
  | cs => match item cs with
    | .error stop => .error stop
    | .ok (v, cs) => readItems item cs [v] cs

/-- Reads the colon after a key. -/
def readColon (cs : List Char) : Reading Unit :=
  match skipSpace cs with
  | [] => stopBefore .endInObject []
  | ':' :: cs => .ok ((), cs)
  | cs => stopAt .expectedColon cs

/-- Reads a member after the opening quote of its key. -/
def readMember {α : Type} (value : List Char → Reading α) (cs : List Char) :
    Reading (String × α) :=
  match readString cs with
  | .error stop => .error stop
  | .ok (key, cs) => match readColon cs with
    | .error stop => .error stop
    | .ok (_, cs) => match value cs with
      | .error stop => .error stop
      | .ok (v, cs) => .ok ((key, v), cs)

/-- Reads the members of an object after one of them, bounded as `readItems` is. -/
def readMembers {α : Type} (value : List Char → Reading α) :
    List Char → List (String × α) → List Char → Reading (List (String × α))
  | [], _, _ => stopBefore .endInObject []
  | _ :: bound, seen, cs =>
    match skipSpace cs with
    | [] => stopBefore .endInObject []
    | '}' :: cs => .ok (seen.reverse, cs)
    | ',' :: cs =>
      match skipSpace cs with
      | [] => stopBefore .endInValue []
      | '"' :: cs => match readMember value cs with
        | .error stop => .error stop
        | .ok (m, cs) => readMembers value bound (m :: seen) cs
      | '}' :: cs => stopAt .trailingComma ('}' :: cs)
      | cs => stopAt .keyNotString cs
    | cs => stopAt .expectedObjectCommaOrEnd cs

/-- Reads the members of an object after its opening brace. -/
def readObject {α : Type} (value : List Char → Reading α) (cs : List Char) :
    Reading (List (String × α)) :=
  match skipSpace cs with
  | [] => stopBefore .endInObject []
  | '}' :: cs => .ok ([], cs)
  | '"' :: cs => match readMember value cs with
    | .error stop => .error stop
    | .ok (m, cs) => readMembers value cs [m] cs
  | cs => stopAt .keyNotString cs

/-! ### Values -/

/-- The value with its rest made a JSON value. -/
def wrap {α : Type} (f : α → Json) : Reading α → Reading Json
  | .ok (v, cs) => .ok (f v, cs)
  | .error stop => .error stop

/-- Reads a value that is no array and no object and has no blanks before it. -/
def readScalar : List Char → Reading Json
  | [] => stopBefore .endInValue []
  | 'n' :: cs => wrap (fun _ => null) (readWord ['u', 'l', 'l'] cs)
  | 't' :: cs => wrap (fun _ => bool true) (readWord ['r', 'u', 'e'] cs)
  | 'f' :: cs => wrap (fun _ => bool false) (readWord ['a', 'l', 's', 'e'] cs)
  | '"' :: cs => wrap string (readString cs)
  | '-' :: cs => wrap number (readNumber true cs)
  | c :: cs =>
    if c.isDigit then wrap number (readNumber false (c :: cs)) else stopAt .expectedValue (c :: cs)

/-- Reads a value in which arrays and objects may nest `depth` deep. -/
def readValue (depth : Nat) (cs : List Char) : Reading Json :=
  match skipSpace cs with
  | '[' :: cs => match depth with
    | 0 => stopAt .nestedTooDeep ('[' :: cs)
    | depth + 1 => wrap array (readList (readValue depth) cs)
  | '{' :: cs => match depth with
    | 0 => stopAt .nestedTooDeep ('{' :: cs)
    | depth + 1 => wrap (fun ms => object (Members.ofPairs ms)) (readObject (readValue depth) cs)
  | cs => readScalar cs

/-- Checks that only blanks are left. -/
def readEnd (cs : List Char) : Reading Unit :=
  match skipSpace cs with
  | [] => .ok ((), [])
  | cs => stopAt .trailingCharacters cs

/-- Reads a text that is one value, nested at most `depth` deep. -/
def readNested (depth : Nat) (cs : List Char) : Except (Stop TextFault) Json :=
  match readValue depth cs with
  | .error stop => .error stop
  | .ok (v, cs) => match readEnd cs with
    | .error stop => .error stop
    | .ok _ => .ok v

/-- A fault of a text and its place. -/
structure TextError where
  fault : TextFault
  position : Position
  deriving DecidableEq

def TextError.message (e : TextError) : String := e.fault.message ++ e.position.suffix

/-- Reads a text that is one JSON value. -/
def read (text : String) : Except TextError Json :=
  (readNested nestingLimit text.toList).mapError fun stop =>
    ⟨stop.reason, stop.position text.toList⟩

end SeqScript.Json
