import SeqScript.Json.Describe
import SeqScript.Json.Reader
import SeqScript.Options.Basic

/-!
# Reading render options

Options are written as a JSON object with the keys `legacy_error_comments` and `jobs`, or as a list
of the two values in that order; each may be left out.  The text is read straight into options, so
a fault of a value has the place where the value ends, a fault of a key the place up to which the
object was read, and a container where a scalar belongs the place before its bracket.
-/

namespace SeqScript.Options

open Json Json.Reading

/-- Why a text gives no options. -/
inductive Fault where
  | text (fault : TextFault)
  | notRecord (found : Json)
  | notBoolean (found : Json)
  | notCount (found : Json)
  | negativeCount (found : Number)
  | unknownField (name : String)
  | duplicateField (name : String)
  deriving DecidableEq

def legacyName : String := "legacy_error_comments"

def jobsName : String := "jobs"

def wrongKind (found : Json) (wanted : String) : String :=
  "invalid type: " ++ found.describe ++ ", expected " ++ wanted

def Fault.message : Fault → String
  | text fault => fault.message
  | notRecord found => wrongKind found "struct RenderOptions"
  | notBoolean found => wrongKind found "a boolean"
  | notCount found => wrongKind found "usize"
  | negativeCount found => "invalid value: " ++ found.describe ++ ", expected usize"
  | unknownField name =>
    "unknown field `" ++ name ++ "`, expected `" ++ legacyName ++ "` or `" ++ jobsName ++ "`"
  | duplicateField name => "duplicate field `" ++ name ++ "`"

/-- A value or the place of a fault. -/
abbrev Scan := Except (Stop Fault)

variable {α : Type}

/-- A reader of JSON text among readers of options. -/
def scan (x : Reading α) : Scan (α × List Char) :=
  x.mapError fun s => ⟨.text s.reason, s.rest, s.ahead⟩

/-- What `take` makes of a value that ends before `cs`. -/
def taken (take : Json → Except Fault α) (v : Json) (cs : List Char) : Scan (α × List Char) :=
  match take v with
  | .ok a => .ok (a, cs)
  | .error e => .error ⟨e, cs, 0⟩

/-- Reads a scalar that `take` accepts.  A container is refused before its bracket is read. -/
def readScalarAs (take : Json → Except Fault α) (cs : List Char) : Scan (α × List Char) :=
  match skipSpace cs with
  | '[' :: cs => taken take (.array []) ('[' :: cs)
  | '{' :: cs => taken take (.object []) ('{' :: cs)
  | cs => match scan (readScalar cs) with
    | .error stop => .error stop
    | .ok (v, cs) => taken take v cs

def takeBoolean : Json → Except Fault Bool
  | .bool b => .ok b
  | v => .error (.notBoolean v)

def takeCount : Json → Except Fault Nat
  | .number (.integer i lower upper) =>
    if 0 ≤ i then .ok i.toNat else .error (.negativeCount (.integer i lower upper))
  | v => .error (.notCount v)

def readBoolean : List Char → Scan (Bool × List Char) := readScalarAs takeBoolean

def readCount : List Char → Scan (Nat × List Char) := readScalarAs takeCount

/-! ### Objects -/

/-- The fields that were read so far. -/
structure Fields where
  legacyErrorComments : Option Bool := none
  jobs : Option Nat := none

/-- The options, with a default for each field that was not read. -/
def Fields.options (f : Fields) : Options :=
  { legacyErrorComments := f.legacyErrorComments.getD false, jobs := f.jobs.getD 1 }

/-- The rest of an object whose end is taken if it comes next. -/
def pastBrace (cs : List Char) : List Char :=
  match skipSpace cs with
  | '}' :: cs => cs
  | cs => cs

/-- Reads the value of a key. -/
def readField (f : Fields) (name : String) (cs : List Char) : Scan (Fields × List Char) :=
  if name = legacyName then
    if f.legacyErrorComments.isSome then .error ⟨.duplicateField name, pastBrace cs, 0⟩
    else do
      let (_, cs) ← scan (readColon cs)
      let (b, cs) ← readBoolean cs
      return ({ f with legacyErrorComments := some b }, cs)
  else if name = jobsName then
    if f.jobs.isSome then .error ⟨.duplicateField name, pastBrace cs, 0⟩
    else do
      let (_, cs) ← scan (readColon cs)
      let (n, cs) ← readCount cs
      return ({ f with jobs := some n }, cs)
  else .error ⟨.unknownField name, pastBrace cs, 0⟩

/-- Reads a key after its opening quote, and its value. -/
def readKeyed (f : Fields) (cs : List Char) : Scan (Fields × List Char) := do
  let (name, cs) ← scan (readString cs)
  readField f name cs

/-- Reads the members after one of them.  The first text bounds the one to be read. -/
def readMembersFrom : List Char → Fields → List Char → Scan (Fields × List Char)
  | [], _, _ => scan (stopBefore .endInObject [])
  | _ :: bound, f, cs =>
    match skipSpace cs with
    | [] => scan (stopBefore .endInObject [])
    | '}' :: cs => .ok (f, cs)
    | ',' :: cs => match skipSpace cs with
      | [] => scan (stopBefore .endInValue [])
      | '"' :: cs => match readKeyed f cs with
        | .error stop => .error stop
        | .ok (f, cs) => readMembersFrom bound f cs
      | '}' :: cs => scan (stopAt .trailingComma ('}' :: cs))
      | cs => scan (stopAt .keyNotString cs)
    | cs => scan (stopAt .expectedObjectCommaOrEnd cs)

/-- Reads an object after its opening brace. -/
def readObject (cs : List Char) : Scan (Fields × List Char) :=
  match skipSpace cs with
  | [] => scan (stopBefore .endInObject [])
  | '}' :: cs => .ok ({}, cs)
  | '"' :: cs => match readKeyed {} cs with
    | .error stop => .error stop
    | .ok (f, cs) => readMembersFrom cs f cs
  | cs => scan (stopAt .keyNotString cs)

/-! ### Lists -/

/-- Reads the end of a list that may have no more items. -/
def readListEnd (cs : List Char) : Scan (Unit × List Char) :=
  match skipSpace cs with
  | [] => scan (stopBefore .endInList [])
  | ']' :: cs => .ok ((), cs)
  | ',' :: cs => match skipSpace cs with
    | ']' :: cs => scan (stopAt .trailingComma (']' :: cs))
    | cs => scan (stopAt .trailingCharacters cs)
  | cs => scan (stopAt .trailingCharacters cs)

/-- Reads what follows the first item. -/
def readSecond (legacy : Bool) (cs : List Char) : Scan (Fields × List Char) :=
  match skipSpace cs with
  | [] => scan (stopBefore .endInList [])
  | ']' :: cs => .ok ({ legacyErrorComments := some legacy }, cs)
  | ',' :: cs => match skipSpace cs with
    | [] => scan (stopBefore .endInValue [])
    | ']' :: cs => scan (stopAt .trailingComma (']' :: cs))
    | cs => do
      let (n, cs) ← readCount cs
      let (_, cs) ← readListEnd cs
      return ({ legacyErrorComments := some legacy, jobs := some n }, cs)
  | cs => scan (stopAt .expectedListCommaOrEnd cs)

/-- Reads a list after its opening bracket. -/
def readList (cs : List Char) : Scan (Fields × List Char) :=
  match skipSpace cs with
  | [] => scan (stopBefore .endInList [])
  | ']' :: cs => .ok ({}, cs)
  | cs => do
    let (b, cs) ← readBoolean cs
    readSecond b cs

/-! ### Options -/

def readFields (cs : List Char) : Scan (Fields × List Char) :=
  match skipSpace cs with
  | '[' :: cs => readList cs
  | '{' :: cs => readObject cs
  | cs => readScalarAs (fun v => .error (.notRecord v)) cs

/-- Reads a text that is options and nothing else. -/
def readWhole (cs : List Char) : Except (Stop Fault) Options :=
  match readFields cs with
  | .error stop => .error stop
  | .ok (f, cs) => match scan (readEnd cs) with
    | .error stop => .error stop
    | .ok _ => .ok f.options

/-- Why options are refused. -/
inductive Error where
  | malformed (fault : Fault) (position : Position)
  | noJobs
  deriving DecidableEq

/-- What went wrong, from the outside in. -/
def Error.chain : Error → List String
  | malformed fault position => ["parsing render options", fault.message ++ position.suffix]
  | noJobs => ["jobs must be at least 1"]

def Error.message (e : Error) : String := String.intercalate ": " e.chain

/-- Reads render options. -/
def read (text : String) : Except Error Options :=
  match readWhole text.toList with
  | .error stop => .error (.malformed stop.reason (stop.position text.toList))
  | .ok o => if o.jobs = 0 then .error .noJobs else .ok o

end SeqScript.Options
