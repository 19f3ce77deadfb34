import SeqScript.Document.Mismatch
import SeqScript.Document.Path
import SeqScript.Json.Printer
import SeqScript.Json.Reader
import SeqScript.Model.Variable
import SeqScript.Time.Error

/-!
# Faults of a document

A document is refused at its first fault, with the path of the offending value and the id of the
document once that is known.
-/

namespace SeqScript.Document

/-- Why a document is refused. -/
inductive Fault where
  | text (error : Json.TextError)
  | shape (mismatch : Mismatch)
  | time (error : TimeError)
  | duplicateVariable (kind : VariableKind) (name : String)
  | enumNameMissing
  | enumNameNotAllowed (type : String)
  | unknownVariableType (type : String)
  | timeTagMissing (type : String)
  | unknownTimeType (type : String)
  | modelValue
  | requestType (found : String)
  | positionalImmediate
  | argumentShape
  | argumentKey (key : String)
  | argumentTypeMissing
  | argumentTypeKind
  | argumentValueMissing
  | argumentValue (value : Json) (type : String)
  | unknownArgumentType (type : String)
  | argumentNameKind
  | duplicateArgument (name : String)
  | mixedArguments
  deriving DecidableEq

/-- A text between single quotes, as it stands. -/
def inQuotes (s : String) : String := "'" ++ s ++ "'"

def Fault.message : Fault → String
  | text error => error.message
  | shape mismatch => mismatch.message
  | time error => error.message
  | duplicateVariable kind name => "duplicate " ++ kind.listName ++ " name " ++ inQuotes name
  | enumNameMissing => "ENUM variables require an enum_name"
  | enumNameNotAllowed type => "enum_name is only allowed on ENUM variables, not " ++ type
  | unknownVariableType type => "unknown variable type " ++ inQuotes type
  | timeTagMissing type => type ++ " time requires a tag"
  | unknownTimeType type => "unknown time type " ++ inQuotes type
  | modelValue => "model value must be a string, number or boolean"
  | requestType found => "expected type 'request', found " ++ inQuotes found
  | positionalImmediate => "immediate command arguments must be named"
  | argumentShape => "argument must be a literal or a \x7bname, type, value\x7d object"
  | argumentKey key =>
    "unexpected key " ++ inQuotes key ++ "; arguments are \x7bname, type, value\x7d"
  | argumentTypeMissing => "missing argument type"
  | argumentTypeKind => "type must be a string"
  | argumentValueMissing => "missing argument value"
  | argumentValue value type =>
    "value " ++ value.compact ++ " does not match argument type " ++ inQuotes type
  | unknownArgumentType type => "unknown argument type " ++ inQuotes type
  | argumentNameKind => "argument name must be a string"
  | duplicateArgument name => "duplicate argument name " ++ inQuotes name
  | mixedArguments => "cannot mix named and positional arguments"

/-- A fault and the path to it from the value that was being read. -/
structure Located where
  path : Path
  fault : Fault
  deriving DecidableEq

/-- A value read without a fault, or the first fault. -/
abbrev Checked (α : Type) := Except Located α

namespace Checked

variable {α : Type}

def fail (fault : Fault) : Checked α := .error ⟨[], fault⟩

/-- Tells a fault's path from one segment further up. -/
def under (segment : Segment) : Checked α → Checked α
  | .ok a => .ok a
  | .error e => .error ⟨segment :: e.path, e.fault⟩

def inField (name : String) (x : Checked α) : Checked α := x.under (.field name)

def atIndex (i : Nat) (x : Checked α) : Checked α := x.under (.index i)

end Checked

/-- A refused document. -/
structure ValidationError where
  /-- The id of the document, if it could be read. -/
  sequenceId : Option String
  path : Path
  fault : Fault
  deriving DecidableEq

namespace ValidationError

def message (e : ValidationError) : String := e.fault.message

/-- The error as a user sees it, with the document and the place. -/
def display (e : ValidationError) : String :=
  let place := if e.path.text.isEmpty then "<document>" else e.path.text
  let located := place ++ ": " ++ e.message
  match e.sequenceId with
  | some id => "sequence " ++ inQuotes id ++ ": " ++ located
  | none => located

end ValidationError

end SeqScript.Document
