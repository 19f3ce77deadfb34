import SeqScript.Json.Describe
import SeqScript.Model.Step

/-!
# Values of the wrong shape

A value does not have the shape of its place in a document when it is of the wrong kind, lacks a
field, or lists the fields of a record in the wrong number (`Mismatch`).
-/

namespace SeqScript.Document

/-- The shape that a value was wanted in. -/
inductive Wanted where
  | text
  | list
  | map
  | engine
  | number
  | record (name : String)
  | step
  | stepTag
  deriving DecidableEq

def Wanted.describe : Wanted → String
  | text => "a string"
  | list => "a sequence"
  | map => "a map"
  | engine => "i64"
  | number => "a JSON number"
  | record name => "struct " ++ name
  | step => "internally tagged enum RawStep"
  | stepTag => "variant identifier"

/-- Why a value does not have its shape. -/
inductive Mismatch where
  | wrongKind (found : Json) (wanted : Wanted)
  | outOfRange (found : Number) (wanted : Wanted)
  | missingField (name : String)
  /-- Too few fields in a list of them. -/
  | tooShort (length : Nat) (record : String) (fields : Nat)
  /-- Too many fields in a list of them. -/
  | tooLong (length : Nat)
  /-- Too many fields in a list of them that is part of a step. -/
  | tooLongInStep (length fields : Nat)
  | unknownStep (tag : String)
  | noAllowableValue
  deriving DecidableEq

/-- A count of elements in words. -/
def elementCount (n : Nat) : String :=
  toString n ++ (if n = 1 then " element" else " elements")

def Mismatch.message : Mismatch → String
  | wrongKind found wanted => "invalid type: " ++ found.describe ++ ", expected " ++ wanted.describe
  | outOfRange found wanted =>
    "invalid value: " ++ found.describe ++ ", expected " ++ wanted.describe
  | missingField name => "missing field `" ++ name ++ "`"
  | tooShort length record fields =>
    "invalid length " ++ toString length ++ ", expected struct " ++ record ++ " with " ++
      elementCount fields
  | tooLong length => "invalid length " ++ toString length ++ ", expected fewer elements in array"
  | tooLongInStep length fields =>
    "invalid length " ++ toString length ++ ", expected " ++ elementCount fields ++ " in sequence"
  | unknownStep tag =>
    "unknown variant `" ++ tag ++ "`, expected one of " ++
      String.intercalate ", " (StepType.all.map fun t => "`" ++ t.name ++ "`")
  | noAllowableValue => "data did not match any variant of untagged enum AllowableValue"

end SeqScript.Document
