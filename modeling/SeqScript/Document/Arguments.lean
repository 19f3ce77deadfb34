import SeqScript.Document.Error
import SeqScript.Model.Argument

/-!
# Arguments in a document

A list of arguments has items of four shapes: a bare string, number or boolean; a bare list, which
is a positional group; a positional `{type, value}`; and a named `{name, type, value}`.  A list is
all named or all positional, and its names are distinct.  Items are read in order, and each is
first read for itself and then checked against those before it (`Gathered.add`).
-/

namespace SeqScript.Document

open Checked

/-- The literal that a value is. -/
def literal? : Json → Option Literal
  | .string s => some (.string s)
  | .number n => some (.number n)
  | .bool b => some (.boolean b)
  | _ => none

/-- The items read so far, the last one first. -/
structure Gathered where
  positional : List Argument := []
  named : List (String × Argument) := []

namespace Gathered

/-- Appends an item, with its name if it has one. -/
def add (g : Gathered) : Option String × Argument → Checked Gathered
  | (none, a) =>
    if g.named.isEmpty then .ok { g with positional := a :: g.positional } else fail .mixedArguments
  | (some name, a) =>
    if g.named.any (·.1 == name) then (fail (.duplicateArgument name)).inField "name"
    else if g.positional.isEmpty then .ok { g with named := (name, a) :: g.named }
    else fail .mixedArguments

def arguments (g : Gathered) : Arguments :=
  if g.named.isEmpty then .positional g.positional.reverse else .named g.named.reverse

end Gathered

/-! ### Objects -/

/-- The keys of an argument that is written as an object. -/
def argumentKeys : List String := ["name", "type", "value"]

def checkKeys (ms : Members) : Checked Unit :=
  match ms.find? fun m => !argumentKeys.contains m.1 with
  | some (key, _) => fail (.argumentKey key)
  | none => .ok ()

def typeName (ms : Members) : Checked String :=
  match ms.get? "type" with
  | some (.string name) => .ok name
  | some _ => (fail .argumentTypeKind).inField "type"
  | none => (fail .argumentTypeMissing).inField "type"

def argumentValue (ms : Members) : Checked Json :=
  match ms.get? "value" with
  | some v => .ok v
  | none => (fail .argumentValueMissing).inField "value"

def argumentName (ms : Members) : Checked (Option String) :=
  match ms.get? "name" with
  | some (.string name) => .ok (some name)
  | some _ => (fail .argumentNameKind).inField "name"
  | none => .ok none

/-- The argument of a type that holds no other arguments. -/
def leafArgument? : ArgumentType → Json → Option Argument
  | .string, .string s => some (.literal (.string s))
  | .number, .number n => some (.literal (.number n))
  | .boolean, .bool b => some (.literal (.boolean b))
  | .symbol, .string s => some (.symbol s)
  | _, _ => none

/-- The argument of an object; `group?` is its value read as a list of arguments. -/
def typedArgument (ms : Members) (group? : Unit → Option (Checked Arguments)) :
    Checked Argument := do
  let name ← typeName ms
  let value ← argumentValue ms
  match ArgumentType.ofName? name with
  | none => (fail (.unknownArgumentType name)).inField "type"
  | some .group => match group? () with
    | some group => (group.inField "value").map .group
    | none => (fail (.argumentValue value name)).inField "value"
  | some type => match leafArgument? type value with
    | some a => .ok a
    | none => (fail (.argumentValue value name)).inField "value"

/-! ### Items -/

mutual

/-- Reads an item of a list of arguments, with its name if it has one. -/
def readItem : Json → Checked (Option String × Argument)
  | .object ms => do
    checkKeys ms
    let a ← typedArgument ms fun _ => readValueMember ms
    let name ← argumentName ms
    return (name, a)
  | .array items => do
    let g ← readItems 0 {} items
    return (none, .group g.arguments)
  | .string s => .ok (none, .literal (.string s))
  | .number n => .ok (none, .literal (.number n))
  | .bool b => .ok (none, .literal (.boolean b))
  | .null => fail .argumentShape

/-- Reads the items from index `i` on. -/
def readItems (i : Nat) (g : Gathered) : List Json → Checked Gathered
  | [] => .ok g
  | v :: vs => do
    let item ← (readItem v).atIndex i
    let g ← (g.add item).atIndex i
    readItems (i + 1) g vs

/-- Reads the first member named `value` as a list of arguments, if it is a list. -/
def readValueMember : List (String × Json) → Option (Checked Arguments)
  | [] => none
  | (key, v) :: ms => if key = "value" then readGroup? v else readValueMember ms

def readGroup? : Json → Option (Checked Arguments)
  | .array items => some ((readItems 0 {} items).map (·.arguments))
  | _ => none

end

/-- Reads a list of arguments. -/
def readArguments (items : List Json) : Checked Arguments :=
  (readItems 0 {} items).map (·.arguments)

end SeqScript.Document
