import SeqScript.Number.Basic

/-!
# Variables

A variable is declared with a type, a name and optional constraints.  Its kind says which list
declares it and is unset until it is placed in one.
-/

namespace SeqScript

/-- The list that declares a variable. -/
inductive VariableKind where
  | locals
  | parameters
  deriving DecidableEq

/-- The path that references to a variable of the kind start with. -/
def VariableKind.listName : VariableKind → String
  | .locals => "locals"
  | .parameters => "parameters"

/-- The type of a variable; an enumeration carries its name. -/
inductive VariableType where
  | float
  | int
  | uint
  | string
  | enumeration (enumName : String)
  deriving DecidableEq

namespace VariableType

/-- The tag of an enumeration. -/
def enumTag : String := "ENUM"

def tag : VariableType → String
  | float => "FLOAT"
  | int => "INT"
  | uint => "UINT"
  | string => "STRING"
  | enumeration _ => enumTag

/-- The type of a tag; an enumeration needs its name. -/
def ofTag? (tag : String) : Option String → Option VariableType
  | some name => if tag = enumTag then some (enumeration name) else none
  | none => [float, int, uint, string].find? (·.tag == tag)

def enumName? : VariableType → Option String
  | enumeration name => some name
  | _ => none

theorem ofTag?_tag (t : VariableType) : ofTag? t.tag t.enumName? = some t := by
  cases t <;> rfl

end VariableType

structure AllowableRange where
  min : Number
  max : Number
  deriving DecidableEq

inductive AllowableValue where
  | number (value : Number)
  | string (value : String)
  deriving DecidableEq

/-- Constraints on the values of a variable, and its name on the spacecraft. -/
structure VariableOptions where
  ranges : Option (List AllowableRange) := none
  values : Option (List AllowableValue) := none
  scName : Option String := none
  deriving DecidableEq

structure Variable where
  kind : Option VariableKind := none
  type : VariableType
  name : String
  options : VariableOptions := {}
  deriving DecidableEq

def Variable.withKind (v : Variable) (kind : VariableKind) : Variable :=
  { v with kind := some kind }

end SeqScript
