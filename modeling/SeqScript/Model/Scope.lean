import SeqScript.Model.Variable

/-!
# Scopes

A scope is the two lists of declarations that a symbol is looked up in.  A local shadows a
parameter of the same name.
-/

namespace SeqScript

structure Scope where
  locals : List Variable := []
  parameters : List Variable := []

namespace Scope

/-- The scope in which every symbol is unknown. -/
def empty : Scope := {}

def declares (list : List Variable) (name : String) : Bool := list.any (·.name == name)

/-- The list that a symbol refers to, if either declares it. -/
def resolve? (s : Scope) (name : String) : Option VariableKind :=
  if declares s.locals name then some .locals
  else if declares s.parameters name then some .parameters
  else none

/-- The names declared in both lists, one for each such local. -/
def shadowed (s : Scope) : List String :=
  (s.locals.filter fun v => declares s.parameters v.name).map (·.name)

end Scope

end SeqScript
