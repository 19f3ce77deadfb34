import SeqScript.Number.Basic

/-!
# Arguments

An argument is a literal, the name of a declared variable, or a group of arguments; a collection of
arguments is positional or named throughout.  Named arguments keep the order they were given in,
and a name may occur more than once.
-/

namespace SeqScript

/-- A scalar value. -/
inductive Literal where
  | string (value : String)
  | number (value : Number)
  | boolean (value : Bool)
  deriving DecidableEq

mutual

inductive Argument where
  | literal (value : Literal)
  | symbol (name : String)
  | group (arguments : Arguments)

inductive Arguments where
  | positional (items : List Argument)
  | named (items : List (String × Argument))

end

/-- The kinds of argument that a document tells apart by name. -/
inductive ArgumentType where
  | string
  | number
  | boolean
  | symbol
  | group
  deriving DecidableEq

namespace ArgumentType

def name : ArgumentType → String
  | string => "string"
  | number => "number"
  | boolean => "boolean"
  | symbol => "symbol"
  | group => "repeat"

def all : List ArgumentType := [string, number, boolean, symbol, group]

def ofName? (name : String) : Option ArgumentType := all.find? (·.name == name)

theorem ofName?_name (t : ArgumentType) : ofName? t.name = some t := by
  cases t <;> decide

end ArgumentType

def Literal.type : Literal → ArgumentType
  | string _ => .string
  | number _ => .number
  | boolean _ => .boolean

def Argument.type : Argument → ArgumentType
  | literal value => value.type
  | symbol _ => .symbol
  | group _ => .group

namespace Arguments

/-- No arguments. -/
def none : Arguments := positional []

instance : Inhabited Arguments := ⟨none⟩

def count : Arguments → Nat
  | positional items => items.length
  | named items => items.length

def isEmpty (a : Arguments) : Bool := a.count == 0

def isNamed : Arguments → Bool
  | positional _ => false
  | named _ => true

end Arguments

/-! ### Decidable equality -/

mutual

def Argument.eqv : Argument → Argument → Bool
  | .literal a, .literal b => a == b
  | .symbol a, .symbol b => a == b
  | .group a, .group b => Arguments.eqv a b
  | _, _ => false

def Arguments.eqv : Arguments → Arguments → Bool
  | .positional as, .positional bs => Arguments.eqvItems as bs
  | .named as, .named bs => Arguments.eqvNamed as bs
  | _, _ => false

def Arguments.eqvItems : List Argument → List Argument → Bool
  | [], [] => true
  | a :: as, b :: bs => Argument.eqv a b && Arguments.eqvItems as bs
  | _, _ => false

def Arguments.eqvNamed : List (String × Argument) → List (String × Argument) → Bool
  | [], [] => true
  | (m, a) :: as, (n, b) :: bs => m == n && Argument.eqv a b && Arguments.eqvNamed as bs
  | _, _ => false

end

mutual

theorem Argument.eqv_iff : ∀ a b : Argument, Argument.eqv a b = true ↔ a = b
  | .literal _, b => by cases b <;> simp [Argument.eqv]
  | .symbol _, b => by cases b <;> simp [Argument.eqv]
  | .group a, b => by cases b <;> simp [Argument.eqv, Arguments.eqv_iff a]

theorem Arguments.eqv_iff : ∀ a b : Arguments, Arguments.eqv a b = true ↔ a = b
  | .positional as, b => by cases b <;> simp [Arguments.eqv, Arguments.eqvItems_iff as]
  | .named as, b => by cases b <;> simp [Arguments.eqv, Arguments.eqvNamed_iff as]

theorem Arguments.eqvItems_iff :
    ∀ as bs : List Argument, Arguments.eqvItems as bs = true ↔ as = bs
  | [], bs => by cases bs <;> simp [Arguments.eqvItems]
  | a :: as, bs => by
    cases bs <;> simp [Arguments.eqvItems, Argument.eqv_iff a, Arguments.eqvItems_iff as]

theorem Arguments.eqvNamed_iff :
    ∀ as bs : List (String × Argument), Arguments.eqvNamed as bs = true ↔ as = bs
  | [], bs => by cases bs <;> simp [Arguments.eqvNamed]
  | (m, a) :: as, bs => by
    rcases bs with _ | ⟨⟨n, b⟩, bs⟩ <;>
      simp [Arguments.eqvNamed, Argument.eqv_iff a, Arguments.eqvNamed_iff as]

end

instance : DecidableEq Argument := fun a b => decidable_of_iff _ (Argument.eqv_iff a b)

instance : DecidableEq Arguments := fun a b => decidable_of_iff _ (Arguments.eqv_iff a b)

end SeqScript
