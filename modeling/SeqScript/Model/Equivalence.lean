import SeqScript.Model.Sequence

/-!
# Equivalence of sequences

Two sequences are equivalent when they differ only in the order of named arguments with different
names, in the form of empty collections of arguments, and in the sign of zeros.  Every value has a
canonical form, with named arguments sorted by name (arguments of one name keep their order), and
two values are equivalent exactly when their canonical forms are equal.
-/

namespace SeqScript

/-- The list with one more entry before the entries of its own and greater names. -/
def insertByName {α : Type} (entry : String × α) : List (String × α) → List (String × α)
  | [] => [entry]
  | e :: es => if e.1 < entry.1 then e :: insertByName entry es else entry :: e :: es

/-- The entries sorted by name; entries of one name keep their order. -/
def sortByName {α : Type} (entries : List (String × α)) : List (String × α) :=
  entries.foldr insertByName []

def Literal.canonical : Literal → Literal
  | .number n => .number n.canonical
  | l => l

mutual

def Argument.canonical : Argument → Argument
  | .literal value => .literal value.canonical
  | .symbol name => .symbol name
  | .group arguments => .group (Arguments.canonical arguments)

def Arguments.canonical : Arguments → Arguments
  | .positional items => .positional (Arguments.canonicalItems items)
  | .named [] => .positional []
  | .named (item :: items) => .named (sortByName (Arguments.canonicalNamed (item :: items)))

def Arguments.canonicalItems : List Argument → List Argument
  | [] => []
  | a :: as => Argument.canonical a :: Arguments.canonicalItems as

def Arguments.canonicalNamed : List (String × Argument) → List (String × Argument)
  | [] => []
  | (name, a) :: as => (name, Argument.canonical a) :: Arguments.canonicalNamed as

end

def AllowableRange.canonical (r : AllowableRange) : AllowableRange :=
  ⟨r.min.canonical, r.max.canonical⟩

def AllowableValue.canonical : AllowableValue → AllowableValue
  | .number n => .number n.canonical
  | v => v

def VariableOptions.canonical (o : VariableOptions) : VariableOptions :=
  { o with
    ranges := o.ranges.map (·.map (·.canonical))
    values := o.values.map (·.map (·.canonical)) }

def Variable.canonical (v : Variable) : Variable := { v with options := v.options.canonical }

def Annotations.canonical (a : Annotations) : Annotations :=
  { a with metadata := a.metadata.canonical }

def ModelAssignment.canonical (m : ModelAssignment) : ModelAssignment :=
  { m with value := m.value.canonical }

def SequenceCall.canonical (s : SequenceCall) : SequenceCall :=
  { s with
    arguments := s.arguments.canonical
    annotations := s.annotations.canonical
    models := s.models.map (·.canonical) }

def Step.canonical : Step → Step
  | .command c =>
    .command { c with arguments := c.arguments.canonical, annotations := c.annotations.canonical }
  | .groundEvent g =>
    .groundEvent
      { g with arguments := g.arguments.canonical, annotations := g.annotations.canonical }
  | .groundBlock g =>
    .groundBlock
      { g with arguments := g.arguments.canonical, annotations := g.annotations.canonical }
  | .activate s => .activate s.canonical
  | .load s => .load s.canonical

def HardwareCommand.canonical (c : HardwareCommand) : HardwareCommand :=
  { c with annotations := c.annotations.canonical }

def ImmediateCommand.canonical (c : ImmediateCommand) : ImmediateCommand :=
  { c with arguments := c.arguments.canonical, annotations := c.annotations.canonical }

def Request.canonical (r : Request) : Request :=
  { r with steps := r.steps.map (·.canonical), annotations := r.annotations.canonical }

def Sequence.canonical (s : Sequence) : Sequence where
  id := s.id
  metadata := s.metadata.canonical
  locals := s.locals.map (·.map (·.canonical))
  parameters := s.parameters.map (·.map (·.canonical))
  hardwareCommands := s.hardwareCommands.map (·.map (·.canonical))
  immediateCommands := s.immediateCommands.map (·.map (·.canonical))
  steps := s.steps.map (·.map (·.canonical))
  requests := s.requests.map (·.map (·.canonical))

def Arguments.equivalent (a b : Arguments) : Bool := a.canonical == b.canonical

def Sequence.equivalent (s t : Sequence) : Bool := s.canonical == t.canonical

end SeqScript
