import SeqScript.Document.Writer
import SeqScript.Script.Layout
import SeqScript.Time.Text
import SeqScript.Warning

/-!
# Rendering sequences

A sequence is rendered as one script.  `level` is the nesting depth of the line that a construct
starts on; its first line is left to the caller to indent and the others are indented from there.
Rendering never fails: a symbol that the scope does not declare is written under `unknown`, with a
diagnostic at the end of its line, and is logged in the order of its place in the script.
-/

namespace SeqScript.Script

/-- What a renderer looks symbols up in, and how it writes diagnostics. -/
structure Context where
  scope : Scope := .empty
  options : Options := {}

/-! ### Literals -/

def literal : Literal → String
  | .string s => quote s
  | .number n => number n
  | .boolean b => if b then "true" else "false"

/-- What a step is called on. -/
def timing : Timing → String
  | .absolute t => "A`" ++ t.text ++ "`"
  | .relative d => "R`" ++ d.text ++ "`"
  | .epoch d => "E`" ++ d.text ++ "`"
  | .commandComplete => "C"

/-! ### Arguments -/

namespace Context

/-- A symbol as a path into the list that declares it. -/
def symbol (c : Context) (name : String) : Logged Fragment :=
  match c.scope.resolve? name with
  | some kind => pure (.plain (kind.listName ++ "." ++ name))
  | none => do
    Logged.log (.undefined name)
    return .degraded ("unknown." ++ name) ("ERROR: " ++ Warning.undefinedMessage name)

mutual

def argument (c : Context) (level : Nat) : Argument → Logged Fragment
  | .literal l => pure (.plain (literal l))
  | .symbol name => c.symbol name
  | .group a => do return .plain (← c.arguments level a)

/-- Arguments as a list or an object. -/
def arguments (c : Context) (level : Nat) : Arguments → Logged String
  | .positional items => do return array c.options level (← c.positional (level + 1) items)
  | .named items => do return object c.options level (← c.named (level + 1) items)

def positional (c : Context) (level : Nat) : List Argument → Logged (List Fragment)
  | [] => pure []
  | a :: as => do
    let f ← c.argument level a
    let fs ← c.positional level as
    return f :: fs

def named (c : Context) (level : Nat) :
    List (String × Argument) → Logged (List (String × Fragment))
  | [] => pure []
  | (name, a) :: as => do
    let f ← c.argument level a
    let fs ← c.named level as
    return (name, f) :: fs

end

/-- The arguments of a call, or nothing where there are none. -/
def callArguments (c : Context) (level : Nat) (a : Arguments) : Logged String :=
  if a.isEmpty then pure "" else do return "(" ++ (← c.arguments level a) ++ ")"

/-- An argument as an object of its name, type and value. -/
def typedArgument (c : Context) (level : Nat) (name : Option String) (a : Argument) :
    Logged Fragment := do
  let value ← c.argument (level + 1) a
  let named := name.toList.map fun n => ("name", Fragment.plain (quote n))
  return .plain (object c.options level
    (named ++ [("type", .plain (quote a.type.name)), ("value", value)]))

def typedArguments (c : Context) (level : Nat) : Arguments → Logged (List Fragment)
  | .positional items => Logged.each (c.typedArgument level none) items
  | .named items => Logged.each (fun (name, a) => c.typedArgument level (some name) a) items

end Context

/-! ### Attributes -/

/-- A chained call, by its name and what is between its parentheses. -/
abbrev Attribute := String × String

/-- The attributes of a construct are put in one after another, and listed by name. -/
abbrev Attributes := Keyed String

/-- The head of a construct and its attributes, each on a line of its own. -/
def chain (level : Nat) (head : String) (attributes : Attributes) : String :=
  head ++ String.join (attributes.map fun (name, value) =>
    "\n" ++ pad level ++ "." ++ name ++ "(" ++ value ++ ")")

/-- A description that is there and not empty. -/
def shownDescription (a : Annotations) : Option String := a.description.filter (!·.isEmpty)

def descriptionAttribute (a : Annotations) : List Attribute :=
  (shownDescription a).toList.map fun d => ("DESCRIPTION", quote d)

def metadataAttribute (level : Nat) (a : Annotations) : List Attribute :=
  if a.metadata.isEmpty then [] else [("METADATA", json level (.object a.metadata))]

def annotationAttributes (level : Nat) (a : Annotations) : Attributes :=
  Keyed.ofPairs (descriptionAttribute a ++ metadataAttribute level a)

def engineAttribute (engine : Option Int64) : List Attribute :=
  engine.toList.map fun e => ("ENGINE", decimalText e.toInt)

def epochAttribute (epoch : Option String) : List Attribute :=
  epoch.toList.map fun e => ("EPOCH", quote e)

/-- A model assignment as an object. -/
def model (o : Options) (level : Nat) (m : ModelAssignment) : String :=
  object o level [
    ("offset", .plain (quote m.offset.text)),
    ("value", .plain (literal m.value)),
    ("variable", .plain (quote m.variableName))]

def modelsAttribute (o : Options) (level : Nat) (models : List ModelAssignment) :
    List Attribute :=
  if models.isEmpty then []
  else [("MODELS", separated level (models.map (model o (level + 1))))]

namespace Context

/-! ### Declarations -/

/-- The constraints of a variable that are set. -/
def variableEntries (level : Nat) (o : VariableOptions) : List (String × Fragment) :=
  let ranges := o.ranges.toList.map fun rs =>
    ("allowable_ranges", Fragment.plain (json level (.array (rs.map Document.writeRange))))
  let values := o.values.toList.map fun vs =>
    ("allowable_values", Fragment.plain (json level (.array (vs.map Document.writeAllowable))))
  let scName := o.scName.toList.map fun s => ("sc_name", Fragment.plain (quote s))
  ranges ++ values ++ scName

/-- A declaration: its type called on its name, the name of its enumeration and its options. -/
def declaration (c : Context) (level : Nat) (v : Variable) : String :=
  let enumName := match v.type.enumName? with
    | some name => ", " ++ quote name
    | none => ""
  let entries := variableEntries (level + 1) v.options
  let options := if entries.isEmpty then "" else ", " ++ object c.options level entries
  v.type.tag ++ "(" ++ quote v.name ++ enumName ++ options ++ ")"

/-! ### Steps -/

def argumentsAttribute (c : Context) (level : Nat) (a : Arguments) : Logged (List Attribute) :=
  if a.isEmpty then pure []
  else do return [("ARGUMENTS", array c.options level (← c.typedArguments (level + 1) a))]

def sequenceCall (c : Context) (level : Nat) (verb : String) (s : SequenceCall) :
    Logged String := do
  let arguments ← c.argumentsAttribute (level + 1) s.arguments
  return chain (level + 1) (timing s.timing ++ "." ++ verb ++ "(" ++ quote s.sequence ++ ")")
    ((annotationAttributes (level + 1) s.annotations).insertAll
      (arguments ++ engineAttribute s.engine ++ epochAttribute s.epoch ++
        modelsAttribute c.options (level + 1) s.models))

def step (c : Context) (level : Nat) : Step → Logged String
  | .command x => do
    let arguments ← c.callArguments level x.arguments
    return chain (level + 1) (timing x.timing ++ "." ++ x.stem ++ arguments)
      (annotationAttributes (level + 1) x.annotations)
  | .groundEvent x => do
    let arguments ← c.argumentsAttribute (level + 1) x.arguments
    return chain (level + 1) (timing x.timing ++ ".GROUND_EVENT(" ++ quote x.name ++ ")")
      ((annotationAttributes (level + 1) x.annotations).insertAll arguments)
  | .groundBlock x => do
    let arguments ← c.argumentsAttribute (level + 1) x.arguments
    return chain (level + 1) ("C.GROUND_BLOCK(" ++ quote x.name ++ ")")
      ((annotationAttributes (level + 1) x.annotations).insertAll arguments)
  | .activate x => c.sequenceCall level "ACTIVATE" x
  | .load x => c.sequenceCall level "LOAD" x

/-- The attributes of a hardware command stand in the column of its stem. -/
def hardwareCommand (level : Nat) (x : HardwareCommand) : String :=
  chain level x.stem (annotationAttributes level x.annotations)

def immediateCommand (c : Context) (level : Nat) (x : ImmediateCommand) : Logged String := do
  let arguments ← c.callArguments level x.arguments
  return chain (level + 1) (x.stem ++ arguments) (annotationAttributes (level + 1) x.annotations)

/-! ### Requests -/

/-- Lines that are indented and end in a comma. -/
def commaEnded (level : Nat) (items : List String) : String :=
  String.join (items.map fun item => pad level ++ item ++ ",\n")

/-- A list of items at the next level, which may be empty. -/
def stepList (level : Nat) (items : List String) : String :=
  if items.isEmpty then "[]" else "[\n" ++ commaEnded (level + 1) items ++ pad level ++ "]"

/-- The members of a request in their fixed order, those that are empty left out. -/
def requestMembers (level : Nat) (r : Request) (steps : List String) : List String :=
  ["name: " ++ quote r.name, "steps: " ++ stepList level steps, "type: 'request'"] ++
    (shownDescription r.annotations).toList.map (fun d => "description: " ++ quote d) ++
    r.groundEpoch.toList.map (fun g =>
      "ground_epoch: " ++ json level (.object (Document.groundEpochMembers g))) ++
    if r.annotations.metadata.isEmpty then []
    else ["metadata: " ++ json level (.object r.annotations.metadata)]

def request (c : Context) (level : Nat) (r : Request) : Logged String := do
  let steps ← Logged.each (c.step (level + 2)) r.steps
  return "\x7b\n" ++ commaEnded (level + 1) (requestMembers (level + 1) r steps) ++
    pad level ++ "\x7d"

/-! ### Sequences -/

/-- The head of the function that gives the steps or requests of a sequence. -/
def stepsFunction : String := "(\x7b locals, parameters \x7d) => (["

/-- A line of the sequence's object, unless the list it shows is absent or empty. -/
def field {α : Type} (items : Option (List α)) (line : List α → Logged String) :
    Logged String :=
  match items with
  | none => pure ""
  | some [] => pure ""
  | some items => line items

def separatedField {α : Type} (name : String) (item : α → String) (items : List α) : String :=
  pad 2 ++ name ++ ": " ++ separated 2 (items.map item) ++ ",\n"

def sequence (c : Context) (s : Sequence) : Logged String := do
  let locals ← field s.locals fun vs => pure (separatedField "locals" (c.declaration 3) vs)
  let parameters ← field s.parameters fun vs =>
    pure (separatedField "parameters" (c.declaration 3) vs)
  let hardware ← field s.hardwareCommands fun xs =>
    pure (separatedField "hardware_commands" (hardwareCommand 3) xs)
  let immediate ← field s.immediateCommands fun xs => do
    let items ← Logged.each (c.immediateCommand 3) xs
    return pad 2 ++ "immediate_commands: [\n" ++ commaEnded 3 items ++ pad 2 ++ "],\n"
  let steps ← field s.steps fun xs => do
    let items ← Logged.each (c.step 3) xs
    return pad 2 ++ "steps: " ++ stepsFunction ++ "\n" ++ commaEnded 3 items ++ pad 2 ++ "]),\n"
  let requests ← field s.requests fun xs => do
    let items ← Logged.each (c.request 3) xs
    return pad 2 ++ "requests: " ++ stepsFunction ++ "\n" ++ commaLines 3 items ++ "\n" ++ pad 2 ++
      "]),\n"
  return "export default () =>\n  Sequence.new(\x7b\n" ++
    pad 2 ++ "seqId: " ++ quote s.id ++ ",\n" ++
    pad 2 ++ "metadata: " ++ json 2 (.object s.metadata) ++ ",\n" ++
    locals ++ parameters ++ hardware ++ immediate ++ steps ++ requests ++ "  \x7d);"

end Context

/-- The script of a sequence. -/
def render (s : Sequence) (o : Options) : Logged String := Context.sequence ⟨s.scope, o⟩ s

/-- The script of one step, whose symbols are looked up in a scope. -/
def renderStep (x : Step) (scope : Scope) (o : Options) : Logged String :=
  Context.step ⟨scope, o⟩ 0 x

end SeqScript.Script
