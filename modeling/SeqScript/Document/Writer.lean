import SeqScript.Document.Reader
import SeqScript.Time.Text

/-!
# Writing documents

Every sequence has one document: its fields in the order of their names, each argument with its
type, and no field for what is absent.  A list of arguments, a description or metadata that is
empty is left out too, but for the arguments of a command and the metadata of a sequence, which are
always there.
-/

namespace SeqScript.Document

/-- The members that are present. -/
def present (ms : List (Option (String × Json))) : Members := ms.filterMap id

/-- A member that is always there. -/
def member (name : String) (value : Json) : Option (String × Json) := some (name, value)

def optionalText (name : String) (value : Option String) : Option (String × Json) :=
  value.map fun s => (name, .string s)

def optionalList {α : Type} (name : String) (write : α → Json) (items : Option (List α)) :
    Option (String × Json) :=
  items.map fun items => (name, .array (items.map write))

/-- The list in a field that is left out when it is empty. -/
def nonemptyList (name : String) (items : List Json) : Option (String × Json) :=
  if items.isEmpty then none else some (name, .array items)

def nonemptyMap (name : String) (members : Members) : Option (String × Json) :=
  if members.isEmpty then none else some (name, .object members)

/-! ### Arguments -/

def writeLiteral : Literal → Json
  | .string s => .string s
  | .number n => .number n
  | .boolean b => .bool b

mutual

/-- The value of an argument, without its type. -/
def writeArgument : Argument → Json
  | .literal l => writeLiteral l
  | .symbol name => .string name
  | .group a => .array (writeArguments a)

def writeArguments : Arguments → List Json
  | .positional items => writePositional items
  | .named items => writeNamed items

def writePositional : List Argument → List Json
  | [] => []
  | a :: as =>
    .object [("type", .string a.type.name), ("value", writeArgument a)] :: writePositional as

def writeNamed : List (String × Argument) → List Json
  | [] => []
  | (name, a) :: as =>
    .object [("name", .string name), ("type", .string a.type.name), ("value", writeArgument a)] ::
      writeNamed as

end

/-! ### Variables -/

def writeRange (r : AllowableRange) : Json :=
  .object [("max", .number r.max), ("min", .number r.min)]

def writeAllowable : AllowableValue → Json
  | .number n => .number n
  | .string s => .string s

def writeVariable (v : Variable) : Json :=
  .object (present [
    optionalList "allowable_ranges" writeRange v.options.ranges,
    optionalList "allowable_values" writeAllowable v.options.values,
    optionalText "enum_name" v.type.enumName?,
    member "name" (.string v.name),
    optionalText "sc_name" v.options.scName,
    member "type" (.string v.type.tag)])

/-! ### Steps -/

def timeObject (tag : Option String) (type : TimingType) : Json :=
  .object (present [optionalText "tag" tag, member "type" (.string type.name)])

def writeTiming : Timing → Json
  | .absolute t => timeObject (some t.text) .absolute
  | .relative d => timeObject (some d.text) .relative
  | .epoch d => timeObject (some d.text) .epoch
  | .commandComplete => timeObject none .commandComplete

def writeModel (m : ModelAssignment) : Json :=
  .object [("offset", .string m.offset.text), ("value", writeLiteral m.value),
    ("variable", .string m.variableName)]

def stepTag (type : StepType) : Option (String × Json) := member "type" (.string type.name)

def writeCall (type : StepType) (s : SequenceCall) : Json :=
  .object (present [
    nonemptyList "args" (writeArguments s.arguments),
    optionalText "description" s.annotations.description,
    s.engine.map fun e => ("engine", .number (.ofInt64 e)),
    optionalText "epoch" s.epoch,
    nonemptyMap "metadata" s.annotations.metadata,
    nonemptyList "models" (s.models.map writeModel),
    member "sequence" (.string s.sequence),
    member "time" (writeTiming s.timing),
    stepTag type])

def writeStep : Step → Json
  | .command c => .object (present [
      member "args" (.array (writeArguments c.arguments)),
      optionalText "description" c.annotations.description,
      nonemptyMap "metadata" c.annotations.metadata,
      member "stem" (.string c.stem),
      member "time" (writeTiming c.timing),
      stepTag .command])
  | .groundEvent g => .object (present [
      nonemptyList "args" (writeArguments g.arguments),
      optionalText "description" g.annotations.description,
      nonemptyMap "metadata" g.annotations.metadata,
      member "name" (.string g.name),
      member "time" (writeTiming g.timing),
      stepTag .groundEvent])
  | .groundBlock g => .object (present [
      nonemptyList "args" (writeArguments g.arguments),
      optionalText "description" g.annotations.description,
      nonemptyMap "metadata" g.annotations.metadata,
      member "name" (.string g.name),
      stepTag .groundBlock])
  | .activate s => writeCall .activate s
  | .load s => writeCall .load s

/-! ### Commands without a time and requests -/

def writeHardware (c : HardwareCommand) : Json :=
  .object (present [
    optionalText "description" c.annotations.description,
    nonemptyMap "metadata" c.annotations.metadata,
    member "stem" (.string c.stem)])

def writeImmediate (c : ImmediateCommand) : Json :=
  .object (present [
    nonemptyList "args" (writeArguments c.arguments),
    optionalText "description" c.annotations.description,
    nonemptyMap "metadata" c.annotations.metadata,
    member "stem" (.string c.stem)])

/-- The fields of a ground epoch. -/
def groundEpochMembers (g : GroundEpoch) : Members :=
  present [optionalText "delta" g.delta, optionalText "name" g.name]

def writeRequest (r : Request) : Json :=
  .object (present [
    optionalText "description" r.annotations.description,
    r.groundEpoch.map fun g => ("ground_epoch", .object (groundEpochMembers g)),
    nonemptyMap "metadata" r.annotations.metadata,
    member "name" (.string r.name),
    member "steps" (.array (r.steps.map writeStep)),
    member "type" (.string requestTypeName)])

/-! ### Sequences -/

/-- The document of a sequence. -/
def write (s : Sequence) : Json :=
  .object (present [
    optionalList "hardware_commands" writeHardware s.hardwareCommands,
    member "id" (.string s.id),
    optionalList "immediate_commands" writeImmediate s.immediateCommands,
    optionalList "locals" writeVariable s.locals,
    member "metadata" (.object s.metadata),
    optionalList "parameters" writeVariable s.parameters,
    optionalList "requests" writeRequest s.requests,
    optionalList "steps" writeStep s.steps])

end SeqScript.Document
