import SeqScript.Document.Arguments
import SeqScript.Document.Shape
import SeqScript.Model.Sequence
import SeqScript.Time.Reader
import SeqScript.Warning

/-!
# Reading documents

A document is read all or nothing: the lists of a sequence in a fixed order, the items of each list
in theirs, and the first fault refuses the document.  A local that has a parameter's name is logged
once both lists are read, whatever comes after them.
-/

namespace SeqScript.Document

open Checked

variable {α β : Type}

/-! ### Combining -/

/-- A value of the right shape. -/
def shaped (x : Shaped α) : Checked α :=
  match x with
  | .ok a => .ok a
  | .error m => fail (.shape m)

/-- Reads the items of a list from index `i` on. -/
def readFrom (read : Json → Checked α) (i : Nat) : List Json → Checked (List α)
  | [] => .ok []
  | v :: vs => do
    let a ← (read v).atIndex i
    let as ← readFrom read (i + 1) vs
    return a :: as

/-- Reads the items of the list in a field. -/
def readList (field : String) (read : Json → Checked α) (items : List Json) :
    Checked (List α) :=
  (readFrom read 0 items).inField field

def readOptional (read : α → Checked β) : Option α → Checked (Option β)
  | none => .ok none
  | some a => (read a).map some

/-! ### Variables -/

/-- Why a tag and the name of an enumeration make no type. -/
def typeFault (tag : String) (enumName : Option String) : Checked VariableType :=
  if enumName.isSome then (fail (.enumNameNotAllowed tag)).inField "enum_name"
  else if tag = VariableType.enumTag then (fail .enumNameMissing).inField "enum_name"
  else (fail (.unknownVariableType tag)).inField "type"

/-- The type of a variable from its tag and the name of its enumeration. -/
def variableType (tag : String) (enumName : Option String) : Checked VariableType :=
  match VariableType.ofTag? tag enumName with
  | some type => .ok type
  | none => typeFault tag enumName

/-- Reads a variable whose name must not be one of `seen`. -/
def readVariable (kind : VariableKind) (seen : List String) (v : Json) : Checked Variable := do
  let raw ← shaped (Shape.Variable.decode v)
  if seen.contains raw.name then (fail (.duplicateVariable kind raw.name)).inField "name"
  else
    let type ← variableType raw.type raw.enumName
    return ⟨some kind, type, raw.name, ⟨raw.ranges, raw.values, raw.scName⟩⟩

/-- Reads the variables from index `i` on; `seen` are the names of those before. -/
def readVariablesFrom (kind : VariableKind) (i : Nat) (seen : List String) :
    List Json → Checked (List Variable)
  | [] => .ok []
  | v :: vs => do
    let x ← (readVariable kind seen v).atIndex i
    let xs ← readVariablesFrom kind (i + 1) (x.name :: seen) vs
    return x :: xs

def readVariables (kind : VariableKind) (items : List Json) : Checked (List Variable) :=
  (readVariablesFrom kind 0 [] items).inField kind.listName

/-! ### Steps -/

/-- A time that was read from a text. -/
def timed (x : Except TimeError α) : Checked α :=
  match x with
  | .ok a => .ok a
  | .error e => fail (.time e)

/-- The tag of a time that needs one, which `read` understands. -/
def tagged (read : String → Except TimeError α) (raw : Shape.Time) : Checked α :=
  match raw.tag with
  | some tag => (timed (read tag)).inField "tag"
  | none => (fail (.timeTagMissing raw.type)).inField "tag"

def timing (raw : Shape.Time) : Checked Timing :=
  match TimingType.ofName? raw.type with
  | some .absolute => (tagged Instant.read raw).map .absolute
  | some .relative => (tagged Duration.read raw).map .relative
  | some .epoch => (tagged Duration.read raw).map .epoch
  | some .commandComplete => .ok .commandComplete
  | none => (fail (.unknownTimeType raw.type)).inField "type"

/-- A step without a time waits for the command before it. -/
def timingOf : Option Shape.Time → Checked Timing
  | none => .ok .commandComplete
  | some raw => (timing raw).inField "time"

def argumentsOf (items : List Json) : Checked Arguments := (readArguments items).inField "args"

def modelOf (raw : Shape.Model) : Checked ModelAssignment := do
  let offset ← (timed (Duration.read raw.offset)).inField "offset"
  match literal? raw.value with
  | none => (fail .modelValue).inField "value"
  | some value => return ⟨offset, value, raw.variableName⟩

def modelsFrom (i : Nat) : List Shape.Model → Checked (List ModelAssignment)
  | [] => .ok []
  | raw :: raws => do
    let m ← (modelOf raw).atIndex i
    let ms ← modelsFrom (i + 1) raws
    return m :: ms

def callOf (raw : Shape.SequenceCall) : Checked SequenceCall := do
  let models ← (modelsFrom 0 raw.models).inField "models"
  let timing ← timingOf raw.time
  let arguments ← argumentsOf raw.args
  return {
    sequence := raw.sequence, arguments, timing
    annotations := ⟨raw.description, raw.metadata⟩
    engine := raw.engine, epoch := raw.epoch, models }

def stepOf : Shape.Step → Checked Step
  | .command raw => do
    let timing ← timingOf raw.time
    let arguments ← argumentsOf raw.args
    return .command ⟨raw.stem, arguments, timing, ⟨raw.description, raw.metadata⟩⟩
  | .groundEvent raw => do
    let timing ← timingOf raw.time
    let arguments ← argumentsOf raw.args
    return .groundEvent ⟨raw.name, arguments, timing, ⟨raw.description, raw.metadata⟩⟩
  | .groundBlock raw => do
    let arguments ← argumentsOf raw.args
    return .groundBlock ⟨raw.name, arguments, ⟨raw.description, raw.metadata⟩⟩
  | .activate raw => (callOf raw).map .activate
  | .load raw => (callOf raw).map .load

def readStep (v : Json) : Checked Step := shaped (Shape.Step.decode v) >>= stepOf

/-! ### Commands without a time and requests -/

def readHardware (v : Json) : Checked HardwareCommand := do
  let raw ← shaped (Shape.HardwareCommand.decode v)
  return ⟨raw.stem, ⟨raw.description, raw.metadata⟩⟩

/-- The arguments of an immediate command are named. -/
def readImmediate (v : Json) : Checked ImmediateCommand := do
  let raw ← shaped (Shape.ImmediateCommand.decode v)
  let arguments ← argumentsOf raw.args
  if arguments.isEmpty || arguments.isNamed then
    return ⟨raw.stem, arguments, ⟨raw.description, raw.metadata⟩⟩
  else (fail .positionalImmediate).inField "args"

/-- The type that a request may state. -/
def requestTypeName : String := "request"

def checkRequestType : Option String → Checked Unit
  | none => .ok ()
  | some type =>
    if type = requestTypeName then .ok () else (fail (.requestType type)).inField "type"

def readRequest (v : Json) : Checked Request := do
  let raw ← shaped (Shape.Request.decode v)
  checkRequestType raw.type
  let steps ← readList "steps" readStep raw.steps
  return {
    name := raw.name, steps
    groundEpoch := raw.groundEpoch.map fun g => ⟨g.name, g.delta⟩
    annotations := ⟨raw.description, raw.metadata⟩ }

/-! ### Sequences -/

/-- The declarations of a sequence. -/
structure Declarations where
  locals : Option (List Variable)
  parameters : Option (List Variable)

def readDeclarations (raw : Shape.Sequence) : Checked Declarations := do
  let locals ← readOptional (readVariables .locals) raw.locals
  let parameters ← readOptional (readVariables .parameters) raw.parameters
  return ⟨locals, parameters⟩

/-- The lists that follow the declarations. -/
def readBody (raw : Shape.Sequence) (d : Declarations) : Checked Sequence := do
  let hardwareCommands ←
    readOptional (readList "hardware_commands" readHardware) raw.hardwareCommands
  let immediateCommands ←
    readOptional (readList "immediate_commands" readImmediate) raw.immediateCommands
  let steps ← readOptional (readList "steps" readStep) raw.steps
  let requests ← readOptional (readList "requests" readRequest) raw.requests
  return {
    id := raw.id, metadata := raw.metadata, locals := d.locals, parameters := d.parameters
    hardwareCommands, immediateCommands, steps, requests }

/-- One warning for each local that has the name of a parameter. -/
def shadowWarnings (id : String) (d : Declarations) : List Warning :=
  match d.locals, d.parameters with
  | some locals, some parameters => locals.filterMap fun v =>
    if parameters.any (·.name == v.name) then some (.shadowed id v.name) else none
  | _, _ => []

def readSequence (raw : Shape.Sequence) : Logged (Checked Sequence) :=
  match readDeclarations raw with
  | .error e => ⟨.error e, []⟩
  | .ok d => ⟨readBody raw d, shadowWarnings raw.id d⟩

/-- The outcome for the document with an id. -/
def identified (id : Option String) : Checked α → Except ValidationError α
  | .ok a => .ok a
  | .error e => .error ⟨id, e.path, e.fault⟩

/-- Reads a document. -/
def read (doc : Json) : Logged (Except ValidationError Sequence) :=
  match Shape.Sequence.decode doc with
  | .error m => ⟨identified none (fail (.shape m)), []⟩
  | .ok raw => (readSequence raw).map (identified (some raw.id))

/-- Reads the text of a document. -/
def readText (text : String) : Logged (Except ValidationError Sequence) :=
  match Json.read text with
  | .error e => ⟨identified none (fail (.text e)), []⟩
  | .ok doc => read doc

end SeqScript.Document
