import SeqScript.Document.Record
import SeqScript.Model.Variable

/-!
# The records of a document

What a document may hold at each place, before times, types and arguments are looked at.  The items
of the lists of a sequence or a request stay values here, so that each can be read on its own.
-/

namespace SeqScript.Document.Shape

open RecordField Decoder

structure Sequence where
  id : String
  metadata : Members
  locals : Option (List Json)
  parameters : Option (List Json)
  hardwareCommands : Option (List Json)
  immediateCommands : Option (List Json)
  steps : Option (List Json)
  requests : Option (List Json)

structure Variable where
  name : String
  type : String
  enumName : Option String
  ranges : Option (List AllowableRange)
  values : Option (List AllowableValue)
  scName : Option String

structure Time where
  type : String
  tag : Option String

structure Command where
  stem : String
  time : Option Time
  args : List Json
  description : Option String
  metadata : Members

structure GroundEvent where
  name : String
  time : Option Time
  args : List Json
  description : Option String
  metadata : Members

structure GroundBlock where
  name : String
  args : List Json
  description : Option String
  metadata : Members

structure Model where
  offset : String
  value : Json
  variableName : String

structure SequenceCall where
  sequence : String
  time : Option Time
  args : List Json
  description : Option String
  metadata : Members
  engine : Option Int64
  epoch : Option String
  models : List Model

inductive Step where
  | command (body : Command)
  | groundEvent (body : GroundEvent)
  | groundBlock (body : GroundBlock)
  | activate (body : SequenceCall)
  | load (body : SequenceCall)

structure HardwareCommand where
  stem : String
  description : Option String
  metadata : Members

structure ImmediateCommand where
  stem : String
  args : List Json
  description : Option String
  metadata : Members

structure GroundEpoch where
  name : Option String
  delta : Option String

structure Request where
  name : String
  type : Option String
  steps : List Json
  description : Option String
  groundEpoch : Option GroundEpoch
  metadata : Members

/-! ### Fields that several records share -/

def nameField : RecordField String := required "name" text
def stemField : RecordField String := required "stem" text
def typeField : RecordField String := required "type" text
def argsField : RecordField (List Json) := defaulted "args" list []
def descriptionField : RecordField (Option String) := optional "description" text
def metadataField : RecordField Members := defaulted "metadata" map []

/-! ### Sequences -/

def idField : RecordField String := required "id" text
def sequenceMetadataField : RecordField Members := required "metadata" map
def localsField : RecordField (Option (List Json)) := optional "locals" list
def parametersField : RecordField (Option (List Json)) := optional "parameters" list
def hardwareField : RecordField (Option (List Json)) := optional "hardware_commands" list
def immediateField : RecordField (Option (List Json)) := optional "immediate_commands" list
def stepsField : RecordField (Option (List Json)) := optional "steps" list
def requestsField : RecordField (Option (List Json)) := optional "requests" list

def sequenceRecord : Record where
  name := "RawSequence"
  place := .document
  fields := [idField.check, sequenceMetadataField.check, localsField.check, parametersField.check,
    hardwareField.check, immediateField.check, stepsField.check, requestsField.check]

def Sequence.decode : Decoder Sequence := sequenceRecord.decode fun e => do
  return {
    id := ← e.get idField
    metadata := ← e.get sequenceMetadataField
    locals := ← e.get localsField
    parameters := ← e.get parametersField
    hardwareCommands := ← e.get hardwareField
    immediateCommands := ← e.get immediateField
    steps := ← e.get stepsField
    requests := ← e.get requestsField }

/-! ### Variables -/

def minField : RecordField Number := required "min" number
def maxField : RecordField Number := required "max" number

def rangeRecord : Record where
  name := "AllowableRange"
  place := .document
  fields := [minField.check, maxField.check]

def decodeRange : Decoder AllowableRange := rangeRecord.decode fun e => do
  return { min := ← e.get minField, max := ← e.get maxField }

def decodeAllowable : Decoder AllowableValue
  | .number n => .ok (.number n)
  | .string s => .ok (.string s)
  | _ => .error .noAllowableValue

def enumNameField : RecordField (Option String) := optional "enum_name" text
def rangesField : RecordField (Option (List AllowableRange)) :=
  optional "allowable_ranges" (listOf decodeRange)
def valuesField : RecordField (Option (List AllowableValue)) :=
  optional "allowable_values" (listOf decodeAllowable)
def scNameField : RecordField (Option String) := optional "sc_name" text

def variableRecord : Record where
  name := "RawVariable"
  place := .document
  fields := [nameField.check, typeField.check, enumNameField.check, rangesField.check,
    valuesField.check, scNameField.check]

def Variable.decode : Decoder Variable := variableRecord.decode fun e => do
  return {
    name := ← e.get nameField
    type := ← e.get typeField
    enumName := ← e.get enumNameField
    ranges := ← e.get rangesField
    values := ← e.get valuesField
    scName := ← e.get scNameField }

/-! ### Steps -/

def tagField : RecordField (Option String) := optional "tag" text

def timeRecord : Record where
  name := "RawTime"
  place := .step
  fields := [typeField.check, tagField.check]

def Time.decode : Decoder Time := timeRecord.decode fun e => do
  return { type := ← e.get typeField, tag := ← e.get tagField }

def timeField : RecordField (Option Time) := optional "time" Time.decode

def commandRecord : Record where
  name := "RawCommand"
  place := .step
  fields := [stemField.check, timeField.check, argsField.check, descriptionField.check,
    metadataField.check]

def Command.decode : Decoder Command := commandRecord.decode fun e => do
  return {
    stem := ← e.get stemField
    time := ← e.get timeField
    args := ← e.get argsField
    description := ← e.get descriptionField
    metadata := ← e.get metadataField }

def groundEventRecord : Record where
  name := "RawGroundEvent"
  place := .step
  fields := [nameField.check, timeField.check, argsField.check, descriptionField.check,
    metadataField.check]

def GroundEvent.decode : Decoder GroundEvent := groundEventRecord.decode fun e => do
  return {
    name := ← e.get nameField
    time := ← e.get timeField
    args := ← e.get argsField
    description := ← e.get descriptionField
    metadata := ← e.get metadataField }

def groundBlockRecord : Record where
  name := "RawGroundBlock"
  place := .step
  fields := [nameField.check, argsField.check, descriptionField.check, metadataField.check]

def GroundBlock.decode : Decoder GroundBlock := groundBlockRecord.decode fun e => do
  return {
    name := ← e.get nameField
    args := ← e.get argsField
    description := ← e.get descriptionField
    metadata := ← e.get metadataField }

def offsetField : RecordField String := required "offset" text
def valueField : RecordField Json := required "value" any
def variableField : RecordField String := required "variable" text

def modelRecord : Record where
  name := "RawModel"
  place := .step
  fields := [offsetField.check, valueField.check, variableField.check]

def Model.decode : Decoder Model := modelRecord.decode fun e => do
  return {
    offset := ← e.get offsetField
    value := ← e.get valueField
    variableName := ← e.get variableField }

def sequenceField : RecordField String := required "sequence" text
def engineField : RecordField (Option Int64) := optional "engine" engine
def epochField : RecordField (Option String) := optional "epoch" text
def modelsField : RecordField (List Model) := defaulted "models" (listOf Model.decode) []

def callRecord : Record where
  name := "RawSequenceCall"
  place := .step
  fields := [sequenceField.check, timeField.check, argsField.check, descriptionField.check,
    metadataField.check, engineField.check, epochField.check, modelsField.check]

def SequenceCall.decode : Decoder SequenceCall := callRecord.decode fun e => do
  return {
    sequence := ← e.get sequenceField
    time := ← e.get timeField
    args := ← e.get argsField
    description := ← e.get descriptionField
    metadata := ← e.get metadataField
    engine := ← e.get engineField
    epoch := ← e.get epochField
    models := ← e.get modelsField }

/-- Reads the body of a step by its tag. -/
def Step.decodeBody (tag : Json) (body : Json) : Shaped Step :=
  match tag with
  | .string name => match StepType.ofName? name with
    | some .command => (Command.decode body).map .command
    | some .groundEvent => (GroundEvent.decode body).map .groundEvent
    | some .groundBlock => (GroundBlock.decode body).map .groundBlock
    | some .activate => (SequenceCall.decode body).map .activate
    | some .load => (SequenceCall.decode body).map .load
    | none => .error (.unknownStep name)
  | v => .error (.wrongKind v .stepTag)

/-- A step is an object with its tag among the fields, or a list of its tag and its fields. -/
def Step.decode : Decoder Step
  | .object members => match Members.get? members "type" with
    | some tag => Step.decodeBody tag (.object members)
    | none => .error (.missingField "type")
  | .array [] => .error (.missingField "type")
  | .array (tag :: fields) => Step.decodeBody tag (.array fields)
  | v => .error (.wrongKind v .step)

/-! ### Commands without a time -/

def hardwareRecord : Record where
  name := "RawHardwareCommand"
  place := .document
  fields := [stemField.check, descriptionField.check, metadataField.check]

def HardwareCommand.decode : Decoder HardwareCommand := hardwareRecord.decode fun e => do
  return {
    stem := ← e.get stemField
    description := ← e.get descriptionField
    metadata := ← e.get metadataField }

def immediateRecord : Record where
  name := "RawImmediateCommand"
  place := .document
  fields := [stemField.check, argsField.check, descriptionField.check, metadataField.check]

def ImmediateCommand.decode : Decoder ImmediateCommand := immediateRecord.decode fun e => do
  return {
    stem := ← e.get stemField
    args := ← e.get argsField
    description := ← e.get descriptionField
    metadata := ← e.get metadataField }

/-! ### Requests -/

def epochNameField : RecordField (Option String) := optional "name" text
def deltaField : RecordField (Option String) := optional "delta" text

def groundEpochRecord : Record where
  name := "RawGroundEpoch"
  place := .document
  fields := [epochNameField.check, deltaField.check]

def GroundEpoch.decode : Decoder GroundEpoch := groundEpochRecord.decode fun e => do
  return { name := ← e.get epochNameField, delta := ← e.get deltaField }

def requestTypeField : RecordField (Option String) := optional "type" text
def requestStepsField : RecordField (List Json) := defaulted "steps" list []
def groundEpochField : RecordField (Option GroundEpoch) :=
  optional "ground_epoch" GroundEpoch.decode

def requestRecord : Record where
  name := "RawRequest"
  place := .document
  fields := [nameField.check, requestTypeField.check, requestStepsField.check,
    descriptionField.check, groundEpochField.check, metadataField.check]

def Request.decode : Decoder Request := requestRecord.decode fun e => do
  return {
    name := ← e.get nameField
    type := ← e.get requestTypeField
    steps := ← e.get requestStepsField
    description := ← e.get descriptionField
    groundEpoch := ← e.get groundEpochField
    metadata := ← e.get metadataField }

end SeqScript.Document.Shape
