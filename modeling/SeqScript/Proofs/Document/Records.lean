import SeqScript.Proofs.Document.Decoding

/-!
# Written records

The record that is decoded from each written part of a sequence.  Texts of times and lists of
arguments stay as they were written.
-/

namespace SeqScript.Document

open Shape RecordField

/-! ### Lists and numbers -/

theorem mapM_written {α β : Type} {d : Decoder β} {write : α → Json} {g : α → β}
    (h : ∀ a, d (write a) = .ok (g a)) (as : List α) :
    (as.map write).mapM d = .ok (as.map g) := by
  induction as with
  | nil => rfl
  | cons a as ih =>
    rw [List.map_cons, List.mapM_cons, h, ih]
    rfl

theorem engine_ofInt64 (e : Int64) : Decoder.engine (.number (.ofInt64 e)) = .ok e := by
  have high : e.toInt < 0x8000000000000000 := Int64.toInt_lt e
  rw [Number.ofInt64, Decoder.engine, if_pos high, Int64.ofInt_toInt]

/-! ### Times -/

/-- The record of a timing. -/
def rawTiming (t : Timing) : Shape.Time where
  type := t.type.name
  tag := match t with
    | .absolute i => some i.text
    | .relative d => some d.text
    | .epoch d => some d.text
    | .commandComplete => none

def timeSlots (tag : Option String) (type : TimingType) : Slots :=
  [("tag", tag.map .string), ("type", some (.string type.name))]

theorem timeSlots_ordered (tag : Option String) (type : TimingType) :
    (timeSlots tag type).Ordered :=
  (by decide : ["tag", "type"].Pairwise (· < ·))

theorem timeObject_eq (tag : Option String) (type : TimingType) :
    timeObject tag type = .object (timeSlots tag type).object := by
  rw [timeObject, optionalText_eq_field]
  rfl

theorem decode_timeObject (tag : Option String) (type : TimingType) :
    Time.decode (timeObject tag type) = .ok ⟨type.name, tag⟩ := by
  let ms := timeSlots tag type
  have distinct := (timeSlots_ordered tag type).distinct
  have typed : typeField.Yields (ms.value? "type") type.name := rfl
  have tagged : tagField.Yields (ms.value? "tag") tag := yields_text "tag" tag
  have accepted : ms.Accepted timeRecord.fields :=
    Slots.accepted_cons typed <| Slots.accepted_cons tagged <| Slots.accepted_nil ms
  rw [timeObject_eq]
  refine (Record.decode_object distinct accepted).trans ?_
  rw [Slots.get_eq distinct typed, Slots.get_eq distinct tagged]
  rfl

theorem decode_writeTiming (t : Timing) : Time.decode (writeTiming t) = .ok (rawTiming t) := by
  cases t <;> exact decode_timeObject _ _

theorem writeTiming_ne_null (t : Timing) : writeTiming t ≠ .null := by
  cases t <;> exact Json.noConfusion

theorem yields_timing (t : Timing) :
    timeField.Yields (some (writeTiming t)) (some (rawTiming t)) :=
  yields_optional (o := some t) (fun t _ => decode_writeTiming t) writeTiming_ne_null

/-! ### Variables -/

theorem decodeRange_writeRange (r : AllowableRange) : decodeRange (writeRange r) = .ok r := rfl

theorem decodeAllowable_writeAllowable (v : AllowableValue) :
    decodeAllowable (writeAllowable v) = .ok v := by
  cases v <;> rfl

theorem yields_listOf {α : Type} (name : String) {d : Decoder α} {write : α → Json}
    (h : ∀ a, d (write a) = .ok a) (o : Option (List α)) :
    (optional name (.listOf d)).Yields (o.map fun as => .array (as.map write)) o := by
  have written : (optional name (.listOf d)).Yields (o.map fun as => .array (as.map write))
      (o.map (·.map id)) :=
    yields_optional (fun as _ => mapM_written h as) fun _ => Json.noConfusion
  simpa using written

def variableSlots (v : Variable) : Slots := [
  ("allowable_ranges", v.options.ranges.map fun rs => .array (rs.map writeRange)),
  ("allowable_values", v.options.values.map fun vs => .array (vs.map writeAllowable)),
  ("enum_name", v.type.enumName?.map .string), ("name", some (.string v.name)),
  ("sc_name", v.options.scName.map .string), ("type", some (.string v.type.tag))]

theorem variableSlots_ordered (v : Variable) : (variableSlots v).Ordered :=
  (by decide : ["allowable_ranges", "allowable_values", "enum_name", "name", "sc_name",
    "type"].Pairwise (· < ·))

theorem writeVariable_eq (v : Variable) : writeVariable v = .object (variableSlots v).object := by
  simp only [writeVariable, optionalList_eq_field, optionalText_eq_field, member_eq_field]
  rfl

/-- The record of a variable. -/
def rawVariable (v : Variable) : Shape.Variable :=
  ⟨v.name, v.type.tag, v.type.enumName?, v.options.ranges, v.options.values, v.options.scName⟩

theorem decode_writeVariable (v : Variable) :
    Shape.Variable.decode (writeVariable v) = .ok (rawVariable v) := by
  let ms := variableSlots v
  have distinct := (variableSlots_ordered v).distinct
  have name : nameField.Yields (ms.value? "name") v.name := rfl
  have type : typeField.Yields (ms.value? "type") v.type.tag := rfl
  have enumName : enumNameField.Yields (ms.value? "enum_name") v.type.enumName? :=
    yields_text "enum_name" _
  have ranges : rangesField.Yields (ms.value? "allowable_ranges") v.options.ranges :=
    yields_listOf "allowable_ranges" decodeRange_writeRange _
  have values : valuesField.Yields (ms.value? "allowable_values") v.options.values :=
    yields_listOf "allowable_values" decodeAllowable_writeAllowable _
  have scName : scNameField.Yields (ms.value? "sc_name") v.options.scName :=
    yields_text "sc_name" _
  have accepted : ms.Accepted variableRecord.fields :=
    Slots.accepted_cons name <| Slots.accepted_cons type <| Slots.accepted_cons enumName <|
    Slots.accepted_cons ranges <| Slots.accepted_cons values <| Slots.accepted_cons scName <|
    Slots.accepted_nil ms
  rw [writeVariable_eq]
  refine (Record.decode_object distinct accepted).trans ?_
  rw [Slots.get_eq distinct name, Slots.get_eq distinct type, Slots.get_eq distinct enumName,
    Slots.get_eq distinct ranges, Slots.get_eq distinct values, Slots.get_eq distinct scName]
  rfl

/-! ### Steps -/

/-- The record of a model. -/
def rawModel (m : ModelAssignment) : Shape.Model :=
  ⟨m.offset.text, writeLiteral m.value, m.variableName⟩

theorem decode_writeModel (m : ModelAssignment) :
    Shape.Model.decode (writeModel m) = .ok (rawModel m) := rfl

theorem yields_models (ms : List ModelAssignment) :
    modelsField.Yields
      (if (ms.map writeModel).isEmpty then none else some (.array (ms.map writeModel)))
      (ms.map rawModel) := by
  rcases ms with _ | ⟨m, ms⟩
  · rfl
  · exact mapM_written decode_writeModel (m :: ms)

def commandSlots (c : Command) : Slots := [
  ("args", some (.array (writeArguments c.arguments))),
  ("description", c.annotations.description.map .string),
  ("metadata", if c.annotations.metadata.isEmpty then none
    else some (.object c.annotations.metadata)),
  ("stem", some (.string c.stem)), ("time", some (writeTiming c.timing)),
  ("type", some (.string StepType.command.name))]

theorem commandSlots_ordered (c : Command) : (commandSlots c).Ordered :=
  (by decide : ["args", "description", "metadata", "stem", "time", "type"].Pairwise (· < ·))

theorem writeStep_command (c : Command) :
    writeStep (.command c) = .object (commandSlots c).object := by
  simp only [writeStep, stepTag, optionalText_eq_field, nonemptyMap_eq_field, member_eq_field]
  rfl

/-- The record of a command. -/
def rawCommand (c : Command) : Shape.Command :=
  ⟨c.stem, some (rawTiming c.timing), writeArguments c.arguments, c.annotations.description,
    c.annotations.metadata⟩

theorem decode_writeCommand (c : Command) :
    Shape.Command.decode (writeStep (.command c)) = .ok (rawCommand c) := by
  let ms := commandSlots c
  have distinct := (commandSlots_ordered c).distinct
  have stem : stemField.Yields (ms.value? "stem") c.stem := rfl
  have time : timeField.Yields (ms.value? "time") (some (rawTiming c.timing)) :=
    yields_timing c.timing
  have args : argsField.Yields (ms.value? "args") (writeArguments c.arguments) := rfl
  have description : descriptionField.Yields (ms.value? "description")
    c.annotations.description := yields_text "description" _
  have metadata : metadataField.Yields (ms.value? "metadata") c.annotations.metadata :=
    yields_map "metadata" _
  have accepted : ms.Accepted commandRecord.fields :=
    Slots.accepted_cons stem <| Slots.accepted_cons time <| Slots.accepted_cons args <|
    Slots.accepted_cons description <| Slots.accepted_cons metadata <| Slots.accepted_nil ms
  rw [writeStep_command]
  refine (Record.decode_object distinct accepted).trans ?_
  rw [Slots.get_eq distinct stem, Slots.get_eq distinct time, Slots.get_eq distinct args,
    Slots.get_eq distinct description, Slots.get_eq distinct metadata]
  rfl

def groundEventSlots (g : GroundEvent) : Slots := [
  ("args", if (writeArguments g.arguments).isEmpty then none
    else some (.array (writeArguments g.arguments))),
  ("description", g.annotations.description.map .string),
  ("metadata", if g.annotations.metadata.isEmpty then none
    else some (.object g.annotations.metadata)),
  ("name", some (.string g.name)), ("time", some (writeTiming g.timing)),
  ("type", some (.string StepType.groundEvent.name))]

theorem groundEventSlots_ordered (g : GroundEvent) : (groundEventSlots g).Ordered :=
  (by decide : ["args", "description", "metadata", "name", "time", "type"].Pairwise (· < ·))

theorem writeStep_groundEvent (g : GroundEvent) :
    writeStep (.groundEvent g) = .object (groundEventSlots g).object := by
  simp only [writeStep, stepTag, nonemptyList_eq_field, optionalText_eq_field,
    nonemptyMap_eq_field, member_eq_field]
  rfl

/-- The record of a ground event. -/
def rawGroundEvent (g : GroundEvent) : Shape.GroundEvent :=
  ⟨g.name, some (rawTiming g.timing), writeArguments g.arguments, g.annotations.description,
    g.annotations.metadata⟩

theorem decode_writeGroundEvent (g : GroundEvent) :
    Shape.GroundEvent.decode (writeStep (.groundEvent g)) = .ok (rawGroundEvent g) := by
  let ms := groundEventSlots g
  have distinct := (groundEventSlots_ordered g).distinct
  have name : nameField.Yields (ms.value? "name") g.name := rfl
  have time : timeField.Yields (ms.value? "time") (some (rawTiming g.timing)) :=
    yields_timing g.timing
  have args : argsField.Yields (ms.value? "args") (writeArguments g.arguments) :=
    yields_list "args" _
  have description : descriptionField.Yields (ms.value? "description")
    g.annotations.description := yields_text "description" _
  have metadata : metadataField.Yields (ms.value? "metadata") g.annotations.metadata :=
    yields_map "metadata" _
  have accepted : ms.Accepted groundEventRecord.fields :=
    Slots.accepted_cons name <| Slots.accepted_cons time <| Slots.accepted_cons args <|
    Slots.accepted_cons description <| Slots.accepted_cons metadata <| Slots.accepted_nil ms
  rw [writeStep_groundEvent]
  refine (Record.decode_object distinct accepted).trans ?_
  rw [Slots.get_eq distinct name, Slots.get_eq distinct time, Slots.get_eq distinct args,
    Slots.get_eq distinct description, Slots.get_eq distinct metadata]
  rfl

def groundBlockSlots (g : GroundBlock) : Slots := [
  ("args", if (writeArguments g.arguments).isEmpty then none
    else some (.array (writeArguments g.arguments))),
  ("description", g.annotations.description.map .string),
  ("metadata", if g.annotations.metadata.isEmpty then none
    else some (.object g.annotations.metadata)),
  ("name", some (.string g.name)), ("type", some (.string StepType.groundBlock.name))]

theorem groundBlockSlots_ordered (g : GroundBlock) : (groundBlockSlots g).Ordered :=
  (by decide : ["args", "description", "metadata", "name", "type"].Pairwise (· < ·))

theorem writeStep_groundBlock (g : GroundBlock) :
    writeStep (.groundBlock g) = .object (groundBlockSlots g).object := by
  simp only [writeStep, stepTag, nonemptyList_eq_field, optionalText_eq_field,
    nonemptyMap_eq_field, member_eq_field]
  rfl

/-- The record of a ground block. -/
def rawGroundBlock (g : GroundBlock) : Shape.GroundBlock :=
  ⟨g.name, writeArguments g.arguments, g.annotations.description, g.annotations.metadata⟩

theorem decode_writeGroundBlock (g : GroundBlock) :
    Shape.GroundBlock.decode (writeStep (.groundBlock g)) = .ok (rawGroundBlock g) := by
  let ms := groundBlockSlots g
  have distinct := (groundBlockSlots_ordered g).distinct
  have name : nameField.Yields (ms.value? "name") g.name := rfl
  have args : argsField.Yields (ms.value? "args") (writeArguments g.arguments) :=
    yields_list "args" _
  have description : descriptionField.Yields (ms.value? "description")
    g.annotations.description := yields_text "description" _
  have metadata : metadataField.Yields (ms.value? "metadata") g.annotations.metadata :=
    yields_map "metadata" _
  have accepted : ms.Accepted groundBlockRecord.fields :=
    Slots.accepted_cons name <| Slots.accepted_cons args <| Slots.accepted_cons description <|
    Slots.accepted_cons metadata <| Slots.accepted_nil ms
  rw [writeStep_groundBlock]
  refine (Record.decode_object distinct accepted).trans ?_
  rw [Slots.get_eq distinct name, Slots.get_eq distinct args,
    Slots.get_eq distinct description, Slots.get_eq distinct metadata]
  rfl

def callSlots (type : StepType) (s : SequenceCall) : Slots := [
  ("args", if (writeArguments s.arguments).isEmpty then none
    else some (.array (writeArguments s.arguments))),
  ("description", s.annotations.description.map .string),
  ("engine", s.engine.map fun e => .number (.ofInt64 e)),
  ("epoch", s.epoch.map .string),
  ("metadata", if s.annotations.metadata.isEmpty then none
    else some (.object s.annotations.metadata)),
  ("models", if (s.models.map writeModel).isEmpty then none
    else some (.array (s.models.map writeModel))),
  ("sequence", some (.string s.sequence)), ("time", some (writeTiming s.timing)),
  ("type", some (.string type.name))]

theorem callSlots_ordered (type : StepType) (s : SequenceCall) : (callSlots type s).Ordered :=
  (by decide : ["args", "description", "engine", "epoch", "metadata", "models",
    "sequence", "time", "type"].Pairwise (· < ·))

theorem writeCall_eq (type : StepType) (s : SequenceCall) :
    writeCall type s = .object (callSlots type s).object := by
  have number : (s.engine.map fun e => ("engine", Json.number (.ofInt64 e))) =
      field "engine" (s.engine.map fun e => .number (.ofInt64 e)) := by
    cases s.engine <;> rfl
  simp only [writeCall, stepTag, nonemptyList_eq_field, optionalText_eq_field,
    nonemptyMap_eq_field, member_eq_field, number]
  rfl

/-- The record of a call. -/
def rawCall (s : SequenceCall) : Shape.SequenceCall where
  sequence := s.sequence
  time := some (rawTiming s.timing)
  args := writeArguments s.arguments
  description := s.annotations.description
  metadata := s.annotations.metadata
  engine := s.engine
  epoch := s.epoch
  models := s.models.map rawModel

theorem decode_writeCall (type : StepType) (s : SequenceCall) :
    Shape.SequenceCall.decode (writeCall type s) = .ok (rawCall s) := by
  let ms := callSlots type s
  have distinct := (callSlots_ordered type s).distinct
  have sequence : sequenceField.Yields (ms.value? "sequence") s.sequence := rfl
  have time : timeField.Yields (ms.value? "time") (some (rawTiming s.timing)) :=
    yields_timing s.timing
  have args : argsField.Yields (ms.value? "args") (writeArguments s.arguments) :=
    yields_list "args" _
  have description : descriptionField.Yields (ms.value? "description")
    s.annotations.description := yields_text "description" _
  have metadata : metadataField.Yields (ms.value? "metadata") s.annotations.metadata :=
    yields_map "metadata" _
  have engine : engineField.Yields (ms.value? "engine") s.engine := by
    have written : engineField.Yields (s.engine.map fun e => .number (.ofInt64 e))
        (s.engine.map id) :=
      yields_optional (fun e _ => engine_ofInt64 e) fun _ => Json.noConfusion
    rwa [Option.map_id] at written
  have epoch : epochField.Yields (ms.value? "epoch") s.epoch := yields_text "epoch" _
  have models : modelsField.Yields (ms.value? "models") (s.models.map rawModel) :=
    yields_models s.models
  have accepted : ms.Accepted callRecord.fields :=
    Slots.accepted_cons sequence <| Slots.accepted_cons time <| Slots.accepted_cons args <|
    Slots.accepted_cons description <| Slots.accepted_cons metadata <|
    Slots.accepted_cons engine <| Slots.accepted_cons epoch <| Slots.accepted_cons models <|
    Slots.accepted_nil ms
  rw [writeCall_eq]
  refine (Record.decode_object distinct accepted).trans ?_
  rw [Slots.get_eq distinct sequence, Slots.get_eq distinct time, Slots.get_eq distinct args,
    Slots.get_eq distinct description, Slots.get_eq distinct metadata,
    Slots.get_eq distinct engine, Slots.get_eq distinct epoch, Slots.get_eq distinct models]
  rfl

/-- The record of a step. -/
def rawStep : Step → Shape.Step
  | .command c => .command (rawCommand c)
  | .groundEvent g => .groundEvent (rawGroundEvent g)
  | .groundBlock g => .groundBlock (rawGroundBlock g)
  | .activate s => .activate (rawCall s)
  | .load s => .load (rawCall s)

/-- The tag of a step selects the record of its body. -/
theorem decode_tagged {ms : Slots} (type : StepType) (distinct : (ms.map (·.1)).Nodup)
    (tag : ms.value? "type" = some (.string type.name)) :
    Shape.Step.decode (.object ms.object) =
      Shape.Step.decodeBody (.string type.name) (.object ms.object) := by
  have found : Members.get? ms.object "type" = some (.string type.name) :=
    (Slots.get?_object distinct "type").trans tag
  simp only [Shape.Step.decode, found]

theorem decode_writeStep (x : Step) : Shape.Step.decode (writeStep x) = .ok (rawStep x) := by
  cases x with
  | command c =>
    have body := decode_writeCommand c
    rw [writeStep_command] at body ⊢
    rw [decode_tagged .command (commandSlots_ordered c).distinct rfl]
    simp only [Shape.Step.decodeBody, StepType.ofName?_name, body, Except.map, rawStep]
  | groundEvent g =>
    have body := decode_writeGroundEvent g
    rw [writeStep_groundEvent] at body ⊢
    rw [decode_tagged .groundEvent (groundEventSlots_ordered g).distinct rfl]
    simp only [Shape.Step.decodeBody, StepType.ofName?_name, body, Except.map, rawStep]
  | groundBlock g =>
    have body := decode_writeGroundBlock g
    rw [writeStep_groundBlock] at body ⊢
    rw [decode_tagged .groundBlock (groundBlockSlots_ordered g).distinct rfl]
    simp only [Shape.Step.decodeBody, StepType.ofName?_name, body, Except.map, rawStep]
  | activate s =>
    have body := decode_writeCall .activate s
    rw [writeStep, writeCall_eq] at *
    rw [decode_tagged .activate (callSlots_ordered .activate s).distinct rfl]
    simp only [Shape.Step.decodeBody, StepType.ofName?_name, body, Except.map, rawStep]
  | load s =>
    have body := decode_writeCall .load s
    rw [writeStep, writeCall_eq] at *
    rw [decode_tagged .load (callSlots_ordered .load s).distinct rfl]
    simp only [Shape.Step.decodeBody, StepType.ofName?_name, body, Except.map, rawStep]

/-! ### Commands without a time and requests -/

def hardwareSlots (c : HardwareCommand) : Slots := [
  ("description", c.annotations.description.map .string),
  ("metadata", if c.annotations.metadata.isEmpty then none
    else some (.object c.annotations.metadata)),
  ("stem", some (.string c.stem))]

theorem hardwareSlots_ordered (c : HardwareCommand) : (hardwareSlots c).Ordered :=
  (by decide : ["description", "metadata", "stem"].Pairwise (· < ·))

theorem writeHardware_eq (c : HardwareCommand) :
    writeHardware c = .object (hardwareSlots c).object := by
  simp only [writeHardware, optionalText_eq_field, nonemptyMap_eq_field, member_eq_field]
  rfl

/-- The record of a hardware command. -/
def rawHardware (c : HardwareCommand) : Shape.HardwareCommand :=
  ⟨c.stem, c.annotations.description, c.annotations.metadata⟩

theorem decode_writeHardware (c : HardwareCommand) :
    Shape.HardwareCommand.decode (writeHardware c) = .ok (rawHardware c) := by
  let ms := hardwareSlots c
  have distinct := (hardwareSlots_ordered c).distinct
  have stem : stemField.Yields (ms.value? "stem") c.stem := rfl
  have description : descriptionField.Yields (ms.value? "description")
    c.annotations.description := yields_text "description" _
  have metadata : metadataField.Yields (ms.value? "metadata") c.annotations.metadata :=
    yields_map "metadata" _
  have accepted : ms.Accepted hardwareRecord.fields :=
    Slots.accepted_cons stem <| Slots.accepted_cons description <|
    Slots.accepted_cons metadata <| Slots.accepted_nil ms
  rw [writeHardware_eq]
  refine (Record.decode_object distinct accepted).trans ?_
  rw [Slots.get_eq distinct stem, Slots.get_eq distinct description,
    Slots.get_eq distinct metadata]
  rfl

def immediateSlots (c : ImmediateCommand) : Slots := [
  ("args", if (writeArguments c.arguments).isEmpty then none
    else some (.array (writeArguments c.arguments))),
  ("description", c.annotations.description.map .string),
  ("metadata", if c.annotations.metadata.isEmpty then none
    else some (.object c.annotations.metadata)),
  ("stem", some (.string c.stem))]

theorem immediateSlots_ordered (c : ImmediateCommand) : (immediateSlots c).Ordered :=
  (by decide : ["args", "description", "metadata", "stem"].Pairwise (· < ·))

theorem writeImmediate_eq (c : ImmediateCommand) :
    writeImmediate c = .object (immediateSlots c).object := by
  simp only [writeImmediate, nonemptyList_eq_field, optionalText_eq_field, nonemptyMap_eq_field,
    member_eq_field]
  rfl

/-- The record of an immediate command. -/
def rawImmediate (c : ImmediateCommand) : Shape.ImmediateCommand :=
  ⟨c.stem, writeArguments c.arguments, c.annotations.description, c.annotations.metadata⟩

theorem decode_writeImmediate (c : ImmediateCommand) :
    Shape.ImmediateCommand.decode (writeImmediate c) = .ok (rawImmediate c) := by
  let ms := immediateSlots c
  have distinct := (immediateSlots_ordered c).distinct
  have stem : stemField.Yields (ms.value? "stem") c.stem := rfl
  have args : argsField.Yields (ms.value? "args") (writeArguments c.arguments) :=
    yields_list "args" _
  have description : descriptionField.Yields (ms.value? "description")
    c.annotations.description := yields_text "description" _
  have metadata : metadataField.Yields (ms.value? "metadata") c.annotations.metadata :=
    yields_map "metadata" _
  have accepted : ms.Accepted immediateRecord.fields :=
    Slots.accepted_cons stem <| Slots.accepted_cons args <| Slots.accepted_cons description <|
    Slots.accepted_cons metadata <| Slots.accepted_nil ms
  rw [writeImmediate_eq]
  refine (Record.decode_object distinct accepted).trans ?_
  rw [Slots.get_eq distinct stem, Slots.get_eq distinct args,
    Slots.get_eq distinct description, Slots.get_eq distinct metadata]
  rfl

def groundEpochSlots (g : SeqScript.GroundEpoch) : Slots :=
  [("delta", g.delta.map .string), ("name", g.name.map .string)]

theorem groundEpochSlots_ordered (g : SeqScript.GroundEpoch) : (groundEpochSlots g).Ordered :=
  (by decide : ["delta", "name"].Pairwise (· < ·))

theorem groundEpochMembers_eq (g : SeqScript.GroundEpoch) :
    groundEpochMembers g = (groundEpochSlots g).object := by
  simp only [groundEpochMembers, optionalText_eq_field]
  rfl

/-- The record of a ground epoch. -/
def rawGroundEpoch (g : SeqScript.GroundEpoch) : Shape.GroundEpoch := ⟨g.name, g.delta⟩

theorem decode_groundEpochMembers (g : SeqScript.GroundEpoch) :
    Shape.GroundEpoch.decode (.object (groundEpochMembers g)) = .ok (rawGroundEpoch g) := by
  let ms := groundEpochSlots g
  have distinct := (groundEpochSlots_ordered g).distinct
  have name : epochNameField.Yields (ms.value? "name") g.name := yields_text "name" _
  have delta : deltaField.Yields (ms.value? "delta") g.delta := yields_text "delta" _
  have accepted : ms.Accepted groundEpochRecord.fields :=
    Slots.accepted_cons name <| Slots.accepted_cons delta <| Slots.accepted_nil ms
  rw [groundEpochMembers_eq]
  refine (Record.decode_object distinct accepted).trans ?_
  rw [Slots.get_eq distinct name, Slots.get_eq distinct delta]
  rfl

def requestSlots (r : SeqScript.Request) : Slots := [
  ("description", r.annotations.description.map .string),
  ("ground_epoch", r.groundEpoch.map fun g => .object (groundEpochMembers g)),
  ("metadata", if r.annotations.metadata.isEmpty then none
    else some (.object r.annotations.metadata)),
  ("name", some (.string r.name)), ("steps", some (.array (r.steps.map writeStep))),
  ("type", some (.string requestTypeName))]

theorem requestSlots_ordered (r : SeqScript.Request) : (requestSlots r).Ordered :=
  (by decide : ["description", "ground_epoch", "metadata", "name", "steps",
    "type"].Pairwise (· < ·))

theorem writeRequest_eq (r : SeqScript.Request) :
    writeRequest r = .object (requestSlots r).object := by
  have epoch : (r.groundEpoch.map fun g => ("ground_epoch", Json.object (groundEpochMembers g))) =
      field "ground_epoch" (r.groundEpoch.map fun g => .object (groundEpochMembers g)) := by
    cases r.groundEpoch <;> rfl
  simp only [writeRequest, optionalText_eq_field, nonemptyMap_eq_field, member_eq_field, epoch]
  rfl

/-- The record of a request. -/
def rawRequest (r : SeqScript.Request) : Shape.Request where
  name := r.name
  type := some requestTypeName
  steps := r.steps.map writeStep
  description := r.annotations.description
  groundEpoch := r.groundEpoch.map rawGroundEpoch
  metadata := r.annotations.metadata

theorem decode_writeRequest (r : SeqScript.Request) :
    Shape.Request.decode (writeRequest r) = .ok (rawRequest r) := by
  let ms := requestSlots r
  have distinct := (requestSlots_ordered r).distinct
  have name : nameField.Yields (ms.value? "name") r.name := rfl
  have type : requestTypeField.Yields (ms.value? "type") (some requestTypeName) := rfl
  have steps : requestStepsField.Yields (ms.value? "steps") (r.steps.map writeStep) := rfl
  have description : descriptionField.Yields (ms.value? "description")
    r.annotations.description := yields_text "description" _
  have groundEpoch : groundEpochField.Yields (ms.value? "ground_epoch")
      (r.groundEpoch.map rawGroundEpoch) :=
    yields_optional (fun g _ => decode_groundEpochMembers g) fun _ => Json.noConfusion
  have metadata : metadataField.Yields (ms.value? "metadata") r.annotations.metadata :=
    yields_map "metadata" _
  have accepted : ms.Accepted requestRecord.fields :=
    Slots.accepted_cons name <| Slots.accepted_cons type <| Slots.accepted_cons steps <|
    Slots.accepted_cons description <| Slots.accepted_cons groundEpoch <|
    Slots.accepted_cons metadata <| Slots.accepted_nil ms
  rw [writeRequest_eq]
  refine (Record.decode_object distinct accepted).trans ?_
  rw [Slots.get_eq distinct name, Slots.get_eq distinct type, Slots.get_eq distinct steps,
    Slots.get_eq distinct description, Slots.get_eq distinct groundEpoch,
    Slots.get_eq distinct metadata]
  rfl

/-! ### Sequences -/

def sequenceSlots (s : SeqScript.Sequence) : Slots := [
  ("hardware_commands", s.hardwareCommands.map fun as => .array (as.map writeHardware)),
  ("id", some (.string s.id)),
  ("immediate_commands", s.immediateCommands.map fun as => .array (as.map writeImmediate)),
  ("locals", s.locals.map fun as => .array (as.map writeVariable)),
  ("metadata", some (.object s.metadata)),
  ("parameters", s.parameters.map fun as => .array (as.map writeVariable)),
  ("requests", s.requests.map fun as => .array (as.map writeRequest)),
  ("steps", s.steps.map fun as => .array (as.map writeStep))]

theorem sequenceSlots_ordered (s : SeqScript.Sequence) : (sequenceSlots s).Ordered :=
  (by decide : ["hardware_commands", "id", "immediate_commands", "locals", "metadata",
    "parameters", "requests", "steps"].Pairwise (· < ·))

theorem write_eq (s : SeqScript.Sequence) : write s = .object (sequenceSlots s).object := by
  simp only [write, optionalList_eq_field, member_eq_field]
  rfl

/-- The record of a sequence. -/
def rawSequence (s : SeqScript.Sequence) : Shape.Sequence where
  id := s.id
  metadata := s.metadata
  locals := s.locals.map (·.map writeVariable)
  parameters := s.parameters.map (·.map writeVariable)
  hardwareCommands := s.hardwareCommands.map (·.map writeHardware)
  immediateCommands := s.immediateCommands.map (·.map writeImmediate)
  steps := s.steps.map (·.map writeStep)
  requests := s.requests.map (·.map writeRequest)

theorem yields_items {α : Type} (name : String) (write : α → Json) (o : Option (List α)) :
    (optional name .list).Yields (o.map fun as => .array (as.map write))
      (o.map (·.map write)) :=
  yields_optional (fun _ _ => rfl) fun _ => Json.noConfusion

/-- The document of a sequence has the record of the sequence. -/
theorem decode_write (s : SeqScript.Sequence) :
    Shape.Sequence.decode (write s) = .ok (rawSequence s) := by
  let ms := sequenceSlots s
  have distinct := (sequenceSlots_ordered s).distinct
  have id : idField.Yields (ms.value? "id") s.id := rfl
  have metadata : sequenceMetadataField.Yields (ms.value? "metadata") s.metadata := rfl
  have locals : localsField.Yields (ms.value? "locals") (s.locals.map (·.map writeVariable)) :=
    yields_items "locals" _ _
  have parameters : parametersField.Yields (ms.value? "parameters")
    (s.parameters.map (·.map writeVariable)) := yields_items "parameters" _ _
  have hardware : hardwareField.Yields (ms.value? "hardware_commands")
    (s.hardwareCommands.map (·.map writeHardware)) := yields_items "hardware_commands" _ _
  have immediate : immediateField.Yields (ms.value? "immediate_commands")
    (s.immediateCommands.map (·.map writeImmediate)) := yields_items "immediate_commands" _ _
  have steps : stepsField.Yields (ms.value? "steps") (s.steps.map (·.map writeStep)) :=
    yields_items "steps" _ _
  have requests : requestsField.Yields (ms.value? "requests")
    (s.requests.map (·.map writeRequest)) := yields_items "requests" _ _
  have accepted : ms.Accepted sequenceRecord.fields :=
    Slots.accepted_cons id <| Slots.accepted_cons metadata <| Slots.accepted_cons locals <|
    Slots.accepted_cons parameters <| Slots.accepted_cons hardware <|
    Slots.accepted_cons immediate <| Slots.accepted_cons steps <|
    Slots.accepted_cons requests <| Slots.accepted_nil ms
  rw [write_eq]
  refine (Record.decode_object distinct accepted).trans ?_
  rw [Slots.get_eq distinct id, Slots.get_eq distinct metadata, Slots.get_eq distinct locals,
    Slots.get_eq distinct parameters, Slots.get_eq distinct hardware,
    Slots.get_eq distinct immediate, Slots.get_eq distinct steps, Slots.get_eq distinct requests]
  rfl

end SeqScript.Document
