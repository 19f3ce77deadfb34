import SeqScript.Proofs.Document.Decoding
import SeqScript.Proofs.Model.WellFormed

/-!
# What an accepted document says

Every stage of the reader is taken apart once: an outcome that is no fault tells what each part was
read from.  Down to records this is said by the fields (`StepFields`, `SequenceFields`), and from
records on by the parts of the model (`StepParts`, `SequenceParts`).
-/

namespace SeqScript.Document

open Checked

variable {α β : Type}

/-! ### Outcomes -/

theorem under_eq_ok {segment : Segment} {x : Checked α} {a : α} :
    x.under segment = .ok a ↔ x = .ok a := by
  rcases x with e | b
  · simp [under]
  · simp [under]

theorem shaped_eq_ok {x : Shaped α} {a : α} : shaped x = .ok a ↔ x = .ok a := by
  rcases x with m | b
  · simp [shaped, fail]
  · simp [shaped]

theorem timed_eq_ok {x : Except TimeError α} {a : α} : timed x = .ok a ↔ x = .ok a := by
  rcases x with e | b
  · simp [timed, fail]
  · simp [timed]

theorem identified_eq_ok {id : Option String} {x : Checked α} {a : α} :
    identified id x = .ok a ↔ x = .ok a := by
  rcases x with e | b
  · simp [identified]
  · simp [identified]

theorem fail_ne_ok {fault : Fault} {a : α} : (fail fault : Checked α) ≠ .ok a := nofun

theorem failIn_ne_ok {fault : Fault} {name : String} {a : α} :
    (fail fault : Checked α).inField name ≠ .ok a := nofun

/-! ### Lists -/

theorem readFrom_cons_eq_ok {read : Json → Checked α} {i : Nat} {v : Json} {vs : List Json}
    {as : List α} : readFrom read i (v :: vs) = .ok as ↔
      ∃ a rest, read v = .ok a ∧ readFrom read (i + 1) vs = .ok rest ∧ a :: rest = as := by
  rw [readFrom, bind_eq_ok]
  simp only [atIndex, under_eq_ok, bind_eq_ok]
  constructor
  · rintro ⟨a, first, rest, later, same⟩
    exact ⟨a, rest, first, later, Except.ok.inj same⟩
  · rintro ⟨a, rest, first, later, rfl⟩
    exact ⟨a, first, rest, later, rfl⟩

theorem readOptional_eq_some {read : α → Checked β} {o : Option α} {b : β}
    (h : readOptional read o = .ok (some b)) : ∃ a ∈ o, read a = .ok b := by
  rcases o with _ | a
  · exact absurd (Except.ok.inj h) nofun
  · obtain ⟨b', found, same⟩ := map_eq_ok.1 h
    obtain rfl := Option.some.inj same
    exact ⟨a, rfl, found⟩

/-! ### Arguments -/

namespace Gathered

variable {g g' : Gathered} {a : Argument}

/-- A positional item joins no names. -/
theorem add_none_eq_ok : g.add (none, a) = .ok g' ↔
    g.named = [] ∧ ⟨a :: g.positional, g.named⟩ = g' := by
  rw [← List.isEmpty_iff, add]
  split_ifs with empty
  · simp [empty]
  · simp [empty, fail]

/-- A name joins no positional items, and no names that it is one of. -/
theorem add_some_eq_ok {name : String} : g.add (some name, a) = .ok g' ↔
    name ∉ g.named.map (·.1) ∧ g.positional = [] ∧ ⟨g.positional, (name, a) :: g.named⟩ = g' := by
  have seen : g.named.any (·.1 == name) = true ↔ name ∈ g.named.map (·.1) := by
    simp only [List.any_eq_true, beq_iff_eq, List.mem_map]
  rw [← List.isEmpty_iff, add]
  split_ifs with repeated empty
  · exact iff_of_false failIn_ne_ok fun h => h.1 (seen.1 repeated)
  · simp [empty, mt seen.2 repeated]
  · exact iff_of_false fail_ne_ok fun h => empty h.2.1

end Gathered

/-- The parts of an item that is read from an object. -/
theorem readItem_object {ms : Members} {item : Option String × Argument} :
    readItem (.object ms) = .ok item ↔ checkKeys ms = .ok () ∧
      typedArgument ms (fun _ => readValueMember ms) = .ok item.2 ∧
        argumentName ms = .ok item.1 := by
  rw [readItem]
  simp only [bind_eq_ok]
  constructor
  · rintro ⟨_, keys, a, value, name, named, made⟩
    obtain rfl := Except.ok.inj made
    exact ⟨keys, value, named⟩
  · rintro ⟨keys, value, named⟩
    exact ⟨(), keys, item.2, value, item.1, named, rfl⟩

theorem readItems_cons_eq_ok {i : Nat} {g g' : Gathered} {v : Json} {vs : List Json} :
    readItems i g (v :: vs) = .ok g' ↔ ∃ item next, readItem v = .ok item ∧
      g.add item = .ok next ∧ readItems (i + 1) next vs = .ok g' := by
  rw [readItems]
  simp only [bind_eq_ok, atIndex, under_eq_ok]
  constructor
  · rintro ⟨item, read, next, added, rest⟩
    exact ⟨item, next, read, added, rest⟩
  · rintro ⟨item, next, read, added, rest⟩
    exact ⟨item, read, next, added, rest⟩

/-! ### Records -/

theorem decode_eq_ok {r : Record} {build : Entries → Shaped α} {v : Json} {a : α}
    (h : r.decode build v = .ok a) : ∃ e, r.entries v = .ok e ∧ build e = .ok a := by
  unfold Record.decode at h
  split at h
  · contradiction
  · rename_i e entries
    split at h
    · contradiction
    · split at h
      · contradiction
      · rename_i b built
        obtain ⟨_, -, rfl⟩ := map_eq_ok.1 h
        exact ⟨e, entries, built⟩

/-- The parts of a sequence come from the fields of its record. -/
structure SequenceFields (e : Entries) (raw : Shape.Sequence) : Prop where
  id : e.get Shape.idField = .ok raw.id
  metadata : e.get Shape.sequenceMetadataField = .ok raw.metadata
  locals : e.get Shape.localsField = .ok raw.locals
  parameters : e.get Shape.parametersField = .ok raw.parameters
  hardwareCommands : e.get Shape.hardwareField = .ok raw.hardwareCommands
  immediateCommands : e.get Shape.immediateField = .ok raw.immediateCommands
  steps : e.get Shape.stepsField = .ok raw.steps
  requests : e.get Shape.requestsField = .ok raw.requests

theorem sequenceFields_of_decode {v : Json} {raw : Shape.Sequence}
    (h : Shape.Sequence.decode v = .ok raw) :
    ∃ e, Shape.sequenceRecord.entries v = .ok e ∧ SequenceFields e raw := by
  obtain ⟨e, entries, h⟩ := decode_eq_ok h
  obtain ⟨_, id, h⟩ := bind_eq_ok.1 h
  obtain ⟨_, metadata, h⟩ := bind_eq_ok.1 h
  obtain ⟨_, locals, h⟩ := bind_eq_ok.1 h
  obtain ⟨_, parameters, h⟩ := bind_eq_ok.1 h
  obtain ⟨_, hardwareCommands, h⟩ := bind_eq_ok.1 h
  obtain ⟨_, immediateCommands, h⟩ := bind_eq_ok.1 h
  obtain ⟨_, steps, h⟩ := bind_eq_ok.1 h
  obtain ⟨_, requests, h⟩ := bind_eq_ok.1 h
  obtain rfl := Except.ok.inj h
  exact ⟨e, entries, id, metadata, locals, parameters, hardwareCommands, immediateCommands, steps,
    requests⟩

theorem hardwareFields_of_decode {v : Json} {raw : Shape.HardwareCommand}
    (h : Shape.HardwareCommand.decode v = .ok raw) :
    ∃ e, Shape.hardwareRecord.entries v = .ok e ∧ e.get Shape.stemField = .ok raw.stem ∧
      e.get Shape.descriptionField = .ok raw.description ∧
        e.get Shape.metadataField = .ok raw.metadata := by
  obtain ⟨e, entries, h⟩ := decode_eq_ok h
  obtain ⟨_, stem, h⟩ := bind_eq_ok.1 h
  obtain ⟨_, description, h⟩ := bind_eq_ok.1 h
  obtain ⟨_, metadata, h⟩ := bind_eq_ok.1 h
  obtain rfl := Except.ok.inj h
  exact ⟨e, entries, stem, description, metadata⟩

theorem immediateFields_of_decode {v : Json} {raw : Shape.ImmediateCommand}
    (h : Shape.ImmediateCommand.decode v = .ok raw) :
    ∃ e, Shape.immediateRecord.entries v = .ok e ∧ e.get Shape.stemField = .ok raw.stem ∧
      e.get Shape.argsField = .ok raw.args ∧
        e.get Shape.descriptionField = .ok raw.description ∧
          e.get Shape.metadataField = .ok raw.metadata := by
  obtain ⟨e, entries, h⟩ := decode_eq_ok h
  obtain ⟨_, stem, h⟩ := bind_eq_ok.1 h
  obtain ⟨_, args, h⟩ := bind_eq_ok.1 h
  obtain ⟨_, description, h⟩ := bind_eq_ok.1 h
  obtain ⟨_, metadata, h⟩ := bind_eq_ok.1 h
  obtain rfl := Except.ok.inj h
  exact ⟨e, entries, stem, args, description, metadata⟩

/-- The parts of a request come from the fields of its record. -/
structure RequestFields (e : Entries) (raw : Shape.Request) : Prop where
  name : e.get Shape.nameField = .ok raw.name
  type : e.get Shape.requestTypeField = .ok raw.type
  steps : e.get Shape.requestStepsField = .ok raw.steps
  description : e.get Shape.descriptionField = .ok raw.description
  groundEpoch : e.get Shape.groundEpochField = .ok raw.groundEpoch
  metadata : e.get Shape.metadataField = .ok raw.metadata

theorem requestFields_of_decode {v : Json} {raw : Shape.Request}
    (h : Shape.Request.decode v = .ok raw) :
    ∃ e, Shape.requestRecord.entries v = .ok e ∧ RequestFields e raw := by
  obtain ⟨e, entries, h⟩ := decode_eq_ok h
  obtain ⟨_, name, h⟩ := bind_eq_ok.1 h
  obtain ⟨_, type, h⟩ := bind_eq_ok.1 h
  obtain ⟨_, steps, h⟩ := bind_eq_ok.1 h
  obtain ⟨_, description, h⟩ := bind_eq_ok.1 h
  obtain ⟨_, groundEpoch, h⟩ := bind_eq_ok.1 h
  obtain ⟨_, metadata, h⟩ := bind_eq_ok.1 h
  obtain rfl := Except.ok.inj h
  exact ⟨e, entries, name, type, steps, description, groundEpoch, metadata⟩

/-! ### Records of steps -/

/-- The time in the record of a step; a ground block has none. -/
def stepTime? : Shape.Step → Option (Option Shape.Time)
  | .command raw => some raw.time
  | .groundEvent raw => some raw.time
  | .groundBlock _ => none
  | .activate raw => some raw.time
  | .load raw => some raw.time

def stepArgs : Shape.Step → List Json
  | .command raw => raw.args
  | .groundEvent raw => raw.args
  | .groundBlock raw => raw.args
  | .activate raw => raw.args
  | .load raw => raw.args

/-- The metadata in the record of a step. -/
def stepMetadata : Shape.Step → Members
  | .command raw => raw.metadata
  | .groundEvent raw => raw.metadata
  | .groundBlock raw => raw.metadata
  | .activate raw => raw.metadata
  | .load raw => raw.metadata

/-- The models in the record of a step; only calls have them. -/
def stepModels : Shape.Step → List Shape.Model
  | .activate raw => raw.models
  | .load raw => raw.models
  | _ => []

/-- The parts that steps share come from the fields of the record. -/
structure StepFields (e : Entries) (raw : Shape.Step) : Prop where
  time : ∀ time ∈ stepTime? raw, e.get Shape.timeField = .ok time
  args : e.get Shape.argsField = .ok (stepArgs raw)
  metadata : e.get Shape.metadataField = .ok (stepMetadata raw)
  models : stepModels raw = [] ∨ e.get Shape.modelsField = .ok (stepModels raw)

theorem stepFields_of_command {v : Json} {raw : Shape.Command}
    (h : Shape.Command.decode v = .ok raw) :
    ∃ e, Shape.commandRecord.entries v = .ok e ∧ StepFields e (.command raw) := by
  obtain ⟨e, entries, h⟩ := decode_eq_ok h
  obtain ⟨_, -, h⟩ := bind_eq_ok.1 h
  obtain ⟨time, found, h⟩ := bind_eq_ok.1 h
  obtain ⟨_, args, h⟩ := bind_eq_ok.1 h
  obtain ⟨_, -, h⟩ := bind_eq_ok.1 h
  obtain ⟨_, metadata, h⟩ := bind_eq_ok.1 h
  obtain rfl := Except.ok.inj h
  refine ⟨e, entries, { args, metadata, models := .inl rfl, time := ?_ }⟩
  rintro _ ⟨⟩
  exact found

theorem stepFields_of_groundEvent {v : Json} {raw : Shape.GroundEvent}
    (h : Shape.GroundEvent.decode v = .ok raw) :
    ∃ e, Shape.groundEventRecord.entries v = .ok e ∧ StepFields e (.groundEvent raw) := by
  obtain ⟨e, entries, h⟩ := decode_eq_ok h
  obtain ⟨_, -, h⟩ := bind_eq_ok.1 h
  obtain ⟨time, found, h⟩ := bind_eq_ok.1 h
  obtain ⟨_, args, h⟩ := bind_eq_ok.1 h
  obtain ⟨_, -, h⟩ := bind_eq_ok.1 h
  obtain ⟨_, metadata, h⟩ := bind_eq_ok.1 h
  obtain rfl := Except.ok.inj h
  refine ⟨e, entries, { args, metadata, models := .inl rfl, time := ?_ }⟩
  rintro _ ⟨⟩
  exact found

theorem stepFields_of_groundBlock {v : Json} {raw : Shape.GroundBlock}
    (h : Shape.GroundBlock.decode v = .ok raw) :
    ∃ e, Shape.groundBlockRecord.entries v = .ok e ∧ StepFields e (.groundBlock raw) := by
  obtain ⟨e, entries, h⟩ := decode_eq_ok h
  obtain ⟨_, -, h⟩ := bind_eq_ok.1 h
  obtain ⟨_, args, h⟩ := bind_eq_ok.1 h
  obtain ⟨_, -, h⟩ := bind_eq_ok.1 h
  obtain ⟨_, metadata, h⟩ := bind_eq_ok.1 h
  obtain rfl := Except.ok.inj h
  exact ⟨e, entries, { args, metadata, models := .inl rfl, time := nofun }⟩

/-- Both kinds of call have the same fields. -/
theorem stepFields_of_call {v : Json} {raw : Shape.SequenceCall}
    (h : Shape.SequenceCall.decode v = .ok raw) :
    ∃ e, Shape.callRecord.entries v = .ok e ∧ StepFields e (.activate raw) ∧
      StepFields e (.load raw) := by
  obtain ⟨e, entries, h⟩ := decode_eq_ok h
  obtain ⟨_, -, h⟩ := bind_eq_ok.1 h
  obtain ⟨time, found, h⟩ := bind_eq_ok.1 h
  obtain ⟨_, args, h⟩ := bind_eq_ok.1 h
  obtain ⟨_, -, h⟩ := bind_eq_ok.1 h
  obtain ⟨_, metadata, h⟩ := bind_eq_ok.1 h
  obtain ⟨_, -, h⟩ := bind_eq_ok.1 h
  obtain ⟨_, -, h⟩ := bind_eq_ok.1 h
  obtain ⟨_, models, h⟩ := bind_eq_ok.1 h
  obtain rfl := Except.ok.inj h
  have times : ∀ t ∈ some time, e.get Shape.timeField = .ok t := by
    rintro _ ⟨⟩
    exact found
  exact ⟨e, entries, { time := times, args, metadata, models := .inr models },
    { time := times, args, metadata, models := .inr models }⟩

/-- A step comes from the fields of the record that its tag names. -/
theorem stepFields_of_decodeBody {tag body : Json} {raw : Shape.Step}
    (h : Shape.Step.decodeBody tag body = .ok raw) :
    ∃ (r : Record) (e : Entries), r.entries body = .ok e ∧ StepFields e raw := by
  unfold Shape.Step.decodeBody at h
  split at h
  · split at h
    · obtain ⟨_, decoded, rfl⟩ := map_eq_ok.1 h
      exact ⟨_, stepFields_of_command decoded⟩
    · obtain ⟨_, decoded, rfl⟩ := map_eq_ok.1 h
      exact ⟨_, stepFields_of_groundEvent decoded⟩
    · obtain ⟨_, decoded, rfl⟩ := map_eq_ok.1 h
      exact ⟨_, stepFields_of_groundBlock decoded⟩
    · obtain ⟨_, decoded, rfl⟩ := map_eq_ok.1 h
      obtain ⟨e, entries, activate, -⟩ := stepFields_of_call decoded
      exact ⟨_, e, entries, activate⟩
    · obtain ⟨_, decoded, rfl⟩ := map_eq_ok.1 h
      obtain ⟨e, entries, -, load⟩ := stepFields_of_call decoded
      exact ⟨_, e, entries, load⟩
    · contradiction
  · contradiction

/-! ### Steps -/

theorem tagged_eq_ok {read : String → Except TimeError α} {raw : Shape.Time} {a : α} :
    tagged read raw = .ok a ↔ ∃ tag, raw.tag = some tag ∧ read tag = .ok a := by
  unfold tagged
  rcases raw.tag with _ | tag
  · exact iff_of_false failIn_ne_ok nofun
  · simp only [inField, under_eq_ok, timed_eq_ok, Option.some.injEq, exists_eq_left']

theorem modelOf_eq_ok {raw : Shape.Model} {m : ModelAssignment} : modelOf raw = .ok m ↔
    Duration.read raw.offset = .ok m.offset ∧ literal? raw.value = some m.value ∧
      raw.variableName = m.variableName := by
  rw [modelOf, bind_eq_ok]
  simp only [inField, under_eq_ok, timed_eq_ok]
  rcases literal? raw.value with _ | value
  · exact iff_of_false (fun ⟨_, _, h⟩ => failIn_ne_ok h) fun h => nomatch h.2.1
  · constructor
    · rintro ⟨offset, read, made⟩
      obtain rfl := Except.ok.inj made
      exact ⟨read, rfl, rfl⟩
    · rintro ⟨read, same, named⟩
      obtain rfl := Option.some.inj same
      refine ⟨m.offset, read, ?_⟩
      rw [named]
      rfl

theorem modelsFrom_cons_eq_ok {i : Nat} {raw : Shape.Model} {raws : List Shape.Model}
    {ms : List ModelAssignment} : modelsFrom i (raw :: raws) = .ok ms ↔
      ∃ m rest, modelOf raw = .ok m ∧ modelsFrom (i + 1) raws = .ok rest ∧ m :: rest = ms := by
  rw [modelsFrom, bind_eq_ok]
  simp only [atIndex, under_eq_ok, bind_eq_ok]
  constructor
  · rintro ⟨m, first, rest, later, same⟩
    exact ⟨m, rest, first, later, Except.ok.inj same⟩
  · rintro ⟨m, rest, first, later, rfl⟩
    exact ⟨m, first, rest, later, rfl⟩

/-- The parts that steps share, and what they are read from. -/
structure StepParts (raw : Shape.Step) (x : Step) : Prop where
  models : modelsFrom 0 (stepModels raw) = .ok x.models
  timing : readOptional timingOf (stepTime? raw) = .ok x.timing?
  arguments : argumentsOf (stepArgs raw) = .ok x.arguments
  metadata : x.annotations.metadata = stepMetadata raw

theorem stepParts_of_callOf {raw : Shape.SequenceCall} {s : SequenceCall}
    (h : callOf raw = .ok s) :
    StepParts (.activate raw) (.activate s) ∧ StepParts (.load raw) (.load s) := by
  unfold callOf at h
  obtain ⟨_, models, h⟩ := bind_eq_ok.1 h
  obtain ⟨_, time, h⟩ := bind_eq_ok.1 h
  obtain ⟨_, arguments, h⟩ := bind_eq_ok.1 h
  obtain rfl := Except.ok.inj h
  replace models := under_eq_ok.1 models
  have timing : readOptional timingOf (some raw.time) = .ok (some _) :=
    map_eq_ok.2 ⟨_, time, rfl⟩
  exact ⟨{ models, timing, arguments, metadata := rfl },
    { models, timing, arguments, metadata := rfl }⟩

theorem stepParts_of_stepOf {raw : Shape.Step} {x : Step} (h : stepOf raw = .ok x) :
    StepParts raw x := by
  unfold stepOf at h
  split at h
  · obtain ⟨_, time, h⟩ := bind_eq_ok.1 h
    obtain ⟨_, arguments, h⟩ := bind_eq_ok.1 h
    obtain rfl := Except.ok.inj h
    exact { models := rfl, timing := map_eq_ok.2 ⟨_, time, rfl⟩, arguments, metadata := rfl }
  · obtain ⟨_, time, h⟩ := bind_eq_ok.1 h
    obtain ⟨_, arguments, h⟩ := bind_eq_ok.1 h
    obtain rfl := Except.ok.inj h
    exact { models := rfl, timing := map_eq_ok.2 ⟨_, time, rfl⟩, arguments, metadata := rfl }
  · obtain ⟨_, arguments, h⟩ := bind_eq_ok.1 h
    obtain rfl := Except.ok.inj h
    exact { models := rfl, timing := rfl, arguments, metadata := rfl }
  · obtain ⟨_, call, rfl⟩ := map_eq_ok.1 h
    exact (stepParts_of_callOf call).1
  · obtain ⟨_, call, rfl⟩ := map_eq_ok.1 h
    exact (stepParts_of_callOf call).2

/-! ### Commands without a time and requests -/

theorem readImmediate_eq_ok {v : Json} {c : ImmediateCommand} : readImmediate v = .ok c ↔
    ∃ raw, Shape.ImmediateCommand.decode v = .ok raw ∧
      argumentsOf raw.args = .ok c.arguments ∧ (c.arguments.isEmpty ∨ c.arguments.isNamed) ∧
        ⟨raw.stem, c.arguments, ⟨raw.description, raw.metadata⟩⟩ = c := by
  rw [readImmediate]
  simp only [bind_eq_ok, shaped_eq_ok]
  constructor
  · rintro ⟨raw, decoded, a, args, made⟩
    split_ifs at made with form
    · obtain rfl := Except.ok.inj made
      exact ⟨raw, decoded, args, by simpa using form, rfl⟩
    · exact absurd made failIn_ne_ok
  · rintro ⟨raw, decoded, args, form, same⟩
    refine ⟨raw, decoded, c.arguments, args, ?_⟩
    rw [if_pos (Bool.or_eq_true_iff.2 form)]
    exact congrArg Except.ok same

theorem readRequest_eq_ok {v : Json} {r : Request} : readRequest v = .ok r ↔
    ∃ raw, Shape.Request.decode v = .ok raw ∧ checkRequestType raw.type = .ok () ∧
      readFrom readStep 0 raw.steps = .ok r.steps ∧
        ⟨raw.name, r.steps, raw.groundEpoch.map fun g => ⟨g.name, g.delta⟩,
          ⟨raw.description, raw.metadata⟩⟩ = r := by
  rw [readRequest]
  simp only [bind_eq_ok, shaped_eq_ok, readList, inField, under_eq_ok]
  constructor
  · rintro ⟨raw, decoded, _, type, steps, items, made⟩
    obtain rfl := Except.ok.inj made
    exact ⟨raw, decoded, type, items, rfl⟩
  · rintro ⟨raw, decoded, type, items, same⟩
    exact ⟨raw, decoded, (), type, r.steps, items, congrArg Except.ok same⟩

/-! ### Declarations -/

theorem readVariable_eq_ok {kind : VariableKind} {seen : List String} {v : Json} {x : Variable} :
    readVariable kind seen v = .ok x ↔ ∃ raw, Shape.Variable.decode v = .ok raw ∧
      raw.name ∉ seen ∧ variableType raw.type raw.enumName = .ok x.type ∧
        ⟨some kind, x.type, raw.name, ⟨raw.ranges, raw.values, raw.scName⟩⟩ = x := by
  rw [readVariable]
  simp only [bind_eq_ok, shaped_eq_ok]
  constructor
  · rintro ⟨raw, decoded, made⟩
    split_ifs at made with repeated
    · exact absurd made failIn_ne_ok
    · obtain ⟨type, typed, made⟩ := bind_eq_ok.1 made
      obtain rfl := Except.ok.inj made
      exact ⟨raw, decoded, fun mem => repeated (List.contains_iff_mem.2 mem), typed, rfl⟩
  · rintro ⟨raw, decoded, fresh, typed, same⟩
    refine ⟨raw, decoded, ?_⟩
    rw [if_neg fun mem => fresh (List.contains_iff_mem.1 mem), typed, ok_bind]
    exact congrArg Except.ok same

theorem readVariablesFrom_cons_eq_ok {kind : VariableKind} {i : Nat} {seen : List String}
    {v : Json} {vs : List Json} {xs : List Variable} :
    readVariablesFrom kind i seen (v :: vs) = .ok xs ↔ ∃ x rest,
      readVariable kind seen v = .ok x ∧
        readVariablesFrom kind (i + 1) (x.name :: seen) vs = .ok rest ∧ x :: rest = xs := by
  rw [readVariablesFrom, bind_eq_ok]
  simp only [atIndex, under_eq_ok, bind_eq_ok]
  constructor
  · rintro ⟨x, first, rest, later, same⟩
    exact ⟨x, rest, first, later, Except.ok.inj same⟩
  · rintro ⟨x, rest, first, later, rfl⟩
    exact ⟨x, first, rest, later, rfl⟩

/-! ### Sequences -/

theorem readDeclarations_eq_ok {raw : Shape.Sequence} {d : Declarations} :
    readDeclarations raw = .ok d ↔
      readOptional (readVariables .locals) raw.locals = .ok d.locals ∧
        readOptional (readVariables .parameters) raw.parameters = .ok d.parameters := by
  rw [readDeclarations]
  simp only [bind_eq_ok]
  constructor
  · rintro ⟨_, locals, _, parameters, made⟩
    obtain rfl := Except.ok.inj made
    exact ⟨locals, parameters⟩
  · rintro ⟨locals, parameters⟩
    exact ⟨_, locals, _, parameters, rfl⟩

/-- The parts of a sequence, and what they are read from. -/
structure SequenceParts (raw : Shape.Sequence) (s : Sequence) : Prop where
  id : s.id = raw.id
  metadata : s.metadata = raw.metadata
  locals : readOptional (readVariables .locals) raw.locals = .ok s.locals
  parameters : readOptional (readVariables .parameters) raw.parameters = .ok s.parameters
  hardwareCommands : readOptional (readList "hardware_commands" readHardware)
    raw.hardwareCommands = .ok s.hardwareCommands
  immediateCommands : readOptional (readList "immediate_commands" readImmediate)
    raw.immediateCommands = .ok s.immediateCommands
  steps : readOptional (readList "steps" readStep) raw.steps = .ok s.steps
  requests : readOptional (readList "requests" readRequest) raw.requests = .ok s.requests

theorem readDeclarations_bind_eq_ok {raw : Shape.Sequence} {s : Sequence} :
    readDeclarations raw >>= readBody raw = .ok s ↔ SequenceParts raw s := by
  rw [bind_eq_ok]
  constructor
  · rintro ⟨d, declarations, body⟩
    obtain ⟨locals, parameters⟩ := readDeclarations_eq_ok.1 declarations
    unfold readBody at body
    obtain ⟨_, hardwareCommands, body⟩ := bind_eq_ok.1 body
    obtain ⟨_, immediateCommands, body⟩ := bind_eq_ok.1 body
    obtain ⟨_, steps, body⟩ := bind_eq_ok.1 body
    obtain ⟨_, requests, body⟩ := bind_eq_ok.1 body
    obtain rfl := Except.ok.inj body
    exact ⟨rfl, rfl, locals, parameters, hardwareCommands, immediateCommands, steps, requests⟩
  · intro parts
    refine ⟨⟨s.locals, s.parameters⟩,
      readDeclarations_eq_ok.2 ⟨parts.locals, parts.parameters⟩, ?_⟩
    rw [readBody, parts.hardwareCommands, ok_bind, parts.immediateCommands, ok_bind, parts.steps,
      ok_bind, parts.requests, ok_bind, ← parts.id, ← parts.metadata]
    rfl

theorem value_readSequence (raw : Shape.Sequence) :
    (readSequence raw).value = readDeclarations raw >>= readBody raw := by
  unfold readSequence
  rcases readDeclarations raw with e | d <;> rfl

theorem value_read (doc : Json) : (read doc).value = match Shape.Sequence.decode doc with
    | .error m => identified none (fail (.shape m))
    | .ok raw => identified (some raw.id) (readDeclarations raw >>= readBody raw) := by
  rw [read]
  rcases Shape.Sequence.decode doc with m | raw
  · rfl
  · exact congrArg (identified (some raw.id)) (value_readSequence raw)

theorem value_read_eq_ok {doc : Json} {s : Sequence} :
    (read doc).value = .ok s ↔
      ∃ raw, Shape.Sequence.decode doc = .ok raw ∧ SequenceParts raw s := by
  rw [value_read]
  rcases Shape.Sequence.decode doc with m | raw
  · simp [identified, fail]
  · simp only [identified_eq_ok, readDeclarations_bind_eq_ok, Except.ok.injEq, exists_eq_left']

end SeqScript.Document
