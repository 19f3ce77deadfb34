import SeqScript.Proofs.Document.Injective
import SeqScript.Proofs.Json.Tree

/-!
# The order of named arguments in a document

The lists of arguments of a document whose items carry names are sorted by name, inside groups as
well (`sortDocument`); what else a document holds, its metadata among it, stays as it is.  The
sorted document of a sequence is the document of its canonical form (`canonical_sortDocument`), so
two sequences are equivalent exactly when their sorted documents are equal
(`equivalent_iff_sortDocument`).
-/

namespace SeqScript.Document

/-! ### Sorted documents -/

/-- The name that an item of a list of arguments carries. -/
def itemName? : Json → Option String
  | .object ms =>
    match Members.get? ms "name" with
    | some (.string name) => some name
    | _ => none
  | _ => none

/-- The order of items by the names they carry. -/
def itemLE (v w : Json) : Bool := decide ((itemName? v).getD "" ≤ (itemName? w).getD "")

/-- The items stably sorted by name, if each of them carries one. -/
def sortItems (items : List Json) : List Json :=
  if items.all fun v => (itemName? v).isSome then items.mergeSort itemLE else items

/-- The members are those of a group of arguments. -/
def isGroup (ms : Members) : Bool := ms.get? "type" = some (.string "repeat")

mutual

/-- A list of arguments sorted by name, with every list inside it. -/
def sortArguments : Json → Json
  | .array items => .array (sortItems (sortEach items))
  | v => v

def sortEach : List Json → List Json
  | [] => []
  | v :: vs => sortItem v :: sortEach vs

/-- An argument with the arguments of its group sorted. -/
def sortItem : Json → Json
  | .object ms => .object (sortValue (isGroup ms) ms)
  | v => v

def sortValue (group : Bool) : List (String × Json) → List (String × Json)
  | [] => []
  | (key, v) :: ms =>
    (key, if group ∧ key = "value" then sortArguments v else v) :: sortValue group ms

end

/-- The object with each value replaced according to its key. -/
def mapMembers (f : String → Json → Json) : Json → Json
  | .object ms => .object (ms.map fun m => (m.1, f m.1 m.2))
  | v => v

def mapItems (f : Json → Json) : Json → Json
  | .array items => .array (items.map f)
  | v => v

/-- A step or a command with its arguments sorted. -/
def sortStep : Json → Json := mapMembers fun key v => if key = "args" then sortArguments v else v

def sortRequest : Json → Json :=
  mapMembers fun key v => if key = "steps" then mapItems sortStep v else v

/-- The document with every list of named arguments sorted by name. -/
def sortDocument : Json → Json := mapMembers fun key v =>
  if key = "immediate_commands" ∨ key = "steps" then mapItems sortStep v
  else if key = "requests" then mapItems sortRequest v
  else v

/-! ### Items -/

theorem itemName?_canonical (v : Json) : itemName? v.canonical = itemName? v := by
  cases v with
  | object ms =>
    have found : Members.get? (Json.canonicalMembers ms) "name" =
        (Members.get? ms "name").map Json.canonical := by
      induction ms with
      | nil => rfl
      | cons m ms ih =>
        obtain ⟨key, v⟩ := m
        simp only [Json.canonicalMembers, Members.get?, List.lookup_cons] at ih ⊢
        split
        · rfl
        · exact ih
    simp only [Json.canonical, itemName?, found]
    cases Members.get? ms "name" with
    | none => rfl
    | some v => cases v <;> rfl
  | _ => rfl

/-- Canonical numbers leave the order of items as it is. -/
theorem map_canonical_sortItems (vs : List Json) :
    (sortItems vs).map Json.canonical = sortItems (vs.map Json.canonical) := by
  have order : ∀ v ∈ vs, ∀ w ∈ vs, itemLE v w = itemLE v.canonical w.canonical := by
    intro v _ w _
    simp only [itemLE, itemName?_canonical]
  have named : (vs.map Json.canonical).all (fun v => (itemName? v).isSome) =
      vs.all fun v => (itemName? v).isSome := by
    simp only [List.all_map, Function.comp_def, itemName?_canonical]
  rw [sortItems, sortItems, named]
  split
  · exact List.map_mergeSort order
  · rfl

theorem sortItems_nil : sortItems [] = [] := List.mergeSort_nil

theorem sortItems_writePositional (as : List Argument) :
    sortItems (writePositional as) = writePositional as := by
  cases as with
  | nil => exact sortItems_nil
  | cons a as => rfl

def writeNamedItem (e : String × Argument) : Json :=
  .object [("name", .string e.1), ("type", .string e.2.type.name), ("value", writeArgument e.2)]

theorem writeNamed_eq_map (es : List (String × Argument)) :
    writeNamed es = es.map writeNamedItem := by
  induction es with
  | nil => rfl
  | cons e es ih => exact congrArg (writeNamedItem e :: ·) ih

theorem itemName?_writeNamedItem (e : String × Argument) :
    itemName? (writeNamedItem e) = some e.1 := rfl

/-- Written entries are sorted as the entries are. -/
theorem sortItems_writeNamed (es : List (String × Argument)) :
    sortItems (writeNamed es) = writeNamed (sortByName es) := by
  have named : (es.map writeNamedItem).all fun v => (itemName? v).isSome := by
    simp [itemName?_writeNamedItem]
  have order : ∀ a ∈ es, ∀ b ∈ es, nameLE a b = itemLE (writeNamedItem a) (writeNamedItem b) :=
    fun _ _ _ _ => rfl
  rw [writeNamed_eq_map, writeNamed_eq_map, sortItems, if_pos named, sortByName_eq_mergeSort,
    List.map_mergeSort order]

/-! ### Arguments -/

theorem type_canonical (a : Argument) : a.canonical.type = a.type := by
  cases a with
  | literal l => cases l <;> rfl
  | symbol name => rfl
  | group a => rfl

theorem sortItem_positional (type : String) (v : Json) :
    sortItem (.object [("type", .string type), ("value", v)]) =
      .object [("type", .string type),
        ("value", if type = "repeat" then sortArguments v else v)] := by
  simp [sortItem, sortValue, isGroup, Members.get?]

theorem sortItem_named (name type : String) (v : Json) :
    sortItem (.object [("name", .string name), ("type", .string type), ("value", v)]) =
      .object [("name", .string name), ("type", .string type),
        ("value", if type = "repeat" then sortArguments v else v)] := by
  simp [sortItem, sortValue, isGroup, Members.get?, List.lookup_cons]

mutual

theorem canonical_value : ∀ a : Argument,
    (if a.type.name = "repeat" then sortArguments (writeArgument a)
      else writeArgument a).canonical = writeArgument a.canonical
  | .literal l => by cases l <;> rfl
  | .symbol _ => rfl
  | .group a => canonical_sortArguments a

/-- A written collection, sorted by name, is the collection written in canonical form. -/
theorem canonical_sortArguments : ∀ a : Arguments,
    (sortArguments (.array (writeArguments a))).canonical = .array (writeArguments a.canonical)
  | .positional as => by
    -- The items of a group are canonical before their list is sorted.
    rw [sortArguments, Json.canonical, Json.canonicalItems_eq_map, map_canonical_sortItems,
      writeArguments, map_canonical_sortEach_positional as, sortItems_writePositional]
    rfl
  | .named [] => by
    rw [sortArguments, writeArguments, writeNamed, sortEach, sortItems_nil]
    rfl
  | .named (e :: es) => by
    rw [sortArguments, Json.canonical, Json.canonicalItems_eq_map, map_canonical_sortItems,
      writeArguments, map_canonical_sortEach_named (e :: es), sortItems_writeNamed]
    rfl

theorem map_canonical_sortEach_positional : ∀ as : List Argument,
    (sortEach (writePositional as)).map Json.canonical =
      writePositional (Arguments.canonicalItems as)
  | [] => rfl
  | a :: as => by
    simp only [writePositional, sortEach, sortItem_positional, List.map_cons, Json.canonical,
      Json.canonicalMembers, Arguments.canonicalItems, type_canonical, canonical_value a,
      map_canonical_sortEach_positional as]

theorem map_canonical_sortEach_named : ∀ es : List (String × Argument),
    (sortEach (writeNamed es)).map Json.canonical = writeNamed (Arguments.canonicalNamed es)
  | [] => rfl
  | (name, a) :: es => by
    simp only [writeNamed, sortEach, sortItem_named, List.map_cons, Json.canonical,
      Json.canonicalMembers, Arguments.canonicalNamed, type_canonical, canonical_value a,
      map_canonical_sortEach_named es]

end

/-! ### Members -/

theorem Slots.map_object (f : String → Json → Json) (ms : Slots) :
    ms.object.map (fun m => (m.1, f m.1 m.2)) =
      Slots.object (ms.map fun m => (m.1, m.2.map (f m.1))) := by
  induction ms with
  | nil => rfl
  | cons m ms ih =>
    obtain ⟨key, v⟩ := m
    cases v with
    | none => exact ih
    | some v => exact congrArg ((key, f key v) :: ·) ih

theorem canonical_mapMembers (f : String → Json → Json) (ms : Slots) :
    (mapMembers f (.object ms.object)).canonical =
      .object (Slots.object (ms.map fun m => (m.1, m.2.map fun v => (f m.1 v).canonical))) := by
  rw [mapMembers, Json.canonical, Json.canonicalMembers_eq_map, List.map_map]
  exact congrArg Json.object (Slots.map_object (fun key v => (f key v).canonical) ms)

theorem canonical_object (ms : Slots) :
    (Json.object ms.object).canonical =
      .object (Slots.object (ms.map fun m => (m.1, m.2.map fun v => v.canonical))) := by
  rw [Json.canonical, Json.canonicalMembers_eq_map]
  exact congrArg Json.object (Slots.map_object (fun _ v => v.canonical) ms)

theorem canonical_text (o : Option String) :
    (o.map Json.string).map (fun v => v.canonical) = o.map .string := by
  cases o <;> rfl

theorem canonical_metadata (ms : Members) :
    (if ms.isEmpty then none else some (Json.object ms)).map (fun v => v.canonical) =
      if ms.canonical.isEmpty then none else some (.object ms.canonical) := by
  cases ms <;> rfl

theorem isEmpty_writeArguments (a : Arguments) : (writeArguments a).isEmpty = a.isEmpty := by
  cases a with
  | positional as => cases as <;> rfl
  | named es => cases es <;> rfl

theorem canonical_arguments (a : Arguments) :
    (if (writeArguments a).isEmpty then none else some (.array (writeArguments a))).map
        (fun v => (sortArguments v).canonical) =
      if (writeArguments a.canonical).isEmpty then none
      else some (.array (writeArguments a.canonical)) := by
  rw [isEmpty_writeArguments, isEmpty_writeArguments, Arguments.isEmpty_canonical]
  split
  · rfl
  · exact congrArg some (canonical_sortArguments a)

/-- Items that are each written in canonical form are so as a list. -/
theorem canonical_array {α : Type} {write write' : α → Json} {g : α → α}
    (h : ∀ a, (write a).canonical = write' (g a)) (as : List α) :
    (Json.array (as.map write)).canonical = .array ((as.map g).map write') := by
  rw [Json.canonical, Json.canonicalItems_eq_map, List.map_map, List.map_map]
  exact congrArg Json.array (List.map_congr_left fun a _ => h a)

/-! ### Steps -/

theorem canonical_writeTiming (t : Timing) : (writeTiming t).canonical = writeTiming t := by
  cases t <;> rfl

theorem canonical_writeModel (m : ModelAssignment) :
    (writeModel m).canonical = writeModel m.canonical := by
  obtain ⟨offset, value, variableName⟩ := m
  cases value <;> rfl

theorem canonical_models (ms : List ModelAssignment) :
    (if (ms.map writeModel).isEmpty then none
      else some (Json.array (ms.map writeModel))).map (fun v => v.canonical) =
      if ((ms.map (·.canonical)).map writeModel).isEmpty then none
      else some (Json.array ((ms.map (·.canonical)).map writeModel)) := by
  cases ms with
  | nil => rfl
  | cons m ms => exact congrArg some (canonical_array canonical_writeModel (m :: ms))

theorem canonical_engine (o : Option Int64) :
    (o.map fun e => Json.number (.ofInt64 e)).map (fun v => v.canonical) =
      o.map fun e => .number (.ofInt64 e) := by
  cases o <;> rfl

theorem canonical_sortStep_call (type : StepType) (s : SequenceCall) :
    (sortStep (writeCall type s)).canonical = writeCall type s.canonical := by
  rw [sortStep, writeCall_eq, canonical_mapMembers, writeCall_eq]
  simp only [callSlots, List.map_cons, List.map_nil, Option.map_some, String.reduceEq, reduceIte,
    canonical_text, canonical_metadata, canonical_arguments, canonical_writeTiming,
    canonical_engine, canonical_models]
  rfl

/-- A written step with sorted arguments is the step written in canonical form. -/
theorem canonical_sortStep (x : Step) :
    (sortStep (writeStep x)).canonical = writeStep x.canonical := by
  cases x with
  | command c =>
    rw [sortStep, writeStep_command, canonical_mapMembers, Step.canonical, writeStep_command]
    simp only [commandSlots, List.map_cons, List.map_nil, Option.map_some, String.reduceEq,
      reduceIte, canonical_text, canonical_metadata, canonical_sortArguments,
      canonical_writeTiming]
    rfl
  | groundEvent g =>
    rw [sortStep, writeStep_groundEvent, canonical_mapMembers, Step.canonical,
      writeStep_groundEvent]
    simp only [groundEventSlots, List.map_cons, List.map_nil, Option.map_some, String.reduceEq,
      reduceIte, canonical_text, canonical_metadata, canonical_arguments, canonical_writeTiming]
    rfl
  | groundBlock g =>
    rw [sortStep, writeStep_groundBlock, canonical_mapMembers, Step.canonical,
      writeStep_groundBlock]
    simp only [groundBlockSlots, List.map_cons, List.map_nil, Option.map_some, String.reduceEq,
      reduceIte, canonical_text, canonical_metadata, canonical_arguments]
    rfl
  | activate s => exact canonical_sortStep_call .activate s
  | load s => exact canonical_sortStep_call .load s

/-! ### Commands without a time and requests -/

theorem canonical_writeHardware (c : HardwareCommand) :
    (writeHardware c).canonical = writeHardware c.canonical := by
  rw [writeHardware_eq, canonical_object, writeHardware_eq]
  simp only [hardwareSlots, List.map_cons, List.map_nil, Option.map_some, canonical_text,
    canonical_metadata]
  rfl

theorem canonical_sortStep_immediate (c : ImmediateCommand) :
    (sortStep (writeImmediate c)).canonical = writeImmediate c.canonical := by
  rw [sortStep, writeImmediate_eq, canonical_mapMembers, writeImmediate_eq]
  simp only [immediateSlots, List.map_cons, List.map_nil, Option.map_some, String.reduceEq,
    reduceIte, canonical_text, canonical_metadata, canonical_arguments]
  rfl

theorem canonical_groundEpoch (o : Option GroundEpoch) :
    (o.map fun g => Json.object (groundEpochMembers g)).map (fun v => v.canonical) =
      o.map fun g => .object (groundEpochMembers g) := by
  rcases o with _ | ⟨name, delta⟩
  · rfl
  · cases name <;> cases delta <;> rfl

theorem canonical_mapItems {α : Type} {sort : Json → Json} {write : α → Json} {g : α → α}
    (h : ∀ a, (sort (write a)).canonical = write (g a)) (as : List α) :
    (mapItems sort (.array (as.map write))).canonical = .array ((as.map g).map write) := by
  rw [mapItems, List.map_map]
  exact canonical_array h as

theorem canonical_sortRequest (r : Request) :
    (sortRequest (writeRequest r)).canonical = writeRequest r.canonical := by
  rw [sortRequest, writeRequest_eq, canonical_mapMembers, writeRequest_eq]
  simp only [requestSlots, List.map_cons, List.map_nil, Option.map_some, String.reduceEq,
    reduceIte, canonical_text, canonical_metadata, canonical_groundEpoch,
    canonical_mapItems canonical_sortStep]
  rfl

/-! ### Optional lists -/

theorem map_optional {α : Type} {f : Json → Json} {write : α → Json} {g : α → α}
    (h : ∀ as : List α, f (.array (as.map write)) = .array ((as.map g).map write))
    (o : Option (List α)) :
    (o.map fun as => Json.array (as.map write)).map f =
      (o.map (·.map g)).map fun as => .array (as.map write) := by
  cases o with
  | none => rfl
  | some as => exact congrArg some (h as)

theorem canonical_optional {α : Type} {write : α → Json} {g : α → α}
    (h : ∀ a, (write a).canonical = write (g a)) (o : Option (List α)) :
    (o.map fun as => Json.array (as.map write)).map (fun v => v.canonical) =
      (o.map (·.map g)).map fun as => .array (as.map write) :=
  map_optional (canonical_array h) o

theorem canonical_mapItems_optional {α : Type} {sort : Json → Json} {write : α → Json}
    {g : α → α} (h : ∀ a, (sort (write a)).canonical = write (g a)) (o : Option (List α)) :
    (o.map fun as => Json.array (as.map write)).map (fun v => (mapItems sort v).canonical) =
      (o.map (·.map g)).map fun as => .array (as.map write) :=
  map_optional (canonical_mapItems h) o

/-! ### Variables -/

theorem canonical_writeRange (r : AllowableRange) :
    (writeRange r).canonical = writeRange r.canonical := rfl

theorem canonical_writeAllowable (v : AllowableValue) :
    (writeAllowable v).canonical = writeAllowable v.canonical := by
  cases v <;> rfl

theorem canonical_writeVariable (v : Variable) :
    (writeVariable v).canonical = writeVariable v.canonical := by
  rw [writeVariable_eq, canonical_object, writeVariable_eq]
  simp only [variableSlots, List.map_cons, List.map_nil, Option.map_some, canonical_text,
    canonical_optional canonical_writeRange, canonical_optional canonical_writeAllowable]
  rfl

/-! ### Sequences -/

/-- The sorted document of a sequence is the document of its canonical form. -/
theorem canonical_sortDocument (s : Sequence) :
    (sortDocument (write s)).canonical = write s.canonical := by
  rw [sortDocument, write_eq, canonical_mapMembers, write_eq]
  simp only [sequenceSlots, List.map_cons, List.map_nil, Option.map_some, String.reduceEq,
    or_self, or_true, or_false, reduceIte,
    canonical_optional canonical_writeHardware, canonical_optional canonical_writeVariable,
    canonical_mapItems_optional canonical_sortStep_immediate,
    canonical_mapItems_optional canonical_sortStep,
    canonical_mapItems_optional canonical_sortRequest]
  rfl

/-- Sequences are equivalent exactly when their documents are equal once every list of named
arguments is sorted by name. -/
theorem equivalent_iff_sortDocument {s t : Sequence} (hs : s.IsTagged) (ht : t.IsTagged) :
    s.equivalent t ↔ (sortDocument (write s)).canonical = (sortDocument (write t)).canonical := by
  rw [canonical_sortDocument, canonical_sortDocument, Sequence.equivalent, beq_iff_eq]
  constructor
  · intro same
    rw [same]
  · exact write_injective hs.canonical s.isSettled_canonical ht.canonical t.isSettled_canonical

/-- A sequence with one command at the last instant that a word counts. -/
def lastCommand (arguments : List (String × Argument)) : Sequence where
  id := "last"
  locals := some [{ kind := some .locals, type := .int, name := "n" }]
  steps := some [.command
    { stem := "SET", arguments := .named arguments, timing := .absolute ⟨Int64.maxValue⟩ }]

theorem isTagged_lastCommand (arguments : List (String × Argument)) :
    (lastCommand arguments).IsTagged := by
  refine ⟨?_, nofun⟩
  rintro _ ⟨⟩
  exact List.forall_mem_singleton.2 rfl

def firstOption : String × Argument := ("opt", .literal (.string "first"))

def secondOption : String × Argument := ("opt", .literal (.string "second"))

/-- Entries of different names may change places, in a group as well, but not those of one name. -/
theorem equivalent_iff_sortDocument_repeated :
    (lastCommand [firstOption, secondOption]).IsTagged ∧
    (sortDocument (write (lastCommand
        [("at", .group (.named [("y", .symbol "n"), ("x", .symbol "n")])),
          firstOption, secondOption]))).canonical =
      (sortDocument (write (lastCommand
        [firstOption, ("at", .group (.named [("x", .symbol "n"), ("y", .symbol "n")])),
          secondOption]))).canonical ∧
    (sortDocument (write (lastCommand [firstOption, secondOption]))).canonical ≠
      (sortDocument (write (lastCommand [secondOption, firstOption]))).canonical :=
  ⟨isTagged_lastCommand _,
    (equivalent_iff_sortDocument (isTagged_lastCommand _) (isTagged_lastCommand _)).1
      (by decide +kernel),
    mt (equivalent_iff_sortDocument (isTagged_lastCommand _) (isTagged_lastCommand _)).2
      (by decide +kernel)⟩

end SeqScript.Document
