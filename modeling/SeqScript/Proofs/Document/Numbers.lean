import SeqScript.Document.Writer
import SeqScript.Proofs.Model.Numbers

/-!
# The numbers of a document

The numbers of a sequence are written as they are, so that a function of numbers may be applied
before or after the sequence is written (`write_mapNumbers`).  Only the number of an engine is no
number of the sequence: a function must keep it.
-/

namespace SeqScript.Document

variable {f : Number → Number} {α : Type}

/-! ### Members -/

/-- A function of numbers applied to the value of a member. -/
def mapMember (f : Number → Number) (m : Option (String × Json)) : Option (String × Json) :=
  m.map fun m => (m.1, m.2.mapNumbers f)

@[simp] theorem mapNumbersMembers_present (ms : List (Option (String × Json))) :
    Json.mapNumbersMembers f (present ms) = present (ms.map (mapMember f)) := by
  induction ms with
  | nil => rfl
  | cons m ms ih =>
    rcases m with _ | ⟨key, v⟩
    · exact ih
    · exact congrArg ((key, v.mapNumbers f) :: ·) ih

@[simp] theorem mapMember_member (name : String) (v : Json) :
    mapMember f (member name v) = member name (v.mapNumbers f) := rfl

@[simp] theorem mapMember_optionalText (name : String) (o : Option String) :
    mapMember f (optionalText name o) = optionalText name o := by
  cases o <;> rfl

@[simp] theorem mapMember_nonemptyList (name : String) (vs : List Json) :
    mapMember f (nonemptyList name vs) = nonemptyList name (Json.mapNumbersItems f vs) := by
  cases vs <;> rfl

@[simp] theorem mapMember_nonemptyMap (name : String) (ms : Members) :
    mapMember f (nonemptyMap name ms) = nonemptyMap name (Json.mapNumbersMembers f ms) := by
  rcases ms with _ | ⟨⟨key, v⟩, ms⟩ <;> rfl

theorem mapNumbersItems_map {write : α → Json} {g : α → α}
    (h : ∀ a, (write a).mapNumbers f = write (g a)) (as : List α) :
    Json.mapNumbersItems f (as.map write) = (as.map g).map write := by
  rw [Json.mapNumbersItems_eq_map, List.map_map, List.map_map]
  exact List.map_congr_left fun a _ => h a

theorem mapMember_optionalList {name : String} {write : α → Json} {g : α → α}
    (h : ∀ a, (write a).mapNumbers f = write (g a)) (o : Option (List α)) :
    mapMember f (optionalList name write o) = optionalList name write (o.map (·.map g)) := by
  rcases o with _ | as
  · rfl
  · exact congrArg (fun vs => some (name, Json.array vs)) (mapNumbersItems_map h as)

/-! ### Arguments -/

theorem mapNumbers_writeLiteral (l : Literal) :
    (writeLiteral l).mapNumbers f = writeLiteral (l.mapNumbers f) := by
  cases l <;> rfl

theorem type_mapNumbers (a : Argument) : (a.mapNumbers f).type = a.type := by
  rcases a with l | name | a
  · cases l <;> rfl
  · rfl
  · rfl

mutual

theorem mapNumbers_writeArgument : ∀ a : Argument,
    (writeArgument a).mapNumbers f = writeArgument (a.mapNumbers f)
  | .literal l => mapNumbers_writeLiteral l
  | .symbol _ => rfl
  | .group a => congrArg Json.array (mapNumbers_writeArguments a)

theorem mapNumbers_writeArguments : ∀ a : Arguments,
    Json.mapNumbersItems f (writeArguments a) = writeArguments (a.mapNumbers f)
  | .positional as => mapNumbers_writePositional as
  | .named as => mapNumbers_writeNamed as

theorem mapNumbers_writePositional : ∀ as : List Argument,
    Json.mapNumbersItems f (writePositional as) =
      writePositional (Arguments.mapNumbersItems f as)
  | [] => rfl
  | a :: as => by
    simp only [writePositional, Json.mapNumbersItems, Json.mapNumbers, Json.mapNumbersMembers,
      Arguments.mapNumbersItems, type_mapNumbers, mapNumbers_writeArgument a,
      mapNumbers_writePositional as]

theorem mapNumbers_writeNamed : ∀ as : List (String × Argument),
    Json.mapNumbersItems f (writeNamed as) = writeNamed (Arguments.mapNumbersNamed f as)
  | [] => rfl
  | (_, a) :: as => by
    simp only [writeNamed, Json.mapNumbersItems, Json.mapNumbers, Json.mapNumbersMembers,
      Arguments.mapNumbersNamed, type_mapNumbers, mapNumbers_writeArgument a,
      mapNumbers_writeNamed as]

end

/-! ### Variables -/

theorem mapNumbers_writeRange (r : AllowableRange) :
    (writeRange r).mapNumbers f = writeRange (r.mapNumbers f) := rfl

theorem mapNumbers_writeAllowable (v : AllowableValue) :
    (writeAllowable v).mapNumbers f = writeAllowable (v.mapNumbers f) := by
  cases v <;> rfl

theorem mapNumbers_writeVariable (v : Variable) :
    (writeVariable v).mapNumbers f = writeVariable (v.mapNumbers f) := by
  simp only [writeVariable, Json.mapNumbers, mapNumbersMembers_present, List.map_cons,
    List.map_nil, mapMember_optionalList mapNumbers_writeRange,
    mapMember_optionalList mapNumbers_writeAllowable, mapMember_optionalText, mapMember_member]
  rfl

/-! ### Steps -/

theorem mapNumbers_writeTiming (t : Timing) : (writeTiming t).mapNumbers f = writeTiming t := by
  cases t <;> rfl

theorem mapNumbers_writeModel (m : ModelAssignment) :
    (writeModel m).mapNumbers f = writeModel (m.mapNumbers f) := by
  simp only [writeModel, Json.mapNumbers, Json.mapNumbersMembers, mapNumbers_writeLiteral]
  rfl

/-- The function keeps the numbers of engines. -/
def KeepsEngines (f : Number → Number) : Prop := ∀ e : Int64, f (.ofInt64 e) = .ofInt64 e

theorem mapMember_engine (h : KeepsEngines f) (o : Option Int64) :
    mapMember f (o.map fun e => ("engine", .number (.ofInt64 e))) =
      o.map fun e => ("engine", .number (.ofInt64 e)) := by
  rcases o with _ | e
  · rfl
  · show some ("engine", Json.number (f (.ofInt64 e))) = _
    rw [h]
    rfl

theorem mapNumbers_writeCall (h : KeepsEngines f) (type : StepType) (s : SequenceCall) :
    (writeCall type s).mapNumbers f = writeCall type (s.mapNumbers f) := by
  simp only [writeCall, stepTag, Json.mapNumbers, mapNumbersMembers_present, List.map_cons,
    List.map_nil, mapMember_nonemptyList, mapMember_optionalText, mapMember_nonemptyMap,
    mapMember_member, mapMember_engine h, mapNumbers_writeArguments, mapNumbers_writeTiming,
    mapNumbersItems_map mapNumbers_writeModel]
  rfl

theorem mapNumbers_writeStep (h : KeepsEngines f) (x : Step) :
    (writeStep x).mapNumbers f = writeStep (x.mapNumbers f) := by
  rcases x with c | g | g | s | s
  · simp only [writeStep, stepTag, Json.mapNumbers, mapNumbersMembers_present, List.map_cons,
      List.map_nil, mapMember_optionalText, mapMember_nonemptyMap, mapMember_member,
      mapNumbers_writeArguments, mapNumbers_writeTiming]
    rfl
  · simp only [writeStep, stepTag, Json.mapNumbers, mapNumbersMembers_present, List.map_cons,
      List.map_nil, mapMember_nonemptyList, mapMember_optionalText, mapMember_nonemptyMap,
      mapMember_member, mapNumbers_writeArguments, mapNumbers_writeTiming]
    rfl
  · simp only [writeStep, stepTag, Json.mapNumbers, mapNumbersMembers_present, List.map_cons,
      List.map_nil, mapMember_nonemptyList, mapMember_optionalText, mapMember_nonemptyMap,
      mapMember_member, mapNumbers_writeArguments]
    rfl
  · exact mapNumbers_writeCall h .activate s
  · exact mapNumbers_writeCall h .load s

/-! ### Commands without a time and requests -/

theorem mapNumbers_writeHardware (c : HardwareCommand) :
    (writeHardware c).mapNumbers f = writeHardware (c.mapNumbers f) := by
  simp only [writeHardware, Json.mapNumbers, mapNumbersMembers_present, List.map_cons,
    List.map_nil, mapMember_optionalText, mapMember_nonemptyMap, mapMember_member]
  rfl

theorem mapNumbers_writeImmediate (c : ImmediateCommand) :
    (writeImmediate c).mapNumbers f = writeImmediate (c.mapNumbers f) := by
  simp only [writeImmediate, Json.mapNumbers, mapNumbersMembers_present, List.map_cons,
    List.map_nil, mapMember_nonemptyList, mapMember_optionalText, mapMember_nonemptyMap,
    mapMember_member, mapNumbers_writeArguments]
  rfl

theorem mapMember_groundEpoch (o : Option GroundEpoch) :
    mapMember f (o.map fun g => ("ground_epoch", .object (groundEpochMembers g))) =
      o.map fun g => ("ground_epoch", .object (groundEpochMembers g)) := by
  rcases o with _ | ⟨name, delta⟩
  · rfl
  · cases name <;> cases delta <;> rfl

theorem mapNumbers_writeRequest (h : KeepsEngines f) (r : Request) :
    (writeRequest r).mapNumbers f = writeRequest (r.mapNumbers f) := by
  simp only [writeRequest, Json.mapNumbers, mapNumbersMembers_present, List.map_cons,
    List.map_nil, mapMember_optionalText, mapMember_nonemptyMap, mapMember_member,
    mapMember_groundEpoch, mapNumbersItems_map (mapNumbers_writeStep h)]
  rfl

/-! ### Sequences -/

/-- The document of a sequence has the numbers of the sequence in their places. -/
theorem write_mapNumbers (h : KeepsEngines f) (s : Sequence) :
    write (s.mapNumbers f) = (write s).mapNumbers f := by
  simp only [write, Json.mapNumbers, mapNumbersMembers_present, List.map_cons, List.map_nil,
    mapMember_member, mapMember_optionalList mapNumbers_writeHardware,
    mapMember_optionalList mapNumbers_writeImmediate,
    mapMember_optionalList mapNumbers_writeVariable,
    mapMember_optionalList (mapNumbers_writeStep h),
    mapMember_optionalList (mapNumbers_writeRequest h)]
  rfl

end SeqScript.Document
