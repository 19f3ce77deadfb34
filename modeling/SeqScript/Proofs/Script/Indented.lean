import SeqScript.Proofs.Script.Levels
import SeqScript.Proofs.Script.Settled

/-!
# Levels as indentation

A construct that is rendered at a level has the text that it has at level zero, with the spaces of
the level after every line feed (`indented_constructs`).  Names of symbols and stems of commands are
written as they are.  A line feed in one is not followed by any indentation, so the names of a
construct must be on one line (`Step.bareNames`); strings are escaped, and need no condition.
-/

namespace SeqScript

/-! ### Names that are written as they are -/

/-- The stem of a command and the names of the symbols. -/
def Step.bareNames : Step → List String
  | .command x => x.stem :: x.arguments.symbols
  | x => x.arguments.symbols

def ImmediateCommand.bareNames (x : ImmediateCommand) : List String := x.stem :: x.arguments.symbols

def Request.bareNames (r : Request) : List String := r.steps.flatMap (·.bareNames)

namespace Script

open Context

/-! ### Values -/

theorem shifts_plain {o : Options} {f : Nat → String} (h : Shifts f) :
    Shifts fun level => (Fragment.plain (f level)).member o :=
  h.append (.of_const rfl)

theorem shifts_quote (s : String) : Shifts fun _ => quote s :=
  .of_const (lineEnds_quote (.inl rfl) s)

theorem shifts_literal (l : Literal) : Shifts fun _ => literal l :=
  .of_const (lineEnds_literal (.inl rfl) l)

/-- A member whose name does not depend on the level. -/
theorem shifts_entry {o : Options} (name : String) {f : Nat → Fragment}
    (h : Shifts fun level => (f level).member o) :
    Shifts fun level => key name ++ ": " ++ (f level).member o :=
  (Shifts.append (.of_const (lineEnds_key (.inl rfl) name)) (.of_const rfl)).append h

theorem shifts_json (v : Json) : Shifts fun level => json level v := by
  induction v using Json.treeInduction with
  | null => exact .of_const rfl
  | bool b => exact shifts_literal (.boolean b)
  | number n => exact shifts_literal (.number n)
  | string s => exact shifts_quote s
  | array vs ih =>
    have items : ShiftsEach fun level => (jsonItems level vs).map (·.member {}) := by
      simp only [jsonItems_eq, List.map_map, Function.comp_def]
      exact .of_map fun v mem => shifts_plain (ih v mem)
    exact shifts_array {} _ items
  | object ms ih =>
    have entries : ShiftsEach fun level =>
        (jsonMembers level ms).map fun e => key e.1 ++ ": " ++ e.2.member {} := by
      simp only [jsonMembers_eq, List.map_map, Function.comp_def]
      exact .of_map fun m mem => shifts_entry m.1 (shifts_plain (ih m mem))
    exact shifts_object {} _ entries

/-! ### Arguments -/

/-- A symbol is written on one line if its name is. -/
theorem shifts_symbol (c : Context) {name : String} (h : '\n' ∉ name.toList) :
    Shifts fun level => c.memberText level (.symbol name) := by
  have line : lineEnds '\n' (c.memberText 0 (.symbol name)) = 0 := by
    rw [lineEnds_symbol (.inl rfl), lineEnds_eq_zero_iff.2 h, Nat.mul_zero]
  exact .of_const line

/-- Arguments are shifted if their members are. -/
theorem shifts_arguments_of_members (c : Context) {a : Arguments}
    (h : ∀ m ∈ a.members, Shifts fun level => c.memberText level m.2) :
    Shifts fun level => (c.arguments level a).value := by
  cases a with
  | positional as =>
    have items : ShiftsEach fun level =>
        (c.positional level as).value.map (·.member c.options) := by
      simp only [value_positional, List.map_map, Function.comp_def]
      exact .of_map fun a mem => List.forall_mem_map.1 h a mem
    exact shifts_array c.options _ items
  | named as =>
    have entries : ShiftsEach fun level =>
        (c.named level as).value.map fun e => key e.1 ++ ": " ++ e.2.member c.options := by
      simp only [value_named, List.map_map, Function.comp_def]
      exact .of_map fun m mem => shifts_entry m.1 (List.forall_mem_map.1 h m mem)
    exact shifts_object c.options _ entries

theorem shifts_argument (c : Context) {a : Argument} (h : ∀ name ∈ a.symbols, '\n' ∉ name.toList) :
    Shifts fun level => c.memberText level a := by
  induction a using Argument.membersInduction with
  | literal l => exact shifts_plain (shifts_literal l)
  | symbol name => exact shifts_symbol c (h name List.mem_cons_self)
  | group a ih =>
    rw [Argument.symbols, Arguments.symbols_eq] at h
    refine shifts_plain (shifts_arguments_of_members c fun m mem => ih m mem fun name used => ?_)
    exact h name (List.mem_flatMap.2 ⟨m, mem, used⟩)

section

variable (c : Context) {a : Arguments} (names : ∀ name ∈ a.symbols, '\n' ∉ name.toList)

include names

theorem shifts_members : ∀ m ∈ a.members, Shifts fun level => c.memberText level m.2 := by
  rw [Arguments.symbols_eq] at names
  intro m mem
  exact shifts_argument c fun name used => names name (List.mem_flatMap.2 ⟨m, mem, used⟩)

theorem shifts_callArguments : Shifts fun level => (c.callArguments level a).value := by
  simp only [value_callArguments]
  split_ifs
  · exact .of_const rfl
  · exact (Shifts.of_const rfl).append
      ((shifts_arguments_of_members c (shifts_members c names)).append (.of_const rfl))

theorem shifts_typedArguments :
    Shifts fun level => array c.options level (c.typedArguments (level + 1) a).value := by
  have typed : ShiftsEach fun level =>
      (c.typedArguments level a).value.map (·.member c.options) := by
    simp only [value_typedArguments, value_typedArgument, List.map_map, Function.comp_def]
    refine .of_map fun m mem => shifts_plain (shifts_object c.options
      (fun level => present (typedSlots m.1 m.2 (c.argument level m.2).value)) ?_)
    refine .slot (.of_option fun s _ => ?_) (.slot (.cons ?_ .nil) (.slot (.cons ?_ .nil) .nil))
    · exact shifts_entry _ (shifts_plain (shifts_quote s))
    · exact shifts_entry _ (shifts_plain (shifts_quote _))
    · exact shifts_entry _ (shifts_members c names m mem)
  exact shifts_array c.options _ typed

end

/-! ### Chains -/

theorem shifts_model (o : Options) (m : ModelAssignment) : Shifts fun level => model o level m := by
  refine shifts_object o (fun _ => [
    ("offset", .plain (quote m.offset.text)), ("value", .plain (literal m.value)),
    ("variable", .plain (quote m.variableName))]) (.cons ?_ (.cons ?_ (.cons ?_ .nil)))
  · exact shifts_entry _ (shifts_plain (shifts_quote _))
  · exact shifts_entry _ (shifts_plain (shifts_literal m.value))
  · exact shifts_entry _ (shifts_plain (shifts_quote _))

/-- An engine is written as the number that it is. -/
theorem shifts_engine (e : Int64) : Shifts fun _ => decimalText e.toInt := by
  have lower : -0x8000000000000000 ≤ e.toInt := e.le_toInt
  have upper : e.toInt < 0x10000000000000000 := by
    have := e.toInt_lt
    omega
  exact shifts_literal (.number (.integer e.toInt lower upper))

/-- An attribute is on a line below the head. -/
theorem shifts_attribute (name : String) (hname : lineEnds '\n' name = 0) {value : Nat → String}
    (h : Shifts value) :
    Shifts fun level => "\n" ++ pad level ++ "." ++ name ++ "(" ++ value level ++ ")" :=
  ((((shifts_newline.append (.of_const rfl)).append (.of_const hname)).append
    (.of_const rfl)).append h).append (.of_const rfl)

/-- The attributes of a head stand some levels below it. -/
theorem shifts_chain {head : Nat → String} {slots : Nat → List (String × Option String)} (k : Nat)
    (hhead : Shifts head)
    (h : ShiftsEach fun level => (present (slots level)).map fun s =>
      "\n" ++ pad level ++ "." ++ s.1 ++ "(" ++ s.2 ++ ")") :
    Shifts fun level => chain (level + k) (head level) (present (slots (level + k))) :=
  hhead.append (h.join.below k)

theorem shifts_attributes (c : Context) {x : Chained}
    (names : ∀ name ∈ x.arguments.symbols, '\n' ∉ name.toList) :
    ShiftsEach fun level => (present (x.slots c level)).map fun s =>
      "\n" ++ pad level ++ "." ++ s.1 ++ "(" ++ s.2 ++ ")" := by
  refine .slot (.of_unless _ ?_) (.slot (.of_option fun d _ => ?_) (.slot (.of_option fun e _ => ?_)
    (.slot (.of_option fun t _ => ?_) (.slot (.of_unless _ ?_) (.slot (.of_unless _ ?_) .nil)))))
  · exact shifts_attribute "ARGUMENTS" rfl (shifts_typedArguments c names)
  · exact shifts_attribute "DESCRIPTION" rfl (shifts_quote d)
  · exact shifts_attribute "ENGINE" rfl (shifts_engine e)
  · exact shifts_attribute "EPOCH" rfl (shifts_quote t)
  · exact shifts_attribute "METADATA" rfl (shifts_json (.object x.annotations.metadata))
  · exact shifts_attribute "MODELS" rfl
      (shifts_separated (.of_map fun m _ => shifts_model c.options m))

theorem shifts_annotated {head : Nat → String} (k : Nat) (a : Annotations) (hhead : Shifts head) :
    Shifts fun level => chain (level + k) (head level) (annotationAttributes (level + k) a) := by
  have names : ∀ name ∈ Arguments.none.symbols, '\n' ∉ name.toList := List.forall_mem_nil _
  simp only [annotationAttributes_eq {}]
  exact shifts_chain k hhead (shifts_attributes {} (x := { annotations := a }) names)

/-! ### Steps and commands -/

theorem shifts_timing (t : Timing) : Shifts fun _ => timing t := by
  have quoted {s : String} (h : ∀ c ∈ s.toList, isTimeChar c) (head : String)
      (hhead : lineEnds '\n' head = 0) : lineEnds '\n' (head ++ s ++ "\x60") = 0 := by
    have time : lineEnds '\n' s = 0 := lineEnds_of_forall (.inl rfl) ⟨rfl, rfl⟩ h
    rw [lineEnds_append, lineEnds_append, hhead, time]
    rfl
  cases t with
  | absolute i => exact .of_const (quoted (isTimeChar_instant i) _ rfl)
  | relative d => exact .of_const (quoted (isTimeChar_duration d) _ rfl)
  | epoch d => exact .of_const (quoted (isTimeChar_duration d) _ rfl)
  | commandComplete => exact .of_const rfl

theorem shifts_statement (c : Context) {s : Statement} (word : lineEnds '\n' s.word = 0)
    (call : ∀ a, s.call = .arguments a → ∀ name ∈ a.symbols, '\n' ∉ name.toList)
    (chained : ∀ name ∈ s.chained.arguments.symbols, '\n' ∉ name.toList) :
    Shifts fun level => s.text c level := by
  have called : Shifts fun level => s.call.text c level := by
    cases h : s.call with
    | arguments a => exact shifts_callArguments c (call a h)
    | name n => exact (Shifts.of_const rfl).append ((shifts_quote n).append (.of_const rfl))
  have point : Shifts fun _ => "." := .of_const rfl
  exact shifts_chain 1 ((shifts_timing s.timing).append (point.append
    ((Shifts.of_const word).append called)))
    (shifts_attributes c chained)

theorem shifts_step (c : Context) {x : Step} (names : ∀ name ∈ x.bareNames, '\n' ∉ name.toList) :
    Shifts fun level => (c.step level x).value := by
  simp only [value_step]
  cases x with
  | command x =>
    obtain ⟨stem, symbols⟩ := List.forall_mem_cons.1 names
    refine shifts_statement c (lineEnds_eq_zero_iff.2 stem) ?_ (List.forall_mem_nil _)
    rintro _ ⟨⟩
    exact symbols
  | groundEvent x =>
    exact shifts_statement c (rfl : lineEnds '\n' "GROUND_EVENT" = 0) nofun names
  | groundBlock x =>
    exact shifts_statement c (rfl : lineEnds '\n' "GROUND_BLOCK" = 0) nofun names
  | activate s => exact shifts_statement c (rfl : lineEnds '\n' "ACTIVATE" = 0) nofun names
  | load s => exact shifts_statement c (rfl : lineEnds '\n' "LOAD" = 0) nofun names

theorem shifts_hardwareCommand {x : HardwareCommand} (stem : '\n' ∉ x.stem.toList) :
    Shifts fun level => hardwareCommand level x :=
  shifts_annotated 0 x.annotations (.of_const (lineEnds_eq_zero_iff.2 stem))

theorem shifts_immediateCommand (c : Context) {x : ImmediateCommand}
    (names : ∀ name ∈ x.bareNames, '\n' ∉ name.toList) :
    Shifts fun level => (c.immediateCommand level x).value := by
  obtain ⟨stem, symbols⟩ := List.forall_mem_cons.1 names
  have head : Shifts fun level => x.stem ++ (c.callArguments level x.arguments).value :=
    (Shifts.of_const (lineEnds_eq_zero_iff.2 stem)).append (shifts_callArguments c symbols)
  exact shifts_annotated 1 x.annotations head

theorem shifts_request (c : Context) {r : Request}
    (names : ∀ name ∈ r.bareNames, '\n' ∉ name.toList) :
    Shifts fun level => (c.request level r).value := by
  have steps : ShiftsEach fun level => r.steps.map fun x => (c.step level x).value :=
    .of_map fun x mem => shifts_step c fun name used =>
      names name (List.mem_flatMap.2 ⟨x, mem, used⟩)
  have member (name : String) (hname : lineEnds '\n' name = 0) {value : Nat → String}
      (h : Shifts value) : Shifts fun level => name ++ ": " ++ value level :=
    ((Shifts.of_const hname).append (.of_const rfl)).append h
  have members : ShiftsEach fun level =>
      requestMembers level r (r.steps.map fun x => (c.step (level + 1) x).value) := by
    simp only [requestMembers_eq]
    refine .slot (.cons ?_ .nil) (.slot (.cons ?_ .nil) (.slot (.cons ?_ .nil)
      (.slot (.of_option fun d _ => ?_) (.slot (.of_option fun g _ => ?_)
        (.slot (.of_unless _ ?_) .nil)))))
    · exact member "name" rfl (shifts_quote r.name)
    · exact member "steps" rfl (shifts_stepList steps)
    · exact .of_const rfl
    · exact member "description" rfl (shifts_quote d)
    · exact member "ground_epoch" rfl (shifts_json _)
    · exact member "metadata" rfl (shifts_json _)
  have block := (shifts_commaEnded members).enclosed "\x7b\n" "\x7d"
    (indented_opening (s := "\x7b") rfl) rfl
  intro level n
  simpa only [request, Logged.value_bind, Logged.value_pure, Logged.value_each] using block level n

/-! ### Declarations -/

theorem shifts_optionsText (c : Context) (o : VariableOptions) :
    Shifts fun level => optionsText c level o := by
  have entries : ShiftsEach fun level =>
      (variableEntries level o).map fun e => key e.1 ++ ": " ++ e.2.member c.options := by
    simp only [variableEntries_eq]
    refine .slot (.of_option fun rs _ => ?_) (.slot (.of_option fun vs _ => ?_)
      (.slot (.of_option fun s _ => ?_) .nil))
    · exact shifts_entry _ (shifts_plain (shifts_json _))
    · exact shifts_entry _ (shifts_plain (shifts_json _))
    · exact shifts_entry _ (shifts_plain (shifts_quote s))
  simp only [optionsText, isEmpty_variableEntries]
  split_ifs
  · exact .of_const rfl
  · exact (Shifts.of_const rfl).append (shifts_object c.options _ entries)

theorem shifts_declaration (c : Context) (v : Variable) :
    Shifts fun level => c.declaration level v := by
  have tag : Shifts fun _ => v.type.tag := by
    cases v.type with
    | enumeration name => exact .of_const (rfl : lineEnds '\n' VariableType.enumTag = 0)
    | _ => exact .of_const rfl
  have enum : Shifts fun _ => enumText v.type := by
    unfold enumText
    cases v.type.enumName? with
    | none => exact .of_const rfl
    | some name => exact (Shifts.of_const rfl).append (shifts_quote name)
  have options := (shifts_optionsText c v.options).append (.of_const (s := ")") rfl)
  simp only [declaration_eq]
  exact tag.append ((Shifts.of_const rfl).append
    ((shifts_quote v.name).append (enum.append options)))

/-! ### Scripts -/

theorem shownList_filled {α : Type} {as : List α} (h : as ≠ []) (text : List α → String) :
    shownList (some as) text = some (text as) :=
  if_neg fun empty => h (List.isEmpty_iff.1 empty)

/-- The lines of steps at a level, by what each step is rendered to on its own. -/
theorem commaEnded_steps {xs : List Step}
    (names : ∀ x ∈ xs, ∀ name ∈ x.bareNames, '\n' ∉ name.toList) (scope : Scope) (o : Options)
    (level : Nat) :
    commaEnded level (xs.map fun x => (Context.step ⟨scope, o⟩ level x).value) = String.join
      (xs.map fun x => pad level ++ indented level (renderStep x scope o).value ++ ",\n") := by
  rw [commaEnded, List.map_map]
  refine congrArg String.join (List.map_congr_left fun x mem => ?_)
  rw [Function.comp_apply, (shifts_step ⟨scope, o⟩ (names x mem)).eq_indented level]
  rfl

/-- The script around the steps of a sequence, which are at the third level. -/
theorem render_steps_eq (s : Sequence) (o : Options) : ∃ before after, ∀ xs ≠ [],
    (∀ x ∈ xs, ∀ name ∈ x.bareNames, '\n' ∉ name.toList) →
    (render { s with steps := some xs } o).value = before ++ String.join (xs.map fun x =>
      "      " ++ indented 3 (renderStep x s.scope o).value ++ ",\n") ++ after := by
  let c : Context := ⟨s.scope, o⟩
  let lines (slots : List (String × Option String)) : String :=
    String.join (slots.map fun slot => fieldLine slot.1 slot.2)
  refine ⟨"export default () =>\n  Sequence.new(\x7b\n" ++ lines ((sequenceSlots c s).take 6) ++
    (pad 2 ++ "steps" ++ ": " ++ (stepsFunction ++ "\n")), pad 2 ++ "])" ++ ",\n" ++
    lines ((sequenceSlots c s).drop 7) ++ "  \x7d);", fun xs filled names => ?_⟩
  have slots : sequenceSlots c { s with steps := some xs } = (sequenceSlots c s).take 6 ++
      ("steps", shownList (some xs) (stepsText c)) :: (sequenceSlots c s).drop 7 := rfl
  have steps := commaEnded_steps names s.scope o 3
  have margin : pad 3 = "      " := rfl
  show (c.sequence { s with steps := some xs }).value = _
  rw [value_sequence, sections_fieldLine, slots, List.map_append, List.map_cons,
    String.join_append, String.join_cons, shownList_filled filled, fieldLine_some, stepsText, steps,
    margin]
  simp only [lines, String.append_assoc]

/-- An item among others that are parted by commas. -/
theorem commaLines_around (level : Nat) (as bs : List String) : ∃ before after, ∀ item,
    commaLines level (as ++ item :: bs) = before ++ item ++ after := by
  let rest (items : List String) : String :=
    String.join (items.map fun i => ",\n" ++ (pad level ++ i))
  rcases as with _ | ⟨a, as⟩
  · exact ⟨pad level, rest bs, fun item => commaLines_cons level item bs⟩
  · refine ⟨pad level ++ a ++ rest as ++ ",\n" ++ pad level, rest bs, fun item => ?_⟩
    rw [List.cons_append, commaLines_cons, List.map_append, List.map_cons, String.join_append,
      String.join_cons]
    simp only [rest, String.append_assoc]

/-- The script around the steps of a request, which are at the fifth level. -/
theorem render_requests_eq (s : Sequence) (o : Options) (rs ts : List Request) (r : Request) :
    ∃ before after, ∀ xs ≠ [], (∀ x ∈ xs, ∀ name ∈ x.bareNames, '\n' ∉ name.toList) →
    (render { s with requests := some (rs ++ { r with steps := xs } :: ts) } o).value = before ++
      String.join (xs.map fun x =>
        "          " ++ indented 5 (renderStep x s.scope o).value ++ ",\n") ++ after := by
  let c : Context := ⟨s.scope, o⟩
  let lines (slots : List (String × Option String)) : String :=
    String.join (slots.map fun slot => fieldLine slot.1 slot.2)
  let texts (rs : List Request) : List String := rs.map fun r => (c.request 3 r).value
  obtain ⟨before, after, around⟩ := commaLines_around 3 (texts rs) (texts ts)
  refine ⟨"export default () =>\n  Sequence.new(\x7b\n" ++ lines ((sequenceSlots c s).take 7) ++
    (pad 2 ++ "requests" ++ ": " ++ (stepsFunction ++ "\n")) ++ before ++
    ("\x7b\n" ++ (pad 4 ++ ("name: " ++ quote r.name) ++ ",\n")) ++ (pad 4 ++ "steps: " ++ "[\n"),
    pad 4 ++ "]" ++ ",\n" ++ commaEnded 4 ((requestMembers 4 r []).drop 2) ++ pad 3 ++ "\x7d" ++
    after ++ ("\n" ++ (pad 2 ++ "])")) ++ ",\n" ++ "  \x7d);", fun xs filled names => ?_⟩
  have slots : sequenceSlots c { s with requests := some (rs ++ { r with steps := xs } :: ts) } =
      (sequenceSlots c s).take 7 ++ [("requests",
        shownList (some (rs ++ { r with steps := xs } :: ts)) (requestsText c))] := rfl
  have margin : pad 5 = "          " := rfl
  have steps : stepList 4 (xs.map fun x => (c.step 5 x).value) = "[\n" ++ String.join (xs.map
      fun x => "          " ++ indented 5 (renderStep x s.scope o).value ++ ",\n") ++ pad 4 ++
        "]" := by
    rw [stepList, List.isEmpty_map, if_neg (mt List.isEmpty_iff.1 filled),
      commaEnded_steps names s.scope o 5, margin]
  have request : (c.request 3 { r with steps := xs }).value =
      "\x7b\n" ++ (pad 4 ++ ("name: " ++ quote r.name) ++ ",\n" ++
        (pad 4 ++ ("steps: " ++ stepList 4 (xs.map fun x => (c.step 5 x).value)) ++ ",\n" ++
          commaEnded 4 ((requestMembers 4 r []).drop 2))) ++ pad 3 ++ "\x7d" := by
    simp only [Context.request, Logged.value_bind, Logged.value_pure, Logged.value_each,
      commaEnded_requestMembers]
    rfl
  show (c.sequence _).value = _
  rw [value_sequence, sections_fieldLine, slots, List.map_append, List.map_singleton,
    String.join_append, String.join_cons, String.join_nil, shownList_filled (by simp),
    fieldLine_some, requestsText, List.map_append, List.map_cons, around, request, steps]
  simp only [lines, String.append_assoc, String.append_empty]

/-- A construct at a level is the construct at no level with the spaces of the level after every
line feed, whatever the symbols and the options.  The steps of a script are what they are rendered
to on their own, indented by three levels, and by five in a request. -/
theorem indented_constructs (c : Context) (level : Nat) :
    (∀ x : Step, (∀ name ∈ x.bareNames, '\n' ∉ name.toList) →
      (c.step level x).value = indented level (c.step 0 x).value) ∧
    (∀ x : HardwareCommand, '\n' ∉ x.stem.toList →
      hardwareCommand level x = indented level (hardwareCommand 0 x)) ∧
    (∀ x : ImmediateCommand, (∀ name ∈ x.bareNames, '\n' ∉ name.toList) →
      (c.immediateCommand level x).value = indented level (c.immediateCommand 0 x).value) ∧
    (∀ r : Request, (∀ name ∈ r.bareNames, '\n' ∉ name.toList) →
      (c.request level r).value = indented level (c.request 0 r).value) ∧
    (∀ v : Variable, c.declaration level v = indented level (c.declaration 0 v)) ∧
    (∀ v : Json, json level v = indented level (json 0 v)) ∧
    (∀ s : Sequence, ∃ before after, ∀ xs ≠ [],
      (∀ x ∈ xs, ∀ name ∈ x.bareNames, '\n' ∉ name.toList) →
      (render { s with steps := some xs } c.options).value = before ++ String.join (xs.map fun x =>
        "      " ++ indented 3 (renderStep x s.scope c.options).value ++ ",\n") ++ after) ∧
    (∀ (s : Sequence) (rs ts : List Request) (r : Request), ∃ before after, ∀ xs ≠ [],
      (∀ x ∈ xs, ∀ name ∈ x.bareNames, '\n' ∉ name.toList) →
      (render { s with requests := some (rs ++ { r with steps := xs } :: ts) } c.options).value =
        before ++ String.join (xs.map fun x =>
          "          " ++ indented 5 (renderStep x s.scope c.options).value ++ ",\n") ++
            after) := by
  refine ⟨fun x names => ?_, fun x stem => ?_, fun x names => ?_, fun r names => ?_, fun v => ?_,
    fun v => ?_, fun s => render_steps_eq s c.options,
    fun s rs ts r => render_requests_eq s c.options rs ts r⟩
  · exact (shifts_step c names).eq_indented level
  · exact (shifts_hardwareCommand stem).eq_indented level
  · exact (shifts_immediateCommand c names).eq_indented level
  · exact (shifts_request c names).eq_indented level
  · exact (shifts_declaration c v).eq_indented level
  · exact (shifts_json v).eq_indented level

/-- A command on a group with a symbol that no list declares. -/
def heatCommand : Command :=
  { stem := "HEAT",
    arguments := .named [("at", .group (.positional [.symbol "temp", .literal (.boolean true)]))],
    annotations := { description := some "two\nlines" } }

/-- The constructs of one command, with a line feed in its description. -/
theorem indented_heatCommand :
    (∀ name ∈ (Step.command heatCommand).bareNames, '\n' ∉ name.toList) ∧
    (Context.step {} 1 (.command heatCommand)).value = "C.HEAT(\x7b\n    at: [\n" ++
      "      unknown.temp, //ERROR: Variable 'temp' is not defined as a local or parameter\n" ++
      "      true,\n    ],\n  \x7d)\n    .DESCRIPTION('two\\nlines')" ∧
    (Context.step {} 1 (.command heatCommand)).value =
      indented 1 (Context.step {} 0 (.command heatCommand)).value ∧
    hardwareCommand 1 ⟨"HEAT", heatCommand.annotations⟩ =
      indented 1 (hardwareCommand 0 ⟨"HEAT", heatCommand.annotations⟩) ∧
    (Context.immediateCommand {} 1 { stem := "HEAT", arguments := heatCommand.arguments }).value =
      indented 1 (Context.immediateCommand {} 0
        { stem := "HEAT", arguments := heatCommand.arguments }).value ∧
    (Context.request {} 1 ⟨"a", [.command heatCommand], none, {}⟩).value =
      indented 1 (Context.request {} 0 ⟨"a", [.command heatCommand], none, {}⟩).value ∧
    (∃ before after, (render { id := "a", steps := some [.command heatCommand] } {}).value =
      before ++ ("      " ++ indented 3 (renderStep (.command heatCommand) .empty {}).value ++
        ",\n") ++ after) ∧
    ∃ before after,
      (render { id := "a", requests := some [⟨"b", [.command heatCommand], none, {}⟩] } {}).value =
        before ++ ("          " ++ indented 5 (renderStep (.command heatCommand) .empty {}).value ++
          ",\n") ++ after := by
  have names : ∀ name ∈ (Step.command heatCommand).bareNames, '\n' ∉ name.toList := by decide
  have each : ∀ x ∈ [Step.command heatCommand], ∀ name ∈ x.bareNames, '\n' ∉ name.toList :=
    List.forall_mem_singleton.2 names
  obtain ⟨step, hardware, immediate, request, -, -, steps, requests⟩ := indented_constructs {} 1
  obtain ⟨before, after, script⟩ := steps { id := "a" }
  obtain ⟨before', after', script'⟩ := requests { id := "a" } [] [] { name := "b" }
  have lines := script _ (List.cons_ne_nil _ _) each
  have lines' := script' _ (List.cons_ne_nil _ _) each
  simp only [List.map_cons, List.map_nil, String.join_cons, String.join_nil,
    String.append_empty] at lines lines'
  exact ⟨names, by decide +kernel, step _ names, hardware _ (by decide), immediate _ names,
    request ⟨"a", [.command heatCommand], none, {}⟩ (by decide), ⟨before, after, lines⟩,
    ⟨before', after', lines'⟩⟩

end Script

end SeqScript
