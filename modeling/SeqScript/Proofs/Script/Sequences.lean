import SeqScript.Proofs.Script.Declarations
import SeqScript.Proofs.Script.Steps

/-!
# Sequences told by their scripts

The scripts of two sequences with plain names are the same exactly when the sequences are alike
(`render_eq_iff`).  The declarations stand in front of the commands, the steps and the requests, so
that the lists that the paths of symbols lead to agree before a symbol is read.
-/

namespace SeqScript.Script

open Context Tail

variable {F : Tail}

/-- Members that end in a comma are sections. -/
theorem commaEnded_present (level : Nat) (slots : List (String × Option String)) :
    commaEnded level ((present slots).map fun s => s.1 ++ ": " ++ s.2) =
      sections (pad level) ": " ",\n" id slots := by
  simp only [commaEnded, sections, List.map_map, Function.comp_def, String.append_assoc, id]

/-! ### Requests -/

theorem alike_groundEpochMembers {g h : GroundEpoch} :
    Json.AlikeMembers (Document.groundEpochMembers g) (Document.groundEpochMembers h) ↔ g = h := by
  obtain ⟨name, delta⟩ := g
  obtain ⟨name', delta'⟩ := h
  rcases name with _ | name <;> rcases delta with _ | delta <;> rcases name' with _ | name' <;>
    rcases delta' with _ | delta' <;>
    simp [Document.groundEpochMembers, Document.present, Document.optionalText, Json.AlikeMembers,
      Json.Alike, and_comm]

def requestSlots (level : Nat) (r : Request) (steps : List String) :
    List (String × Option String) := [
  ("name", some (quote r.name)),
  ("steps", some (stepList level steps)),
  ("type", some "'request'"),
  ("description", (shownDescription r.annotations).map quote),
  ("ground_epoch", r.groundEpoch.map fun g => json level (.object (Document.groundEpochMembers g))),
  ("metadata", shownMetadata level r.annotations.metadata)]

theorem requestMembers_eq (level : Nat) (r : Request) (steps : List String) :
    requestMembers level r steps =
      (present (requestSlots level r steps)).map fun s => s.1 ++ ": " ++ s.2 := by
  unfold requestMembers requestSlots shownMetadata
  cases shownDescription r.annotations <;> cases r.groundEpoch <;> split_ifs <;> rfl

theorem value_request (c : Context) (level : Nat) (r : Request) : (c.request level r).value =
    "\x7b\n" ++ (sections (pad (level + 1)) ": " ",\n" id (requestSlots (level + 1) r
      (r.steps.map fun x => (c.step (level + 2) x).value)) ++ (pad level ++ "\x7d")) := by
  rw [← commaEnded_present, ← requestMembers_eq]
  simp only [request, Logged.value_bind, Logged.value_pure, Logged.value_each, String.append_assoc]

/-- The members of two requests side by side. -/
def requestSections (c d : Context) (level : Nat) (r s : Request) : List (Section String) :=
  let steps (c : Context) (r : Request) :=
    stepList (level + 1) (r.steps.map fun x => (c.step (level + 2) x).value)
  let epoch (g : GroundEpoch) := json (level + 1) (.object (Document.groundEpochMembers g))
  [⟨"name", some (quote r.name), some (quote s.name), r.name = s.name⟩,
    ⟨"steps", some (steps c r), some (steps d s), List.Forall₂ Step.Alike r.steps s.steps⟩,
    ⟨"type", some "'request'", some "'request'", True⟩,
    ⟨"description", (shownDescription r.annotations).map quote,
      (shownDescription s.annotations).map quote,
      r.annotations.description.getD "" = s.annotations.description.getD ""⟩,
    ⟨"ground_epoch", r.groundEpoch.map epoch, s.groundEpoch.map epoch,
      r.groundEpoch = s.groundEpoch⟩,
    ⟨"metadata", shownMetadata (level + 1) r.annotations.metadata,
      shownMetadata (level + 1) s.annotations.metadata,
      Json.AlikeMembers r.annotations.metadata s.annotations.metadata⟩]

theorem alike_requestSections {c d : Context} {level : Nat} {r s : Request} :
    (∀ x ∈ requestSections c d level r s, x.alike) ↔ r.Alike s := by
  simp only [requestSections, List.forall_mem_cons, List.not_mem_nil, false_imp_iff, implies_true,
    and_true, true_and]
  exact ⟨fun ⟨name, steps, description, epoch, metadata⟩ =>
      ⟨name, steps, epoch, description, metadata⟩,
    fun ⟨name, steps, epoch, description, metadata⟩ =>
      ⟨name, steps, description, epoch, metadata⟩⟩

/-- What follows the value of a member does not continue a number. -/
theorem stops_isNumeralChar {z : List Char} (h : Begins ",\n" z) : Stops isNumeralChar z :=
  stops_of_comma (begins_of_append (t := "\n") h)

theorem areUnique_requestSections {c d : Context} (agree : c.Agree d) (level : Nat) {r s : Request}
    (hr : ∀ x ∈ r.steps, x.IsPlain) (hs : ∀ x ∈ s.steps, x.IsPlain) :
    Section.AreUnique id (Begins ",\n") (requestSections c d level r s) := by
  refine ⟨unique_quote r.name s.name, fun _ => ⟨?_, fun _ => ⟨.refl _, fun _ =>
    ⟨isUnique_description _ _, fun _ => ⟨Section.isUnique_option_eq (fun g h => ?_) _ _,
      fun _ => ⟨isUnique_metadata _ _ _ fun _ => stops_isNumeralChar, fun _ => trivial⟩⟩⟩⟩⟩⟩
  · exact unique_stepList (level + 1) fun x hx y hy =>
      unique_step agree (level + 2) (hr x hx) (hs y hy)
  · have text := (unique_metadata (level + 1) (Document.groundEpochMembers g)
      (Document.groundEpochMembers h)).mono fun _ => stops_isNumeralChar
    exact text.congr alike_groundEpochMembers

/-- A request tells itself. -/
theorem unique_request {c d : Context} (agree : c.Agree d) (level : Nat) {r s : Request}
    (hr : ∀ x ∈ r.steps, x.IsPlain) (hs : ∀ x ∈ s.steps, x.IsPlain) :
    Unique F (c.request level r).value (d.request level s).value (r.Alike s) := by
  have names : (requestSections c d level r s).map (·.name) =
      ["name", "steps", "type", "description", "ground_epoch", "metadata"] := rfl
  have members := unique_sections (F := Dedents level) (names ▸ by decide) (names ▸ by decide)
    (fun z => stops_of_begins rfl rfl (begins_append ": " z))
    (areUnique_requestSections agree level hr hs) fun x => not_begins_pad (Nat.lt_succ_self level)
  rw [value_request, value_request]
  refine ((members.after _ fun x _ => ?_).before _).congr alike_requestSections
  exact dedents_append level rfl (by decide) x

/-! ### Sequences -/

/-- The text of a list, unless it is absent or empty. -/
def shownList {α : Type} (items : Option (List α)) (text : List α → String) : Option String :=
  if (items.getD []).isEmpty then none else some (text (items.getD []))

/-- A line of the sequence's object, or nothing. -/
def fieldLine (name : String) (v : Option String) : String :=
  sections (pad 2) ": " ",\n" id [(name, v)]

theorem fieldLine_some (name v : String) :
    fieldLine name (some v) = pad 2 ++ name ++ ": " ++ v ++ ",\n" := by
  have closed : pad 2 ++ name ++ ": " ++ (v ++ ",\n") ++ "" =
      pad 2 ++ name ++ ": " ++ v ++ ",\n" := by
    simp only [String.append_empty, String.append_assoc]
  exact sections_some.trans closed

theorem sections_fieldLine (slots : List (String × Option String)) :
    sections (pad 2) ": " ",\n" id slots = String.join (slots.map fun s => fieldLine s.1 s.2) := by
  induction slots with
  | nil => rfl
  | cons s slots ih =>
    obtain ⟨name, v⟩ := s
    rw [List.map_cons, String.join_cons, ← ih]
    simp only [fieldLine, sections, present_cons name, present_nil, List.append_nil,
      List.map_append, String.join_append]

theorem value_field {α : Type} {items : Option (List α)} {line : List α → Logged String}
    {name : String} {text : List α → String}
    (h : ∀ as, (line as).value = pad 2 ++ name ++ ": " ++ text as ++ ",\n") :
    (field items line).value = fieldLine name (shownList items text) := by
  rcases items with _ | (_ | ⟨a, as⟩)
  · rfl
  · rfl
  · refine (h _).trans ?_
    exact (fieldLine_some _ _).symm

theorem isUnique_list {α : Type} {G : Tail} {name : String} {f g : List α → String}
    {R : α → α → Prop} {as bs : Option (List α)}
    (h : ∀ xs ys, as = some xs → bs = some ys → xs ≠ [] → ys ≠ [] →
      Unique G (f xs) (g ys) (List.Forall₂ R xs ys)) :
    Section.IsUnique id G ⟨name, shownList as f, shownList bs g,
      List.Forall₂ R (as.getD []) (bs.getD [])⟩ := by
  refine Section.isUnique_unless leftOut_forall₂ fun left right => ?_
  rcases as with _ | xs
  · contradiction
  rcases bs with _ | ys
  · contradiction
  exact h xs ys rfl rfl (List.isEmpty_eq_false_iff.1 left) (List.isEmpty_eq_false_iff.1 right)

def declarationList (c : Context) (vs : List Variable) : String :=
  separated 2 (vs.map (c.declaration 3))

def hardwareList (xs : List HardwareCommand) : String := separated 2 (xs.map (hardwareCommand 3))

def immediateList (c : Context) (xs : List ImmediateCommand) : String :=
  "[\n" ++ (commaEnded 3 (xs.map fun x => (c.immediateCommand 3 x).value) ++ (pad 2 ++ "]"))

def stepsText (c : Context) (xs : List Step) : String :=
  stepsFunction ++ ("\n" ++
    (commaEnded 3 (xs.map fun x => (c.step 3 x).value) ++ (pad 2 ++ "])")))

def requestsText (c : Context) (xs : List Request) : String :=
  stepsFunction ++ ("\n" ++
    (commaLines 3 (xs.map fun x => (c.request 3 x).value) ++ ("\n" ++ (pad 2 ++ "])"))))

def sequenceSlots (c : Context) (s : Sequence) : List (String × Option String) := [
  ("seqId", some (quote s.id)),
  ("metadata", some (json 2 (.object s.metadata))),
  ("locals", shownList s.locals (declarationList c)),
  ("parameters", shownList s.parameters (declarationList c)),
  ("hardware_commands", shownList s.hardwareCommands hardwareList),
  ("immediate_commands", shownList s.immediateCommands (immediateList c)),
  ("steps", shownList s.steps (stepsText c)),
  ("requests", shownList s.requests (requestsText c))]

theorem value_declarationsField (c : Context) (name : String) (vs : Option (List Variable)) :
    (field vs fun vs => pure (separatedField name (c.declaration 3) vs)).value =
      fieldLine name (shownList vs (declarationList c)) :=
  value_field fun vs => by simp only [Logged.value_pure, separatedField, declarationList]

theorem value_hardwareField (xs : Option (List HardwareCommand)) :
    (field xs fun xs =>
      pure (separatedField "hardware_commands" (hardwareCommand 3) xs)).value =
        fieldLine "hardware_commands" (shownList xs hardwareList) :=
  value_field fun xs => by simp only [Logged.value_pure, separatedField, hardwareList]

theorem value_immediateField (c : Context) (xs : Option (List ImmediateCommand)) :
    (field xs fun xs => do
      let items ← Logged.each (c.immediateCommand 3) xs
      return pad 2 ++ "immediate_commands: [\n" ++ commaEnded 3 items ++ pad 2 ++ "],\n").value =
        fieldLine "immediate_commands" (shownList xs (immediateList c)) := by
  refine value_field fun xs => ?_
  have head : "immediate_commands: [\n" = "immediate_commands" ++ (": " ++ "[\n") := rfl
  have close : "],\n" = "]" ++ ",\n" := rfl
  rw [Logged.value_bind, Logged.value_pure, Logged.value_each, immediateList, head, close]
  simp only [String.append_assoc]

theorem value_stepsField (c : Context) (xs : Option (List Step)) :
    (field xs fun xs => do
      let items ← Logged.each (c.step 3) xs
      return pad 2 ++ "steps: " ++ stepsFunction ++ "\n" ++ commaEnded 3 items ++ pad 2 ++
        "]),\n").value = fieldLine "steps" (shownList xs (stepsText c)) := by
  refine value_field fun xs => ?_
  have head : "steps: " = "steps" ++ ": " := rfl
  have close : "]),\n" = "])" ++ ",\n" := rfl
  rw [Logged.value_bind, Logged.value_pure, Logged.value_each, stepsText, head, close]
  simp only [String.append_assoc]

theorem value_requestsField (c : Context) (xs : Option (List Request)) :
    (field xs fun xs => do
      let items ← Logged.each (c.request 3) xs
      return pad 2 ++ "requests: " ++ stepsFunction ++ "\n" ++ commaLines 3 items ++ "\n" ++
        pad 2 ++ "]),\n").value = fieldLine "requests" (shownList xs (requestsText c)) := by
  refine value_field fun xs => ?_
  have head : "requests: " = "requests" ++ ": " := rfl
  have close : "]),\n" = "])" ++ ",\n" := rfl
  rw [Logged.value_bind, Logged.value_pure, Logged.value_each, requestsText, head, close]
  simp only [String.append_assoc]

theorem value_sequence (c : Context) (s : Sequence) : (c.sequence s).value =
    "export default () =>\n  Sequence.new(\x7b\n" ++
      (sections (pad 2) ": " ",\n" id (sequenceSlots c s) ++ "  \x7d);") := by
  rw [sections_fieldLine, sequenceSlots]
  simp only [List.map_cons, List.map_nil, String.join_cons, String.join_nil]
  rw [← value_declarationsField c "locals", ← value_declarationsField c "parameters",
    ← value_hardwareField, ← value_immediateField, ← value_stepsField, ← value_requestsField,
    fieldLine_some, fieldLine_some]
  unfold Context.sequence
  iterate 6 rw [Logged.value_bind]
  have seqId : "seqId: " = "seqId" ++ ": " := rfl
  have metadata : "metadata: " = "metadata" ++ ": " := rfl
  rw [Logged.value_pure, seqId, metadata]
  simp only [String.append_assoc, String.append_empty]

theorem declares_eq_of_alike {vs ws : List Variable} (h : List.Forall₂ Variable.Alike vs ws)
    (name : String) : Scope.declares vs name = Scope.declares ws name := by
  unfold Scope.declares
  induction h with
  | nil => rfl
  | cons alike _ ih => rw [List.any_cons, List.any_cons, alike.name, ih]

/-- Declarations that are alike lead the paths of symbols to the same lists. -/
theorem agree_of_alike {s t : Sequence} (o : Options)
    (locals : List.Forall₂ Variable.Alike (s.locals.getD []) (t.locals.getD []))
    (parameters : List.Forall₂ Variable.Alike (s.parameters.getD []) (t.parameters.getD [])) :
    Context.Agree ⟨s.scope, o⟩ ⟨t.scope, o⟩ := by
  refine ⟨rfl, fun name => ?_⟩
  unfold Scope.resolve? Sequence.scope
  rw [declares_eq_of_alike locals, declares_eq_of_alike parameters]

section

variable {c d : Context}

theorem unique_declarationList (options : c.options = d.options) (vs ws : List Variable) :
    Unique F (declarationList c vs) (declarationList d ws) (List.Forall₂ Variable.Alike vs ws) :=
  unique_separated 2 fun v _ w _ => unique_declaration options 3 v w

theorem unique_hardwareList {xs ys : List HardwareCommand} (hx : ∀ x ∈ xs, isIdentifier x.stem)
    (hy : ∀ y ∈ ys, isIdentifier y.stem) :
    Unique F (hardwareList xs) (hardwareList ys) (List.Forall₂ HardwareCommand.Alike xs ys) :=
  unique_separated 2 fun x mem y mem' => unique_hardwareCommand 2 (hx x mem) (hy y mem')

theorem unique_immediateList (agree : c.Agree d) {xs ys : List ImmediateCommand}
    (hx : ∀ x ∈ xs, isIdentifier x.stem ∧ x.arguments.IsPlain)
    (hy : ∀ y ∈ ys, isIdentifier y.stem ∧ y.arguments.IsPlain) :
    Unique F (immediateList c xs) (immediateList d ys)
      (List.Forall₂ ImmediateCommand.Alike xs ys) := by
  have items := unique_commaEnded 2 fun x mem y mem' =>
    unique_immediateCommand agree 3 (hx x mem) (hy y mem')
  exact (items.after _ fun x _ => dedents_append 2 rfl (by decide) x).before _

theorem unique_stepsText (agree : c.Agree d) {xs ys : List Step} (hx : ∀ x ∈ xs, x.IsPlain)
    (hy : ∀ y ∈ ys, y.IsPlain) :
    Unique F (stepsText c xs) (stepsText d ys) (List.Forall₂ Step.Alike xs ys) := by
  have items := unique_commaEnded 2 fun x mem y mem' =>
    unique_step agree 3 (hx x mem) (hy y mem')
  exact ((items.after _ fun x _ => dedents_append 2 rfl (by decide) x).before _).before _

theorem unique_requestsText (agree : c.Agree d) {xs ys : List Request}
    (hx : ∀ r ∈ xs, ∀ x ∈ r.steps, x.IsPlain) (hy : ∀ r ∈ ys, ∀ x ∈ r.steps, x.IsPlain)
    (nonempty : xs ≠ []) (nonempty' : ys ≠ []) :
    Unique F (requestsText c xs) (requestsText d ys) (List.Forall₂ Request.Alike xs ys) := by
  have items := unique_commaLines 2 (fun x mem y mem' =>
    unique_request agree 3 (hx x mem) (hy y mem')) nonempty nonempty'
  refine ((items.after _ fun x _ => ?_).before _).before _
  exact ⟨")".toList ++ x, by simp [String.toList_append]⟩

end

/-- The fields of two sequences side by side, those with symbols behind the lists that declare
them. -/
def sequenceSections (c d : Context) (s t : Sequence) : List (Section String) := [
  ⟨"seqId", some (quote s.id), some (quote t.id), s.id = t.id⟩,
  ⟨"metadata", some (json 2 (.object s.metadata)), some (json 2 (.object t.metadata)),
    Json.AlikeMembers s.metadata t.metadata⟩,
  ⟨"locals", shownList s.locals (declarationList c), shownList t.locals (declarationList d),
    List.Forall₂ Variable.Alike (s.locals.getD []) (t.locals.getD [])⟩,
  ⟨"parameters", shownList s.parameters (declarationList c),
    shownList t.parameters (declarationList d),
    List.Forall₂ Variable.Alike (s.parameters.getD []) (t.parameters.getD [])⟩,
  ⟨"hardware_commands", shownList s.hardwareCommands hardwareList,
    shownList t.hardwareCommands hardwareList,
    List.Forall₂ HardwareCommand.Alike (s.hardwareCommands.getD []) (t.hardwareCommands.getD [])⟩,
  ⟨"immediate_commands", shownList s.immediateCommands (immediateList c),
    shownList t.immediateCommands (immediateList d),
    List.Forall₂ ImmediateCommand.Alike (s.immediateCommands.getD [])
      (t.immediateCommands.getD [])⟩,
  ⟨"steps", shownList s.steps (stepsText c), shownList t.steps (stepsText d),
    List.Forall₂ Step.Alike (s.steps.getD []) (t.steps.getD [])⟩,
  ⟨"requests", shownList s.requests (requestsText c), shownList t.requests (requestsText d),
    List.Forall₂ Request.Alike (s.requests.getD []) (t.requests.getD [])⟩]

theorem alike_sequenceSections {c d : Context} {s t : Sequence} :
    (∀ x ∈ sequenceSections c d s t, x.alike) ↔ s.Alike t := by
  simp only [sequenceSections, List.forall_mem_cons, List.not_mem_nil, false_imp_iff,
    implies_true, and_true]
  exact ⟨fun ⟨id, metadata, locals, parameters, hardware, immediate, steps, requests⟩ =>
      ⟨id, metadata, locals, parameters, hardware, immediate, steps, requests⟩,
    fun ⟨id, metadata, locals, parameters, hardware, immediate, steps, requests⟩ =>
      ⟨id, metadata, locals, parameters, hardware, immediate, steps, requests⟩⟩

/-- The lists behind the declarations are told once the declarations agree. -/
theorem areUnique_commandSections {c d : Context} (agree : c.Agree d) {s t : Sequence}
    (hs : s.IsPlain) (ht : t.IsPlain) :
    Section.AreUnique id (Begins ",\n") ((sequenceSections c d s t).drop 4) := by
  refine ⟨isUnique_list fun xs ys hx hy _ _ => ?_, fun _ =>
    ⟨isUnique_list fun xs ys hx hy _ _ => ?_, fun _ =>
      ⟨isUnique_list fun xs ys hx hy _ _ => ?_, fun _ =>
        ⟨isUnique_list fun xs ys hx hy filled filled' => ?_, fun _ => trivial⟩⟩⟩⟩
  · exact unique_hardwareList (hs.hardwareCommands xs hx) (ht.hardwareCommands ys hy)
  · exact unique_immediateList agree (hs.immediateCommands xs hx) (ht.immediateCommands ys hy)
  · exact unique_stepsText agree (hs.steps xs hx) (ht.steps ys hy)
  · exact unique_requestsText agree (hs.requests xs hx) (ht.requests ys hy) filled filled'

theorem areUnique_sequenceSections {s t : Sequence} (hs : s.IsPlain) (ht : t.IsPlain)
    (o : Options) :
    Section.AreUnique id (Begins ",\n") (sequenceSections ⟨s.scope, o⟩ ⟨t.scope, o⟩ s t) :=
  ⟨unique_quote s.id t.id, fun _ =>
    ⟨(unique_metadata 2 _ _).mono fun _ => stops_isNumeralChar, fun _ =>
      ⟨isUnique_list fun vs ws _ _ _ _ => unique_declarationList rfl vs ws, fun locals =>
        ⟨isUnique_list fun vs ws _ _ _ _ => unique_declarationList rfl vs ws, fun parameters =>
          areUnique_commandSections (agree_of_alike o locals parameters) hs ht⟩⟩⟩⟩

/-- The fields of a sequence are told one by one; those with symbols come after the lists that
declare them. -/
theorem unique_sequence {s t : Sequence} (hs : s.IsPlain) (ht : t.IsPlain) (o : Options) :
    Unique F (render s o).value (render t o).value (s.Alike t) := by
  have names : (sequenceSections ⟨s.scope, o⟩ ⟨t.scope, o⟩ s t).map (·.name) = ["seqId",
    "metadata", "locals", "parameters", "hardware_commands", "immediate_commands", "steps",
    "requests"] := rfl
  have fields := unique_sections (F := Dedents 1) (names ▸ by decide) (names ▸ by decide)
    (fun z => stops_of_begins rfl rfl (begins_append ": " z)) (areUnique_sequenceSections hs ht o)
    fun x => not_begins_pad (Nat.lt_succ_self 1)
  rw [render, render, value_sequence, value_sequence]
  refine ((fields.after _ fun x _ => ?_).before _).congr alike_sequenceSections
  exact ⟨'}', [')', ';'] ++ x, by decide, rfl⟩

/-- Sequences with plain names have the same script, with any options, exactly when they are alike:
the text tells everything about a sequence but what it does not show. -/
theorem render_eq_iff {s t : Sequence} (hs : s.IsPlain) (ht : t.IsPlain) (o : Options) :
    (render s o).value = (render t o).value ↔ s.Alike t := by
  have told := unique_sequence (F := Any) hs ht o [] [] trivial trivial
  rwa [List.append_nil, List.append_nil, String.toList_inj, eq_self, and_true] at told

/-- A command without arguments has the same script however their absence is stored, and another one
than a ground event of the name. -/
theorem render_command_eq_ne :
    (render { id := "a", locals := some [], steps := some [.command
      { stem := "ADD", arguments := .named [], annotations := { description := some "" } }] }
        {}).value = (render { id := "a", steps := some [.command { stem := "ADD" }] } {}).value ∧
    (render { id := "a", steps := some [.command { stem := "ADD" }] } {}).value ≠
      (render { id := "a", steps := some [.groundEvent { name := "ADD" }] } {}).value := by
  have empty : (Arguments.named []).IsPlain := by
    rw [Arguments.IsPlain]
    trivial
  have plain (x : Step) (h : x.IsPlain) (locals : Option (List Variable)) :
      Sequence.IsPlain { id := "a", locals := locals, steps := some [x] } := by
    refine ⟨by simp, by simp, ?_, by simp⟩
    rintro _ ⟨⟩ y hy
    exact List.mem_singleton.1 hy ▸ h
  have stem : isIdentifier "ADD" := by decide
  have bare := plain (.command { stem := "ADD" }) ⟨stem, isPlain_none⟩ none
  have stored := plain (.command
    { stem := "ADD", arguments := .named [], annotations := { description := some "" } })
    ⟨stem, empty⟩ (some [])
  have event := plain (.groundEvent { name := "ADD" }) isPlain_none none
  refine ⟨(render_eq_iff stored bare {}).2 ?_, fun same => ?_⟩
  · have step : Step.Alike (.command
        { stem := "ADD", arguments := .named [], annotations := { description := some "" } })
        (.command { stem := "ADD" }) :=
      ⟨rfl, .inl ⟨rfl, rfl⟩, rfl, rfl, trivial⟩
    exact ⟨rfl, trivial, .nil, .nil, .nil, .nil, .cons step .nil, .nil⟩
  · cases ((render_eq_iff bare event {}).1 same).steps with
    | cons step _ => exact step

end SeqScript.Script
