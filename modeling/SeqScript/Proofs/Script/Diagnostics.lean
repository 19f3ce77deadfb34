import SeqScript.Proofs.Document.Regular
import SeqScript.Proofs.Script.Comments
import SeqScript.Proofs.Script.Modules
import SeqScript.Proofs.Script.Settled

/-!
# Diagnostics in scripts

A script is a layout around the literals and symbols of its arguments, which stand in it in reading
order (`laidOut_sequence`).  The layout depends neither on what is declared nor on the options, and
of the literals and symbols none but an unknown symbol has a diagnostic (`leafText`).  The warnings
are those of the unknown symbols, in the same order (`warnings_sequence`).
-/

namespace SeqScript

/-! ### Literals and symbols -/

/-- An argument that is no group. -/
inductive Leaf where
  | literal (l : Literal)
  | symbol (name : String)

mutual

def Argument.leaves : Argument → List Leaf
  | .literal l => [.literal l]
  | .symbol name => [.symbol name]
  | .group a => Arguments.leaves a

/-- The literals and symbols at every depth, from left to right. -/
def Arguments.leaves : Arguments → List Leaf
  | .positional as => Arguments.leavesItems as
  | .named as => Arguments.leavesNamed as

def Arguments.leavesItems : List Argument → List Leaf
  | [] => []
  | a :: as => Argument.leaves a ++ Arguments.leavesItems as

def Arguments.leavesNamed : List (String × Argument) → List Leaf
  | [] => []
  | (_, a) :: as => Argument.leaves a ++ Arguments.leavesNamed as

end

theorem Arguments.leaves_eq (a : Arguments) : a.leaves = a.members.flatMap (·.2.leaves) := by
  cases a with
  | positional as =>
    rw [leaves, members, List.flatMap_map]
    induction as with
    | nil => rfl
    | cons a as ih => rw [leavesItems, ih, List.flatMap_cons]
  | named as =>
    rw [leaves, members, List.flatMap_map]
    induction as with
    | nil => rfl
    | cons a as ih => rw [leavesNamed, ih, List.flatMap_cons]

/-- The literals and symbols in the order in which a script is read. -/
def Sequence.leaves (s : Sequence) : List Leaf := s.collections.flatMap (·.leaves)

/-- The name of a symbol that neither list declares. -/
def Leaf.undeclared? (scope : Scope) : Leaf → Option String
  | literal _ => none
  | symbol name =>
    if Scope.declares scope.locals name || Scope.declares scope.parameters name then none
    else some name

namespace Script

open Context
open Source hiding step

/-! ### Warnings -/

section

variable {α : Type} (scope : Scope)

/-- The warnings of leaves in their order. -/
def undefinedWarnings (leaves : List Leaf) : List Warning :=
  (leaves.filterMap (Leaf.undeclared? scope)).map .undefined

theorem undefinedWarnings_append (ls ms : List Leaf) :
    undefinedWarnings scope (ls ++ ms) =
      undefinedWarnings scope ls ++ undefinedWarnings scope ms := by
  simp only [undefinedWarnings, List.filterMap_append, List.map_append]

theorem undefinedWarnings_flatMap (as : List α) (f : α → List Leaf) :
    undefinedWarnings scope (as.flatMap f) = as.flatMap fun a => undefinedWarnings scope (f a) := by
  simp only [undefinedWarnings, List.filterMap_flatMap, List.map_flatMap]

end

section

variable (c : Context) (level : Nat)

theorem warnings_symbol (name : String) :
    (c.symbol name).warnings = undefinedWarnings c.scope [.symbol name] := by
  simp only [undefinedWarnings, List.filterMap_cons, List.filterMap_nil, Leaf.undeclared?,
    Context.symbol, Scope.resolve?]
  cases Scope.declares c.scope.locals name <;> cases Scope.declares c.scope.parameters name <;> rfl

theorem warnings_positional (as : List Argument) :
    (c.positional level as).warnings = as.flatMap fun a => (c.argument level a).warnings := by
  induction as with
  | nil => rfl
  | cons a as ih =>
    rw [positional, List.flatMap_cons, ← ih]
    simp

theorem warnings_named (as : List (String × Argument)) :
    (c.named level as).warnings = as.flatMap fun a => (c.argument level a.2).warnings := by
  induction as with
  | nil => rfl
  | cons a as ih =>
    obtain ⟨name, a⟩ := a
    rw [named, List.flatMap_cons, ← ih]
    simp

theorem warnings_arguments_members (a : Arguments) : (c.arguments level a).warnings =
    a.members.flatMap fun m => (c.argument (level + 1) m.2).warnings := by
  cases a with
  | positional as =>
    simp [Context.arguments, warnings_positional, Arguments.members, List.flatMap_map]
  | named as => simp [Context.arguments, warnings_named, Arguments.members, List.flatMap_map]

theorem warnings_argument (a : Argument) :
    (c.argument level a).warnings = undefinedWarnings c.scope a.leaves := by
  induction a using Argument.membersInduction generalizing level with
  | literal l => rfl
  | symbol name => exact warnings_symbol c name
  | group a ih =>
    have members := List.flatMap_congr fun m mem => ih m mem (level + 1)
    rw [Argument.leaves, a.leaves_eq, undefinedWarnings_flatMap, ← members,
      ← warnings_arguments_members]
    simp [argument]

theorem warnings_arguments (a : Arguments) :
    (c.arguments level a).warnings = undefinedWarnings c.scope a.leaves := by
  have group := warnings_argument c level (.group a)
  rw [Argument.leaves] at group
  simpa [argument] using group

theorem leaves_of_isEmpty {a : Arguments} (h : a.isEmpty) : a.leaves = [] := by
  rw [← a.isEmpty_members, List.isEmpty_iff] at h
  rw [a.leaves_eq, h, List.flatMap_nil]

theorem warnings_callArguments (a : Arguments) :
    (c.callArguments level a).warnings = undefinedWarnings c.scope a.leaves := by
  unfold callArguments
  split_ifs with empty
  · rw [leaves_of_isEmpty empty]
    rfl
  · simp [warnings_arguments]

theorem warnings_typedArguments (a : Arguments) :
    (c.typedArguments level a).warnings = undefinedWarnings c.scope a.leaves := by
  rw [a.leaves_eq, undefinedWarnings_flatMap]
  cases a <;> simp [typedArguments, typedArgument, Logged.warnings_each, Arguments.members,
    List.flatMap_map, warnings_argument]

theorem warnings_argumentsAttribute (a : Arguments) :
    (c.argumentsAttribute level a).warnings = undefinedWarnings c.scope a.leaves := by
  unfold argumentsAttribute
  split_ifs with empty
  · rw [leaves_of_isEmpty empty]
    rfl
  · simp [warnings_typedArguments]

theorem warnings_step (x : Step) :
    (c.step level x).warnings = undefinedWarnings c.scope x.arguments.leaves := by
  cases x <;> simp [step, sequenceCall, warnings_callArguments, warnings_argumentsAttribute,
    Step.arguments]

theorem warnings_request (r : Request) : (c.request level r).warnings =
    r.steps.flatMap fun x => undefinedWarnings c.scope x.arguments.leaves := by
  simp [request, Logged.warnings_each, warnings_step]

theorem warnings_immediateCommand (x : ImmediateCommand) :
    (c.immediateCommand level x).warnings = undefinedWarnings c.scope x.arguments.leaves := by
  simp [immediateCommand, warnings_callArguments]

theorem warnings_field {α : Type} {items : Option (List α)} {line : List α → Logged String}
    {f : α → List Warning} (h : ∀ as, (line as).warnings = as.flatMap f) :
    (field items line).warnings = (items.getD []).flatMap f := by
  rcases items with _ | (_ | ⟨a, as⟩)
  · rfl
  · rfl
  · exact h (a :: as)

theorem warnings_field_pure {α : Type} (items : Option (List α)) (line : List α → String) :
    (field items fun as => pure (line as)).warnings = [] := by
  rcases items with _ | (_ | ⟨a, as⟩) <;> rfl

/-- The warnings of a script are those of its unknown symbols, in reading order. -/
theorem warnings_sequence (s : Sequence) :
    (c.sequence s).warnings = undefinedWarnings c.scope s.leaves := by
  let w (a : Arguments) : List Warning := undefinedWarnings c.scope a.leaves
  have immediate (xs : List ImmediateCommand) :
      (Logged.each (c.immediateCommand 3) xs).warnings = xs.flatMap fun x => w x.arguments := by
    simp only [Logged.warnings_each, warnings_immediateCommand, w]
  have steps (xs : List Step) :
      (Logged.each (c.step 3) xs).warnings = xs.flatMap fun x => w x.arguments := by
    simp only [Logged.warnings_each, warnings_step, w]
  have requests (rs : List Request) : (Logged.each (c.request 3) rs).warnings =
      rs.flatMap fun r => r.steps.flatMap fun x => w x.arguments := by
    simp only [Logged.warnings_each, warnings_request, w]
  unfold Context.sequence
  simp only [Logged.warnings_bind, Logged.warnings_pure, warnings_field_pure, List.nil_append,
    List.append_nil]
  rw [warnings_field fun xs => (List.append_nil _).trans (immediate xs),
    warnings_field fun xs => (List.append_nil _).trans (steps xs),
    warnings_field fun rs => (List.append_nil _).trans (requests rs)]
  simp only [w, Sequence.leaves, Sequence.collections, Sequence.allSteps, List.flatMap_append,
    List.flatMap_map, undefinedWarnings_append, undefinedWarnings_flatMap, List.flatMap_assoc]

end

/-! ### Layouts around leaves -/

/-- A part of a script. -/
inductive Piece where
  | layout (text : String)
  | leaf (l : Leaf)

def Piece.leaf? : Piece → Option Leaf
  | layout _ => none
  | leaf l => some l

/-- The comment of an unknown symbol, behind the slashes. -/
def diagnosticText (o : Options) (name : String) : String :=
  "ERROR: " ++ Warning.undefinedMessage name ++ if o.legacyErrorComments then "," else ""

/-- The rest of the line that a literal or symbol stands on.  A symbol that a local has the name of
is a path into the locals, even if a parameter has the name too. -/
def leafText (c : Context) : Leaf → String
  | .literal l => literal l ++ ",\n"
  | .symbol name =>
    if Scope.declares c.scope.locals name then "locals." ++ name ++ ",\n"
    else if Scope.declares c.scope.parameters name then "parameters." ++ name ++ ",\n"
    else "unknown." ++ name ++ (if c.options.legacyErrorComments then " " else ", ") ++
      ("//" ++ (diagnosticText c.options name ++ "\n"))

def Piece.text (c : Context) : Piece → String
  | layout text => text
  | leaf l => leafText c l

def assemble (c : Context) (pieces : List Piece) : String := String.join (pieces.map (·.text c))

/-- A text that is laid out in the same way for every context, around the same leaves.  On the
condition `P` no part of the layout has comments. -/
def LaidOut (P : Prop) (f : Context → String) (leaves : List Leaf) : Prop :=
  ∃ pieces : List Piece, pieces.filterMap Piece.leaf? = leaves ∧
    (P → ∀ text, .layout text ∈ pieces → Quiet text) ∧ ∀ c, f c = assemble c pieces

variable {α : Type} {P : Prop}

namespace LaidOut

variable {f g : Context → String} {ls ms : List Leaf} {s : String}

theorem layout (quiet : P → Quiet s) : LaidOut P (fun _ => s) [] := by
  refine ⟨[.layout s], rfl, fun h text mem => ?_, fun c => ?_⟩
  · cases List.mem_singleton.1 mem
    exact quiet h
  · rw [assemble, List.map_singleton, String.join_cons, String.join_nil, String.append_empty]
    rfl

theorem leaf (l : Leaf) : LaidOut P (leafText · l) [l] := by
  refine ⟨[.leaf l], rfl, fun _ text mem => ?_, fun c => ?_⟩
  · exact absurd (List.mem_singleton.1 mem) nofun
  · rw [assemble, List.map_singleton, String.join_cons, String.join_nil, String.append_empty]
    rfl

theorem congr (h : LaidOut P f ls) (same : ∀ c, g c = f c) : LaidOut P g ls :=
  (funext same : g = f) ▸ h

theorem append (h : LaidOut P f ls) (h' : LaidOut P g ms) :
    LaidOut P (fun c => f c ++ g c) (ls ++ ms) := by
  obtain ⟨ps, rfl, quiet, text⟩ := h
  obtain ⟨qs, rfl, quiet', text'⟩ := h'
  refine ⟨ps ++ qs, List.filterMap_append, fun h s mem => ?_, fun c => ?_⟩
  · exact (List.mem_append.1 mem).elim (quiet h s) (quiet' h s)
  · simp only [text, text', assemble, List.map_append, String.join_append]

theorem before (quiet : P → Quiet s) (h : LaidOut P f ls) : LaidOut P (fun c => s ++ f c) ls :=
  (layout quiet).append h

theorem after (h : LaidOut P f ls) (quiet : P → Quiet s) : LaidOut P (fun c => f c ++ s) ls := by
  have both := h.append (layout quiet)
  rwa [List.append_nil] at both

theorem join {as : List α} {f : Context → α → String} {ls : α → List Leaf}
    (h : ∀ a ∈ as, LaidOut P (fun c => f c a) (ls a)) :
    LaidOut P (fun c => String.join (as.map (f c))) (as.flatMap ls) := by
  induction as with
  | nil => exact layout fun _ => .nil
  | cons a as ih =>
    obtain ⟨first, rest⟩ := List.forall_mem_cons.1 h
    exact (first.append (ih rest)).congr fun c => by rw [List.map_cons, String.join_cons]

end LaidOut

/-- A text of bare characters has no comments on any condition. -/
theorem always_quiet {s : String} (h : s.toList.all isBareChar) : P → Quiet s :=
  fun _ => quiet_text h

/-! ### Objects and lists -/

section

variable {as : List α} {ls : α → List Leaf} (level : Nat)

theorem flatMap_no_leaves (as : List α) : as.flatMap (fun _ => ([] : List Leaf)) = [] :=
  List.flatMap_eq_nil_iff.2 fun _ _ => rfl

theorem laidOut_array {f : Context → α → Fragment}
    (h : ∀ a ∈ as, LaidOut P (fun c => (f c a).member c.options ++ "\n") (ls a)) :
    LaidOut P (fun c => array c.options level (as.map (f c))) (as.flatMap ls) := by
  unfold array itemLines
  simp only [List.isEmpty_map, List.map_map]
  split_ifs with empty
  · rw [List.isEmpty_iff.1 empty]
    exact .layout (always_quiet rfl)
  · have lines := LaidOut.join fun a mem => (h a mem).before fun _ => quiet_pad (level + 1)
    simp only [← String.append_assoc] at lines
    exact ((lines.before (always_quiet rfl)).after fun _ => quiet_pad level).after
      (always_quiet rfl)

theorem laidOut_object (name : α → String) {f : Context → α → Fragment}
    (h : ∀ a ∈ as, LaidOut P (fun c => (f c a).member c.options ++ "\n") (ls a)) :
    LaidOut P (fun c => object c.options level (as.map fun a => (name a, f c a)))
      (as.flatMap ls) := by
  unfold object memberLines
  simp only [List.isEmpty_map, List.map_map]
  split_ifs with empty
  · rw [List.isEmpty_iff.1 empty]
    exact .layout (always_quiet rfl)
  · have lines := LaidOut.join fun a mem => (h a mem).before fun _ =>
      ((quiet_pad (level + 1)).append (quiet_key (name a))).append (quiet_text (p := ": ") rfl)
    simp only [← String.append_assoc] at lines
    exact ((lines.before (always_quiet rfl)).after fun _ => quiet_pad level).after
      (always_quiet rfl)

/-- A member without a diagnostic. -/
theorem laidOut_plain {s : String} (quiet : Quiet s) :
    LaidOut P (fun c => (Fragment.plain s).member c.options ++ "\n") [] :=
  .layout fun _ => (quiet.append (quiet_text rfl)).append (quiet_text rfl)

/-- An object of members without diagnostics is part of the layout. -/
theorem laidOut_plainObject {entries : List (String × String)} (quiet : ∀ e ∈ entries, Quiet e.2) :
    LaidOut P (fun c => object c.options level (entries.map fun e => (e.1, .plain e.2))) [] := by
  have members := laidOut_object (P := P) level (·.1) fun e (mem : e ∈ entries) =>
    laidOut_plain (quiet e mem)
  rwa [flatMap_no_leaves] at members

/-- An object whose last member alone is laid out around leaves. -/
theorem laidOut_object_last {entries : List (String × String)} (quiet : ∀ e ∈ entries, Quiet e.2)
    (name : String) {f : Context → Fragment} {ls : List Leaf}
    (h : LaidOut P (fun c => (f c).member c.options ++ "\n") ls) :
    LaidOut P (fun c => object c.options level
      (entries.map (fun e => (e.1, .plain e.2)) ++ [(name, f c)])) ls := by
  -- The last member is the slot without an entry.
  let slots : List (Option (String × String)) := entries.map some ++ [none]
  have members : LaidOut P (fun c => object c.options level (slots.map fun slot =>
      ((slot.map (·.1)).getD name, (slot.map fun e => Fragment.plain e.2).getD (f c))))
      (slots.flatMap fun slot => if slot.isSome then [] else ls) := by
    refine laidOut_object level _ (List.forall_mem_append.2 ⟨?_, ?_⟩)
    · exact List.forall_mem_map.2 fun e mem => laidOut_plain (quiet e mem)
    · exact List.forall_mem_singleton.2 h
  simpa [slots, List.flatMap_map, Function.comp_def, flatMap_no_leaves] using members

theorem laidOut_commaEnded {f : Context → α → String}
    (h : ∀ a ∈ as, LaidOut P (fun c => f c a) (ls a)) :
    LaidOut P (fun c => commaEnded level (as.map (f c))) (as.flatMap ls) := by
  unfold commaEnded
  simp only [List.map_map]
  exact .join fun a mem => ((h a mem).before fun _ => quiet_pad level).after (always_quiet rfl)

theorem laidOut_stepList {f : Context → α → String}
    (h : ∀ a ∈ as, LaidOut P (fun c => f c a) (ls a)) :
    LaidOut P (fun c => stepList level (as.map (f c))) (as.flatMap ls) := by
  unfold stepList
  simp only [List.isEmpty_map]
  split_ifs with empty
  · rw [List.isEmpty_iff.1 empty]
    exact .layout (always_quiet rfl)
  · exact (((laidOut_commaEnded (level + 1) h).before (always_quiet rfl)).after
      fun _ => quiet_pad level).after (always_quiet rfl)

theorem laidOut_commaLines {f : Context → α → String}
    (h : ∀ a ∈ as, LaidOut P (fun c => f c a) (ls a)) :
    LaidOut P (fun c => commaLines level (as.map (f c))) (as.flatMap ls) := by
  rcases as with _ | ⟨a, as⟩
  · exact .layout (always_quiet rfl)
  · obtain ⟨first, rest⟩ := List.forall_mem_cons.1 h
    simp only [List.map_cons, commaLines_cons, List.map_map]
    exact (first.before fun _ => quiet_pad level).append (.join fun a mem =>
      ((rest a mem).before fun _ => quiet_pad level).before (always_quiet rfl))

theorem laidOut_separated {f : Context → α → String}
    (h : ∀ a ∈ as, LaidOut P (fun c => f c a) (ls a)) :
    LaidOut P (fun c => separated level (as.map (f c))) (as.flatMap ls) := by
  unfold separated
  simp only [List.isEmpty_map]
  split_ifs with empty
  · rw [List.isEmpty_iff.1 empty]
    exact .layout (always_quiet rfl)
  · exact ((((laidOut_commaLines (level + 1) h).before (always_quiet rfl)).after
      (always_quiet rfl)).after fun _ => quiet_pad level).after (always_quiet rfl)

end

/-! ### Arguments -/

section

variable (level : Nat)

theorem laidOut_symbol (name : String) :
    LaidOut P (fun c => (c.symbol name).value.member c.options ++ "\n") [.symbol name] := by
  refine (LaidOut.leaf (.symbol name)).congr fun c => ?_
  have comma : ",\n" = "," ++ "\n" := rfl
  have legacy : " //" = " " ++ "//" := rfl
  have comment : ", //" = ", " ++ "//" := rfl
  rw [member_symbol, leafText, Scope.resolve?, comma, diagnosticText]
  split_ifs <;>
    simp only [pathHead, pathEnd, VariableKind.listName, if_true, String.append_assoc,
      String.append_empty, *] <;> rfl

theorem laidOut_arguments_of_members {a : Arguments}
    (h : ∀ m ∈ a.members,
      LaidOut P (fun c => (c.argument (level + 1) m.2).value.member c.options ++ "\n")
        m.2.leaves) :
    LaidOut P (fun c => (c.arguments level a).value) a.leaves := by
  rw [a.leaves_eq]
  cases a with
  | positional as =>
    simp only [Context.arguments, Logged.value_bind, Logged.value_pure, value_positional,
      Arguments.members, List.flatMap_map]
    exact laidOut_array level fun a mem => List.forall_mem_map.1 h a mem
  | named as =>
    simp only [Context.arguments, Logged.value_bind, Logged.value_pure, value_named,
      Arguments.members, List.flatMap_map]
    exact laidOut_object level (·.1) fun a mem => List.forall_mem_map.1 h a mem

theorem laidOut_argument (a : Argument) :
    LaidOut P (fun c => (c.argument level a).value.member c.options ++ "\n") a.leaves := by
  induction a using Argument.membersInduction generalizing level with
  | literal l =>
    refine (LaidOut.leaf (.literal l)).congr fun c => ?_
    exact String.append_assoc
  | symbol name => exact laidOut_symbol name
  | group a ih =>
    -- Behind the bracket of a group there is a comma and nothing else.
    exact ((laidOut_arguments_of_members level fun m mem => ih m mem (level + 1)).after
      (always_quiet rfl)).after (always_quiet rfl)

theorem laidOut_arguments (a : Arguments) :
    LaidOut P (fun c => (c.arguments level a).value) a.leaves :=
  laidOut_arguments_of_members level fun m _ => laidOut_argument (level + 1) m.2

theorem laidOut_callArguments (a : Arguments) :
    LaidOut P (fun c => (c.callArguments level a).value) a.leaves := by
  simp only [value_callArguments]
  split_ifs with empty
  · rw [leaves_of_isEmpty empty]
    exact .layout (always_quiet rfl)
  · exact ((laidOut_arguments level a).after (always_quiet rfl)).before (always_quiet rfl)

theorem laidOut_typedArgument (name : Option String) (a : Argument) :
    LaidOut P (fun c => (c.typedArgument level name a).value.member c.options ++ "\n")
      a.leaves := by
  have quiet : ∀ e ∈ name.toList.map (fun n => ("name", quote n)) ++
      [("type", quote a.type.name)], Quiet e.2 :=
    List.forall_mem_append.2 ⟨List.forall_mem_map.2 fun n _ => quiet_quote n,
      List.forall_mem_singleton.2 (quiet_quote a.type.name)⟩
  have object := laidOut_object_last (P := P) level quiet "value" (laidOut_argument (level + 1) a)
  have line := (object.after (always_quiet (s := ",") rfl)).after (always_quiet (s := "\n") rfl)
  refine line.congr fun c => ?_
  cases name <;> rfl

theorem laidOut_argumentsAttribute {head : String} (quiet : P → Quiet head) (a : Arguments) :
    LaidOut P (fun c => chain level head (c.argumentsAttribute level a).value) a.leaves := by
  simp only [argumentsAttribute_eq, shownArguments, value_typedArguments]
  split_ifs with empty
  · rw [leaves_of_isEmpty empty]
    exact .layout fun h => quiet_chain level (quiet h) (List.forall_mem_nil _)
  · have items := laidOut_array (P := P) level fun m (_ : m ∈ a.members) =>
      laidOut_typedArgument (level + 1) m.1 m.2
    have called : P → Quiet ("\n" ++ pad level ++ "." ++ "ARGUMENTS" ++ "(") := fun _ =>
      ((((quiet_text rfl).append (quiet_pad level)).append (quiet_text rfl)).append
        (quiet_text rfl)).append (quiet_text rfl)
    simp only [Option.toList_some, List.map_singleton, chain, String.join_cons, String.join_nil,
      String.append_empty, a.leaves_eq]
    exact ((items.before called).after (always_quiet rfl)).before quiet

/-! ### Steps and commands -/

theorem laidOut_model (m : ModelAssignment) :
    LaidOut P (fun c => model c.options level m) [] := by
  have quiet : ∀ e ∈ [("offset", quote m.offset.text), ("value", literal m.value),
      ("variable", quote m.variableName)], Quiet e.2 := by
    simp only [List.forall_mem_cons]
    exact ⟨quiet_quote _, quiet_literal _, quiet_quote _, List.forall_mem_nil _⟩
  exact laidOut_plainObject level quiet

/-- A chain that goes on with attributes that are part of the layout. -/
theorem laidOut_chain {f : Context → String} {ls : List Leaf} (h : LaidOut P f ls)
    {attributes : List Attribute} (quiet : AreQuiet attributes) :
    LaidOut P (fun c => chain level (f c) attributes) ls := by
  have rest : Quiet (chain level "" attributes) := quiet_chain level .nil quiet
  rw [chain, String.empty_append] at rest
  exact h.after fun _ => rest

theorem laidOut_modelsAttribute {f : Context → String} {ls : List Leaf} (h : LaidOut P f ls)
    (models : List ModelAssignment) :
    LaidOut P (fun c => chain level (f c) (modelsAttribute c.options level models)) ls := by
  unfold modelsAttribute
  split_ifs
  · exact laidOut_chain level h (List.forall_mem_nil _)
  · have items := laidOut_separated (P := P) level fun m (_ : m ∈ models) =>
      laidOut_model (level + 1) m
    have called : P → Quiet ("\n" ++ pad level ++ "." ++ "MODELS" ++ "(") := fun _ =>
      ((((quiet_text rfl).append (quiet_pad level)).append (quiet_text rfl)).append
        (quiet_text rfl)).append (quiet_text rfl)
    have both := h.append ((items.before called).after (always_quiet (s := ")") rfl))
    rw [flatMap_no_leaves, List.append_nil] at both
    simp only [List.map_singleton, chain, String.join_cons, String.join_nil, String.append_empty]
    exact both

/-- Among the attributes only the arguments have diagnostics. -/
theorem laidOut_attributes {head : String} (quiet : P → Quiet head) (x : Chained) :
    LaidOut P (fun c => chain level head (present (x.slots c level))) x.arguments.leaves := by
  have arguments := laidOut_argumentsAttribute level quiet x.arguments
  have described := laidOut_chain level arguments (areQuiet_description x.annotations)
  have engine := laidOut_chain level described (areQuiet_engine x.engine)
  have epoch := laidOut_chain level engine (areQuiet_epoch x.epoch)
  have metadata := laidOut_chain level epoch (areQuiet_metadata level x.annotations)
  simp only [present_slots, chain_append]
  exact laidOut_modelsAttribute level metadata x.models

/-- A name that stays on its line and begins neither a literal nor a comment. -/
def isBare (name : String) : Bool := name.toList.all fun c => isBareChar c && !isLineEnd c

theorem quiet_of_isBare {name : String} (h : isBare name) : Quiet name := by
  refine quiet_bare fun c mem => ?_
  have both := List.all_eq_true.1 h c mem
  rw [Bool.and_eq_true] at both
  exact both.1

/-- What a step other than a command is called on. -/
theorem quiet_called (t : Timing) {word : String} (hw : Quiet word) (name : String) :
    Quiet (timing t ++ ("." ++ (word ++ ("(" ++ (quote name ++ ")"))))) :=
  (quiet_timing t).append ((quiet_text rfl).append (hw.append ((quiet_text rfl).append
    ((quiet_quote name).append (quiet_text rfl)))))

theorem laidOut_step {x : Step} (bare : P → isBare (statement x).word) :
    LaidOut P (fun c => (c.step level x).value) x.arguments.leaves := by
  simp only [value_step]
  have called (t : Timing) {word : String} (hw : Quiet word) (name : String) (y : Chained) :=
    laidOut_attributes (P := P) (level + 1) (fun _ => quiet_called t hw name) y
  cases x with
  | command x =>
    have dot : P → Quiet "." := fun _ => quiet_text rfl
    have call := (((laidOut_callArguments level x.arguments).before fun h =>
      quiet_of_isBare (bare h)).before dot).before fun _ => quiet_timing x.timing
    simp only [statement, Statement.text, Call.text, ← annotationAttributes_eq]
    exact laidOut_chain (level + 1) call (areQuiet_annotations (level + 1) x.annotations)
  | groundEvent x => exact called x.timing (quiet_text (p := "GROUND_EVENT") rfl) x.name _
  | groundBlock x => exact called _ (quiet_text (p := "GROUND_BLOCK") rfl) x.name _
  | activate s => exact called s.timing (quiet_text (p := "ACTIVATE") rfl) s.sequence _
  | load s => exact called s.timing (quiet_text (p := "LOAD") rfl) s.sequence _

theorem laidOut_immediateCommand {x : ImmediateCommand} (bare : P → isBare x.stem) :
    LaidOut P (fun c => (c.immediateCommand level x).value) x.arguments.leaves :=
  laidOut_chain (level + 1) ((laidOut_callArguments level x.arguments).before fun h =>
    quiet_of_isBare (bare h)) (areQuiet_annotations (level + 1) x.annotations)

theorem quiet_hardwareCommand {x : HardwareCommand} (bare : isBare x.stem) :
    Quiet (hardwareCommand level x) :=
  quiet_chain level (quiet_of_isBare bare) (areQuiet_annotations level x.annotations)

theorem quiet_commaEnded {items : List String} (h : ∀ i ∈ items, Quiet i) :
    Quiet (commaEnded level items) :=
  .join (List.forall_mem_map.2 fun i mem =>
    ((quiet_pad level).append (h i mem)).append (quiet_text rfl))

/-- The members of a request that has no steps. -/
theorem quiet_requestMembers (r : Request) : ∀ m ∈ requestMembers level r [], Quiet m := by
  have type : Quiet "type: 'request'" := by
    have quoted : "type: 'request'" = "type: " ++ quote "request" := rfl
    rw [quoted]
    exact (quiet_text rfl).append (quiet_quote _)
  have metadata : ∀ m ∈ (if r.annotations.metadata.isEmpty then []
      else ["metadata: " ++ json level (.object r.annotations.metadata)]), Quiet m := by
    split_ifs
    · exact List.forall_mem_nil _
    · exact List.forall_mem_singleton.2 ((quiet_text rfl).append (quiet_json level _))
  have noSteps : Quiet (stepList level []) := quiet_text (p := "[]") rfl
  simp only [requestMembers, List.forall_mem_append, List.forall_mem_cons, List.forall_mem_map]
  exact ⟨⟨⟨⟨(quiet_text rfl).append (quiet_quote _), (quiet_text rfl).append noSteps, type,
      List.forall_mem_nil _⟩,
    fun d _ => (quiet_text rfl).append (quiet_quote d)⟩,
    fun g _ => (quiet_text rfl).append (quiet_json level _)⟩, metadata⟩

theorem laidOut_request {r : Request} (bare : P → ∀ x ∈ r.steps, isBare (statement x).word) :
    LaidOut P (fun c => (c.request level r).value)
      (r.steps.flatMap fun x => x.arguments.leaves) := by
  have steps := laidOut_stepList (level + 1) fun x (mem : x ∈ r.steps) =>
    laidOut_step (level + 2) fun h => bare h x mem
  have name : P → Quiet (pad (level + 1) ++ ("name: " ++ quote r.name) ++ ",\n") := fun _ =>
    ((quiet_pad _).append ((quiet_text rfl).append (quiet_quote _))).append (quiet_text rfl)
  -- Behind its steps a request has the members that one without steps has.
  have rest : P → Quiet (commaEnded (level + 1) ((requestMembers (level + 1) r []).drop 2)) :=
    fun _ => quiet_commaEnded (level + 1) fun m mem =>
      quiet_requestMembers (level + 1) r m (List.mem_of_mem_drop mem)
  simp only [request, Logged.value_bind, Logged.value_pure, Logged.value_each,
    commaEnded_requestMembers]
  exact (((((((steps.before (always_quiet rfl)).before fun _ => quiet_pad _).after
    (always_quiet rfl)).after rest).before name).before (always_quiet rfl)).after
      fun _ => quiet_pad _).after (always_quiet rfl)

/-! ### Declarations -/

theorem laidOut_declaration (v : Variable) : LaidOut P (fun c => c.declaration level v) [] := by
  have entries : variableEntries (level + 1) v.options =
      (v.options.ranges.toList.map (fun rs =>
          ("allowable_ranges", json (level + 1) (.array (rs.map Document.writeRange)))) ++
        v.options.values.toList.map (fun vs =>
          ("allowable_values", json (level + 1) (.array (vs.map Document.writeAllowable)))) ++
        v.options.scName.toList.map (fun s => ("sc_name", quote s))).map
      fun e => (e.1, .plain e.2) := by
    simp [variableEntries, Function.comp_def]
  have tag : Quiet v.type.tag := quiet_identifier (isIdentifier_tag v.type)
  have enum : Quiet (enumText v.type) := by
    unfold enumText
    cases v.type.enumName? with
    | none => exact .nil
    | some name => exact (quiet_text (p := ", ") rfl).append (quiet_quote name)
  have options : LaidOut P (fun c => optionsText c level v.options) [] := by
    unfold optionsText
    split_ifs
    · exact .layout fun _ => .nil
    · rw [entries]
      refine (laidOut_plainObject level ?_).before (always_quiet rfl)
      simp only [List.forall_mem_append, List.forall_mem_map]
      exact ⟨⟨fun rs _ => quiet_json _ _, fun vs _ => quiet_json _ _⟩, fun s _ => quiet_quote s⟩
  simp only [declaration_eq]
  exact ((((options.after (always_quiet rfl)).before fun _ => enum).before fun _ =>
    quiet_quote _).before (always_quiet rfl)).before fun _ => tag

end

/-! ### Sequences -/

theorem laidOut_declarationList (vs : List Variable) :
    LaidOut P (fun c => declarationList c vs) [] := by
  have items := laidOut_separated (P := P) 2 fun v (_ : v ∈ vs) => laidOut_declaration 3 v
  rwa [flatMap_no_leaves] at items

theorem laidOut_immediateList {xs : List ImmediateCommand} (bare : P → ∀ x ∈ xs, isBare x.stem) :
    LaidOut P (fun c => immediateList c xs) (xs.flatMap fun x => x.arguments.leaves) := by
  have items := laidOut_commaEnded 3 fun x (mem : x ∈ xs) =>
    laidOut_immediateCommand 3 fun h => bare h x mem
  exact (items.after fun _ => (quiet_pad 2).append (quiet_text rfl)).before (always_quiet rfl)

/-- The function that gives a list. -/
theorem laidOut_function {f : Context → String} {ls : List Leaf} (h : LaidOut P f ls)
    {close : String} (quiet : Quiet close) :
    LaidOut P (fun c => stepsFunction ++ ("\n" ++ (f c ++ close))) ls :=
  ((h.after fun _ => quiet).before (always_quiet rfl)).before (always_quiet rfl)

theorem laidOut_stepsText {xs : List Step} (bare : P → ∀ x ∈ xs, isBare (statement x).word) :
    LaidOut P (fun c => stepsText c xs) (xs.flatMap fun x => x.arguments.leaves) :=
  laidOut_function (laidOut_commaEnded 3 fun x mem => laidOut_step 3 fun h => bare h x mem)
    ((quiet_pad 2).append (quiet_text rfl))

theorem laidOut_requestsText {rs : List Request}
    (bare : P → ∀ r ∈ rs, ∀ x ∈ r.steps, isBare (statement x).word) :
    LaidOut P (fun c => requestsText c rs)
      (rs.flatMap fun r => r.steps.flatMap fun x => x.arguments.leaves) :=
  laidOut_function (laidOut_commaLines 3 fun r mem => laidOut_request 3 fun h => bare h r mem)
    ((quiet_text rfl).append ((quiet_pad 2).append (quiet_text rfl)))

theorem laidOut_hardwareList {xs : List HardwareCommand}
    (bare : P → ∀ x ∈ xs, isBare x.stem) : LaidOut P (fun _ => hardwareList xs) [] := by
  have items : LaidOut P (fun _ => separated 2 (xs.map (hardwareCommand 3)))
      (xs.flatMap fun _ => []) :=
    laidOut_separated 2 fun x mem => .layout fun h => quiet_hardwareCommand 3 (bare h x mem)
  rwa [flatMap_no_leaves] at items

theorem quiet_fieldLine {name value : String} (hn : Quiet name) (hv : Quiet value) :
    Quiet (fieldLine name (some value)) := by
  rw [fieldLine_some]
  exact ((((quiet_pad 2).append hn).append (quiet_text rfl)).append hv).append (quiet_text rfl)

/-- A list that is not shown has no leaves. -/
theorem laidOut_fieldLine {name : String} (quiet : Quiet name) (items : Option (List α))
    {f : Context → List α → String} {ls : α → List Leaf}
    (h : ∀ as ∈ items, LaidOut P (fun c => f c as) (as.flatMap ls)) :
    LaidOut P (fun c => fieldLine name (shownList items (f c))) ((items.getD []).flatMap ls) := by
  rcases items with _ | (_ | ⟨a, as⟩)
  · exact .layout (always_quiet rfl)
  · exact .layout (always_quiet rfl)
  · have head : Quiet (pad 2 ++ name ++ ": ") :=
      ((quiet_pad 2).append quiet).append (quiet_text rfl)
    have shown := ((h (a :: as) rfl).before fun _ => head).after (always_quiet (s := ",\n") rfl)
    exact shown.congr fun c => fieldLine_some name _

/-- The line of a list whose items have no leaves. -/
theorem laidOut_plainLine {name : String} (quiet : Quiet name) (items : Option (List α))
    {f : Context → List α → String} (h : ∀ as ∈ items, LaidOut P (f · as) []) :
    LaidOut P (fun c => fieldLine name (shownList items (f c))) [] := by
  have line : LaidOut P (fun c => fieldLine name (shownList items (f c)))
      ((items.getD []).flatMap fun _ => []) := by
    refine laidOut_fieldLine quiet items fun as mem => ?_
    rw [flatMap_no_leaves]
    exact h as mem
  rwa [flatMap_no_leaves] at line

/-- The names that a script holds as they are can be told from literals and comments. -/
structure HasBareNames (s : Sequence) : Prop where
  hardwareCommands : ∀ x ∈ s.hardwareCommands.getD [], isBare x.stem
  immediateCommands : ∀ x ∈ s.immediateCommands.getD [], isBare x.stem
  steps : ∀ x ∈ s.steps.getD [], isBare (statement x).word
  requests : ∀ r ∈ s.requests.getD [], ∀ x ∈ r.steps, isBare (statement x).word
  symbols : ∀ name, .symbol name ∈ s.leaves → isBare name

theorem laidOut_sequence (s : Sequence) :
    LaidOut (HasBareNames s) (fun c => (c.sequence s).value) s.leaves := by
  have some_eq {α : Type} {items : Option (List α)} {as : List α} (h : as ∈ items) :
      items.getD [] = as := by
    rw [Option.mem_def.1 h, Option.getD_some]
  have seqId : Quiet (fieldLine "seqId" (some (quote s.id))) :=
    quiet_fieldLine (quiet_text rfl) (quiet_quote _)
  have metadata : Quiet (fieldLine "metadata" (some (json 2 (.object s.metadata)))) :=
    quiet_fieldLine (quiet_text rfl) (quiet_json 2 _)
  have locals := laidOut_plainLine (P := HasBareNames s) (quiet_text (p := "locals") rfl) s.locals
    fun vs _ => laidOut_declarationList vs
  have parameters := laidOut_plainLine (P := HasBareNames s) (quiet_text (p := "parameters") rfl)
    s.parameters fun vs _ => laidOut_declarationList vs
  have hardware := laidOut_plainLine (quiet_text (p := "hardware_commands") rfl)
    s.hardwareCommands fun xs mem =>
      laidOut_hardwareList fun (h : HasBareNames s) => some_eq mem ▸ h.hardwareCommands
  have immediate := laidOut_fieldLine (quiet_text (p := "immediate_commands") rfl)
    s.immediateCommands fun xs mem =>
      laidOut_immediateList fun (h : HasBareNames s) => some_eq mem ▸ h.immediateCommands
  have steps := laidOut_fieldLine (quiet_text (p := "steps") rfl) s.steps fun xs mem =>
    laidOut_stepsText fun (h : HasBareNames s) => some_eq mem ▸ h.steps
  have requests := laidOut_fieldLine (quiet_text (p := "requests") rfl) s.requests fun rs mem =>
    laidOut_requestsText fun (h : HasBareNames s) => some_eq mem ▸ h.requests
  have commands := hardware.append (immediate.append (steps.append
    (requests.after (always_quiet (s := "") rfl))))
  have lines := ((locals.append (parameters.append commands)).before fun _ => metadata).before
    fun _ => seqId
  have text := (lines.after (always_quiet (s := "  \x7d);") rfl)).before
    (always_quiet (s := "export default () =>\n  Sequence.new(\x7b\n") rfl)
  simp only [value_sequence, sections_fieldLine, sequenceSlots, List.map_cons, List.map_nil,
    String.join_cons, String.join_nil]
  simpa only [Sequence.leaves, Sequence.collections, Sequence.allSteps, List.flatMap_append,
    List.flatMap_map, List.map_append, List.map_flatMap, List.flatMap_assoc, List.nil_append]
    using text

/-! ### Comments -/

theorem isLineEnd_diagnosticText (o : Options) {name : String} (bare : isBare name) :
    ∀ c ∈ (diagnosticText o name).toList, isLineEnd c = false := by
  have fixed {s : String} (h : s.toList.all fun c => !isLineEnd c) :
      ∀ c ∈ s.toList, isLineEnd c = false := by
    intro c mem
    have other := List.all_eq_true.1 h c mem
    rwa [Bool.not_eq_true'] at other
  have inName : ∀ c ∈ name.toList, isLineEnd c = false := by
    intro c mem
    have both := List.all_eq_true.1 bare c mem
    rw [Bool.and_eq_true, Bool.not_eq_true'] at both
    exact both.2
  have error : ∀ c ∈ "ERROR: ".toList, isLineEnd c = false := fixed rfl
  have head : ∀ c ∈ "Variable '".toList, isLineEnd c = false := fixed rfl
  have tail : ∀ c ∈ "' is not defined as a local or parameter".toList, isLineEnd c = false :=
    fixed rfl
  have comma : ∀ c ∈ (if o.legacyErrorComments then "," else "").toList, isLineEnd c = false := by
    split_ifs <;> exact fixed rfl
  intro c mem
  simp only [diagnosticText, Warning.undefinedMessage, String.toList_append,
    List.mem_append] at mem
  rcases mem with (mem | (mem | mem) | mem) | mem
  · exact error c mem
  · exact head c mem
  · exact inName c mem
  · exact tail c mem
  · exact comma c mem

/-- An unknown symbol has a comment, and no other literal or symbol has one. -/
theorem hasComments_leafText (c : Context) {l : Leaf}
    (bare : ∀ name, l = .symbol name → isBare name) :
    HasComments (leafText c l) ((l.undeclared? c.scope).toList.map (diagnosticText c.options)) := by
  cases l with
  | literal l => exact (quiet_literal l).append (quiet_text rfl)
  | symbol name =>
    have plain := quiet_of_isBare (bare name rfl)
    rw [leafText, Leaf.undeclared?]
    cases Scope.declares c.scope.locals name with
    | true =>
      simp only [Bool.true_or, if_true, Option.toList_none, List.map_nil]
      exact ((quiet_text rfl).append plain).append (quiet_text rfl)
    | false =>
      cases Scope.declares c.scope.parameters name with
      | true =>
        simp only [Bool.or_true, Bool.false_eq_true, if_true, if_false, Option.toList_none,
          List.map_nil]
        exact ((quiet_text rfl).append plain).append (quiet_text rfl)
      | false =>
        simp only [Bool.or_self, Bool.false_eq_true, if_false, Option.toList_some, List.map_cons,
          List.map_nil]
        have separator : Quiet (if c.options.legacyErrorComments then " " else ", ") := by
          split_ifs <;> exact quiet_text rfl
        exact HasComments.append (((quiet_text rfl).append plain).append separator)
          (hasComments_comment (isLineEnd_diagnosticText c.options (bare name rfl)))

theorem hasComments_assemble (c : Context) {pieces : List Piece}
    (quiet : ∀ text, .layout text ∈ pieces → Quiet text)
    (bare : ∀ name, .symbol name ∈ pieces.filterMap Piece.leaf? → isBare name) :
    HasComments (assemble c pieces) (((pieces.filterMap Piece.leaf?).filterMap
      (Leaf.undeclared? c.scope)).map (diagnosticText c.options)) := by
  have comments : ∀ piece ∈ pieces, HasComments (piece.text c)
      ((piece.leaf?.bind (Leaf.undeclared? c.scope)).toList.map (diagnosticText c.options)) := by
    rintro (text | l) mem
    · exact quiet text mem
    · refine hasComments_leafText c fun name same => bare name ?_
      exact List.mem_filterMap.2 ⟨_, mem, congrArg some same⟩
  have all := HasComments.join comments
  rwa [← List.map_flatMap, ← List.filterMap_eq_flatMap_toList, ← List.filterMap_filterMap] at all

/-- The warnings of a script are those of the unknown symbols in reading order, and so are the
comments.  The script is laid out around its literals and symbols: a symbol is a path into the
locals if one of them has its name, else into the parameters if one of them has it, and else it is
unknown and has a comment, which no other literal or symbol has.  The layout is the same whatever is
declared, and with names that can be told from literals and comments the script has no other
comments than those. -/
theorem render_unknown_symbols (s : Sequence) (o : Options) :
    (render s o).warnings.map Warning.line =
        (s.leaves.filterMap (Leaf.undeclared? s.scope)).map (fun name =>
          Text.oneLine ("Variable '" ++ name ++ "' is not defined as a local or parameter")) ∧
      (∃ pieces : List Piece, pieces.filterMap Piece.leaf? = s.leaves ∧
        (render s o).value = assemble ⟨s.scope, o⟩ pieces ∧
        ∀ c : Context, (c.sequence s).value = assemble c pieces) ∧
      (HasBareNames s → comments (render s o).value =
        (s.leaves.filterMap (Leaf.undeclared? s.scope)).map (diagnosticText o)) := by
  obtain ⟨pieces, leaves, quiet, text⟩ := laidOut_sequence s
  refine ⟨?_, ⟨pieces, leaves, text ⟨s.scope, o⟩, text⟩, fun h => ?_⟩
  · rw [render, warnings_sequence, undefinedWarnings, List.map_map]
    rfl
  · have comments := hasComments_assemble ⟨s.scope, o⟩ (quiet h) (leaves ▸ h.symbols)
    rw [leaves, ← text] at comments
    exact comments_of_hasComments comments

/-- A symbol in a group and one in an argument with its type are unknown, and a string holds two
slashes. -/
theorem render_unknown_symbols_nested :
    ∃ s, HasBareNames s ∧ comments (render s {}).value = [
      "ERROR: Variable 'y' is not defined as a local or parameter",
      "ERROR: Variable 'z' is not defined as a local or parameter"] := by
  suffices h : ∃ s, HasBareNames s ∧
      (s.leaves.filterMap (Leaf.undeclared? s.scope)).map (diagnosticText {}) = [
        "ERROR: Variable 'y' is not defined as a local or parameter",
        "ERROR: Variable 'z' is not defined as a local or parameter"] by
    obtain ⟨s, bare, unknown⟩ := h
    exact ⟨s, bare, ((render_unknown_symbols s {}).2.2 bare).trans unknown⟩
  refine ⟨{ id := "a", locals := some [⟨none, .float, "x", {}⟩], steps := some [
    .command { stem := "ADD", arguments := .positional [.symbol "x", .group (.named [
      ("k", .symbol "y"), ("l", .literal (.string "// z"))])] },
    .groundBlock { name := "b", arguments := .named [("m", .symbol "z")] }] }, ?_, rfl⟩
  refine ⟨nofun, nofun, ?_, nofun, ?_⟩
  · exact List.forall_mem_cons.2 ⟨rfl, List.forall_mem_singleton.2 rfl⟩
  · intro name mem
    have leaf : Leaf.symbol name ∈ [.symbol "x", .symbol "y", .literal (.string "// z"),
      .symbol "z"] := mem
    simp only [List.mem_cons, Leaf.symbol.injEq, reduceCtorEq, List.not_mem_nil, or_false,
      false_or] at leaf
    rcases leaf with rfl | rfl | rfl <;> rfl

end Script

end SeqScript
