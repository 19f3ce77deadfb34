import SeqScript.Proofs.Document.Accepted
import SeqScript.Proofs.Script.Sequences

/-!
# Scripts of settled sequences

The whole collection of a step is not written when it is empty, but an empty group inside another
collection is written by its form.  So a sequence that went through its document has the script it
had before exactly when it has no empty named group (`render_read_write_iff`).  The two scripts are
compared place by place.  Where the sequences differ, an empty list stands for an empty object of
the same length, so that the texts stay aligned behind it (`Aligned`).
-/

namespace SeqScript

/-! ### Settled groups -/

namespace Arguments

theorem settleItems_eq (as : List Argument) : settleItems as = as.map (·.settle) := by
  induction as with
  | nil => rfl
  | cons a as ih => rw [settleItems, ih, List.map_cons]

theorem settleNamed_eq (as : List (String × Argument)) :
    settleNamed as = as.map fun a => (a.1, a.2.settle) := by
  induction as with
  | nil => rfl
  | cons a as ih => rw [settleNamed, ih, List.map_cons]

theorem members_settle (a : Arguments) :
    a.settle.members = a.members.map fun m => (m.1, m.2.settle) := by
  rcases a with as | (_ | ⟨a, as⟩)
  · simp only [settle, members, settleItems_eq, List.map_map]
    rfl
  · rfl
  · simp only [settle, members, settleNamed_eq, List.map_map]
    rfl

theorem isEmpty_settle (a : Arguments) : a.settle.isEmpty = a.isEmpty := by
  rw [← isEmpty_members, members_settle, List.isEmpty_map, isEmpty_members]

/-- No group inside the collection is empty and named; the collection itself may be. -/
def GroupsSettled (a : Arguments) : Prop :=
  ∀ m ∈ a.members, m.2.Everywhere (· ≠ named [])

theorem groupsSettled_of_isEmpty {a : Arguments} (h : a.isEmpty) : a.GroupsSettled := by
  rw [← isEmpty_members, List.isEmpty_iff] at h
  rw [GroupsSettled, h]
  exact List.forall_mem_nil _

theorem isSettled_iff_groupsSettled {a : Arguments} (h : a.isEmpty = false) :
    a.IsSettled ↔ a.GroupsSettled := by
  rcases a with as | as
  · simp only [IsSettled, Everywhere, everywhereItems_iff, GroupsSettled, members,
      List.forall_mem_map]
    exact and_iff_right (by simp)
  · have filled : named as ≠ named [] := by
      rintro ⟨⟩
      contradiction
    simp only [IsSettled, Everywhere, everywhereNamed_iff, GroupsSettled, members,
      List.forall_mem_map]
    exact and_iff_right filled

end Arguments

theorem Argument.type_settle (a : Argument) : a.settle.type = a.type := by
  cases a <;> rfl

/-- No group in the sequence is empty and named. -/
structure Sequence.GroupsSettled (s : Sequence) : Prop where
  immediateCommands : ∀ cs ∈ s.immediateCommands, ∀ c ∈ cs, c.arguments.GroupsSettled
  steps : ∀ xs ∈ s.steps, ∀ x ∈ xs, x.arguments.GroupsSettled
  requests : ∀ rs ∈ s.requests, ∀ r ∈ rs, ∀ x ∈ r.steps, x.arguments.GroupsSettled

namespace Script

open Context

/-! ### Aligned texts -/

/-- Texts of one length that are the same exactly when the condition holds. -/
structure Aligned (p q : String) (R : Prop) : Prop where
  length : p.length = q.length
  same : p = q ↔ R

namespace Aligned

variable {α : Type} {p q p' q' : String} {R S : Prop}

theorem of_eq (h : p = q) (r : R) : Aligned p q R := ⟨congrArg _ h, iff_of_true h r⟩

theorem congr (h : Aligned p q R) (condition : R ↔ S) : Aligned p q S :=
  ⟨h.length, h.same.trans condition⟩

theorem append (h : Aligned p q R) (h' : Aligned p' q' S) :
    Aligned (p ++ p') (q ++ q') (R ∧ S) := by
  refine ⟨by rw [String.length_append, String.length_append, h.length, h'.length], ?_⟩
  constructor
  · intro same
    have texts : p.toList ++ p'.toList = q.toList ++ q'.toList := by
      rw [← String.toList_append, same, String.toList_append]
    have heads : p.toList.length = q.toList.length := by
      rw [String.length_toList, String.length_toList, h.length]
    obtain ⟨head, tail⟩ := List.append_inj texts heads
    exact ⟨h.same.1 (String.toList_inj.1 head), h'.same.1 (String.toList_inj.1 tail)⟩
  · rintro ⟨r, s⟩
    rw [h.same.2 r, h'.same.2 s]

theorem before (s : String) (h : Aligned p q R) : Aligned (s ++ p) (s ++ q) R :=
  ((of_eq rfl trivial).append h).congr (iff_of_eq (true_and R))

theorem after (s : String) (h : Aligned p q R) : Aligned (p ++ s) (q ++ s) R :=
  (h.append (of_eq rfl trivial)).congr (iff_of_eq (and_true R))

theorem join {as : List α} {f g : α → String} {R : α → Prop}
    (h : ∀ a ∈ as, Aligned (f a) (g a) (R a)) :
    Aligned (String.join (as.map f)) (String.join (as.map g)) (∀ a ∈ as, R a) := by
  induction as with
  | nil => exact of_eq rfl (List.forall_mem_nil _)
  | cons a as ih =>
    obtain ⟨first, rest⟩ := List.forall_mem_cons.1 h
    rw [List.map_cons, List.map_cons, String.join_cons, String.join_cons]
    exact (first.append (ih rest)).congr List.forall_mem_cons.symm

end Aligned

/-! ### Layout -/

section

variable {α : Type} {as : List α} {R : α → Prop} (o : Options) (level : Nat)

theorem aligned_array {f g : α → Fragment}
    (h : ∀ a ∈ as, Aligned ((f a).member o) ((g a).member o) (R a)) :
    Aligned (array o level (as.map f)) (array o level (as.map g)) (∀ a ∈ as, R a) := by
  unfold array itemLines
  simp only [List.isEmpty_map, List.map_map]
  split_ifs with empty
  · rw [List.isEmpty_iff.1 empty]
    exact .of_eq rfl (List.forall_mem_nil _)
  · have lines := Aligned.join fun a mem => ((h a mem).before (pad (level + 1))).after "\n"
    exact ((lines.before _).after _).after _

theorem aligned_object (name : α → String) {f g : α → Fragment}
    (h : ∀ a ∈ as, Aligned ((f a).member o) ((g a).member o) (R a)) :
    Aligned (object o level (as.map fun a => (name a, f a)))
      (object o level (as.map fun a => (name a, g a))) (∀ a ∈ as, R a) := by
  unfold object memberLines
  simp only [List.isEmpty_map, List.map_map]
  split_ifs with empty
  · rw [List.isEmpty_iff.1 empty]
    exact .of_eq rfl (List.forall_mem_nil _)
  · have lines := Aligned.join fun a mem =>
      ((h a mem).before (pad (level + 1) ++ key (name a) ++ ": ")).after "\n"
    exact ((lines.before _).after _).after _

/-- Objects that differ in the value of their last member. -/
theorem aligned_object_last (entries : List (String × Fragment)) (name : String) {f g : Fragment}
    {S : Prop} (h : Aligned (f.member o) (g.member o) S) :
    Aligned (object o level (entries ++ [(name, f)])) (object o level (entries ++ [(name, g)]))
      S := by
  have filled (f : Fragment) : (entries ++ [(name, f)]).isEmpty = false := by simp
  have lines (f : Fragment) : memberLines o (level + 1) (entries ++ [(name, f)]) =
      memberLines o (level + 1) entries ++
        (pad (level + 1) ++ key name ++ ": " ++ f.member o ++ "\n") := by
    simp only [memberLines, List.map_append, String.join_append, List.map_cons, List.map_nil,
      String.join_cons, String.join_nil, String.append_empty]
  rw [object_eq _ _ (filled f), object_eq _ _ (filled g), lines, lines]
  exact ((((h.before _).after "\n").before _).after _).before _

theorem aligned_commaEnded {f g : α → String} (h : ∀ a ∈ as, Aligned (f a) (g a) (R a)) :
    Aligned (commaEnded level (as.map f)) (commaEnded level (as.map g)) (∀ a ∈ as, R a) := by
  unfold commaEnded
  rw [List.map_map, List.map_map]
  exact .join fun a mem => ((h a mem).before (pad level)).after ",\n"

theorem aligned_stepList {f g : α → String} (h : ∀ a ∈ as, Aligned (f a) (g a) (R a)) :
    Aligned (stepList level (as.map f)) (stepList level (as.map g)) (∀ a ∈ as, R a) := by
  unfold stepList
  simp only [List.isEmpty_map]
  split_ifs with empty
  · rw [List.isEmpty_iff.1 empty]
    exact .of_eq rfl (List.forall_mem_nil _)
  · exact (((aligned_commaEnded (level + 1) h).before _).after _).after _

theorem aligned_commaLines {f g : α → String} (h : ∀ a ∈ as, Aligned (f a) (g a) (R a)) :
    Aligned (commaLines level (as.map f)) (commaLines level (as.map g)) (∀ a ∈ as, R a) := by
  rcases as with _ | ⟨a, as⟩
  · exact .of_eq rfl (List.forall_mem_nil _)
  · obtain ⟨first, rest⟩ := List.forall_mem_cons.1 h
    rw [List.map_cons, List.map_cons, commaLines_cons, commaLines_cons, List.map_map, List.map_map]
    have later := Aligned.join fun a mem => ((rest a mem).before (pad level)).before ",\n"
    exact ((first.before _).append later).congr List.forall_mem_cons.symm

end

/-! ### Arguments -/

section

variable {c d : Context} (agree : c.Agree d) (level : Nat)

include agree

/-- A collection is aligned with its settled form if its members are. -/
theorem aligned_arguments_of_members {a : Arguments}
    (h : ∀ m ∈ a.members, Aligned ((c.argument (level + 1) m.2.settle).value.member c.options)
      ((d.argument (level + 1) m.2).value.member d.options) (m.2.Everywhere (· ≠ .named []))) :
    Aligned (c.arguments level a.settle).value (d.arguments level a).value a.IsSettled := by
  rw [← agree.options] at h
  rcases a with as | (_ | ⟨a, as⟩)
  · have items := aligned_array c.options level fun a mem => List.forall_mem_map.1 h a mem
    simp only [Arguments.settle, Arguments.settleItems_eq, Context.arguments, Logged.value_bind,
      Logged.value_pure, value_positional, List.map_map, ← agree.options]
    refine items.congr ?_
    simp only [Arguments.IsSettled, Arguments.Everywhere, Arguments.everywhereItems_iff]
    exact (and_iff_right (by simp)).symm
  · -- The one place where the texts differ, and they have one length there.
    have list : (c.arguments level (Arguments.named []).settle).value = "[]" := rfl
    have object : (d.arguments level (Arguments.named [])).value = "\x7b\x7d" := rfl
    rw [list, object]
    exact ⟨rfl, iff_of_false (by decide) fun settled => settled.1 rfl⟩
  · have entries := aligned_object c.options level (·.1)
      fun a mem => List.forall_mem_map.1 h a mem
    simp only [Arguments.settle, Arguments.settleNamed_eq, Context.arguments, Logged.value_bind,
      Logged.value_pure, value_named, List.map_map, ← agree.options]
    refine entries.congr ?_
    simp only [Arguments.IsSettled, Arguments.Everywhere, Arguments.everywhereNamed_iff]
    exact (and_iff_right (by simp)).symm

theorem aligned_argument (a : Argument) :
    Aligned ((c.argument level a.settle).value.member c.options)
      ((d.argument level a).value.member d.options) (a.Everywhere (· ≠ .named [])) := by
  induction a using Argument.membersInduction generalizing level with
  | literal l => exact .of_eq rfl trivial
  | symbol name =>
    refine .of_eq ?_ trivial
    rw [Argument.settle, argument, argument, member_symbol, member_symbol, agree.options,
      agree.resolve]
  | group a ih =>
    exact (aligned_arguments_of_members agree level fun m mem => ih m mem (level + 1)).after ","

theorem aligned_arguments (a : Arguments) :
    Aligned (c.arguments level a.settle).value (d.arguments level a).value a.IsSettled :=
  aligned_arguments_of_members agree level fun m _ => aligned_argument agree (level + 1) m.2

theorem aligned_callArguments (a : Arguments) :
    Aligned (c.callArguments level a.settle).value (d.callArguments level a).value
      a.GroupsSettled := by
  rw [value_callArguments, value_callArguments, Arguments.isEmpty_settle]
  split_ifs with empty
  · exact .of_eq rfl (Arguments.groupsSettled_of_isEmpty empty)
  · have filled := Arguments.isSettled_iff_groupsSettled (Bool.eq_false_iff.2 empty)
    exact (((aligned_arguments agree level a).after ")").before "(").congr filled

theorem aligned_typedArgument (name : Option String) (a : Argument) :
    Aligned ((c.typedArgument level name a.settle).value.member c.options)
      ((d.typedArgument level name a).value.member d.options)
      (a.Everywhere (· ≠ .named [])) := by
  have value := aligned_argument agree (level + 1) a
  rw [← agree.options] at value
  have object := aligned_object_last c.options level
    (name.toList.map (fun n => ("name", Fragment.plain (quote n))) ++
      [("type", .plain (quote a.type.name))]) "value" value
  simp only [typedArgument, Logged.value_bind, Logged.value_pure, Argument.type_settle,
    ← agree.options]
  rw [List.append_assoc, List.append_assoc] at object
  exact object.after ","

/-! ### Chains -/

omit agree in
theorem aligned_chain {p q : String} {R : Prop} (h : Aligned p q R) (attributes : List Attribute) :
    Aligned (chain level p attributes) (chain level q attributes) R :=
  h.after _

omit agree in
theorem chain_append (head : String) (as bs : List Attribute) :
    chain level head (as ++ bs) = chain level (chain level head as) bs := by
  simp only [chain, List.map_append, String.join_append, String.append_assoc]

theorem aligned_argumentsAttribute (head : String) (a : Arguments) :
    Aligned (chain level head (c.argumentsAttribute level a.settle).value)
      (chain level head (d.argumentsAttribute level a).value) a.GroupsSettled := by
  unfold argumentsAttribute
  rw [Arguments.isEmpty_settle]
  split_ifs with empty
  · exact .of_eq rfl (Arguments.groupsSettled_of_isEmpty empty)
  · have items := aligned_array c.options level fun m (_ : m ∈ a.members) => by
      have typed := aligned_typedArgument agree (level + 1) m.1 m.2
      rw [← agree.options] at typed
      exact typed
    simp only [Logged.value_bind, Logged.value_pure, value_typedArguments,
      Arguments.members_settle, List.map_map, chain, List.map_cons, List.map_nil, String.join_cons,
      String.join_nil, String.append_empty, ← agree.options]
    exact ((items.before _).after ")").before _

/-- Only the arguments that are chained can be settled. -/
theorem aligned_attributes (head : String) (x : Chained) :
    Aligned (chain level head (present
        (Chained.slots c level { x with arguments := x.arguments.settle })))
      (chain level head (present (x.slots d level))) x.arguments.GroupsSettled := by
  have arguments := aligned_argumentsAttribute agree level head x.arguments
  simp only [present_slots, chain_append, ← agree.options]
  exact aligned_chain _ (aligned_chain _ (aligned_chain _ (aligned_chain _
    (aligned_chain _ arguments _) _) _) _) _

/-! ### Steps and commands -/

theorem aligned_step (x : Step) :
    Aligned (c.step level x.settle).value (d.step level x).value x.arguments.GroupsSettled := by
  rw [value_step, value_step]
  cases x with
  | command x =>
    have call := aligned_callArguments agree level x.arguments
    simp only [Step.settle, statement, Statement.text, Call.text, ← annotationAttributes_eq]
    exact aligned_chain _ (((call.before x.stem).before ".").before (timing x.timing)) _
  | groundEvent x => exact aligned_attributes agree _ _ (statement (.groundEvent x)).chained
  | groundBlock x => exact aligned_attributes agree _ _ (statement (.groundBlock x)).chained
  | activate s => exact aligned_attributes agree _ _ (statement (.activate s)).chained
  | load s => exact aligned_attributes agree _ _ (statement (.load s)).chained

theorem aligned_immediateCommand (x : ImmediateCommand) :
    Aligned (c.immediateCommand level x.settle).value (d.immediateCommand level x).value
      x.arguments.GroupsSettled :=
  aligned_chain _ ((aligned_callArguments agree level x.arguments).before x.stem) _

omit agree in
/-- The steps are the second member of a request. -/
theorem commaEnded_requestMembers (r : Request) (steps : List String) :
    commaEnded level (requestMembers level r steps) =
      pad level ++ ("name: " ++ quote r.name) ++ ",\n" ++
        (pad level ++ ("steps: " ++ stepList level steps) ++ ",\n" ++
          commaEnded level ((requestMembers level r []).drop 2)) := by
  have members : requestMembers level r steps = ("name: " ++ quote r.name) ::
      ("steps: " ++ stepList level steps) :: (requestMembers level r []).drop 2 := rfl
  rw [members]
  simp only [commaEnded, List.map_cons, String.join_cons]

theorem aligned_request (r : Request) :
    Aligned (c.request level r.settle).value (d.request level r).value
      (∀ x ∈ r.steps, x.arguments.GroupsSettled) := by
  have steps := aligned_stepList (level + 1) fun x (_ : x ∈ r.steps) =>
    aligned_step agree (level + 2) x
  have members (ss : List String) : requestMembers (level + 1) r.settle ss =
      requestMembers (level + 1) r ss := rfl
  simp only [request, Logged.value_bind, Logged.value_pure, Logged.value_each, members,
    commaEnded_requestMembers]
  rw [Request.settle, List.map_map]
  exact ((((((steps.before _).before _).after _).after _).before _).before _).after _ |>.after _

/-! ### Sequences -/

theorem aligned_immediateList (xs : List ImmediateCommand) :
    Aligned (immediateList c (xs.map (·.settle))) (immediateList d xs)
      (∀ x ∈ xs, x.arguments.GroupsSettled) := by
  have items := aligned_commaEnded 3 fun x (_ : x ∈ xs) => aligned_immediateCommand agree 3 x
  rw [immediateList, immediateList, List.map_map]
  exact (items.after _).before _

theorem aligned_stepsText (xs : List Step) :
    Aligned (stepsText c (xs.map (·.settle))) (stepsText d xs)
      (∀ x ∈ xs, x.arguments.GroupsSettled) := by
  have items := aligned_commaEnded 3 fun x (_ : x ∈ xs) => aligned_step agree 3 x
  rw [stepsText, stepsText, List.map_map]
  exact ((items.after _).before _).before _

theorem aligned_requestsText (rs : List Request) :
    Aligned (requestsText c (rs.map (·.settle))) (requestsText d rs)
      (∀ r ∈ rs, ∀ x ∈ r.steps, x.arguments.GroupsSettled) := by
  have items := aligned_commaLines 3 fun r (_ : r ∈ rs) => aligned_request agree 3 r
  rw [requestsText, requestsText, List.map_map]
  exact ((items.after _).before _).before _

end

/-- Declarations are written without the tags of the variables. -/
theorem declarationList_tagged {c d : Context} (options : c.options = d.options)
    (kind : VariableKind) (vs : List Variable) :
    declarationList c (vs.map (·.withKind kind)) = declarationList d vs := by
  obtain ⟨scope, o⟩ := c
  obtain rfl : o = d.options := options
  rw [declarationList, declarationList, List.map_map]
  rfl

/-! ### Sequences -/

/-- A list that is shown is aligned with another if the items are. -/
theorem aligned_fieldLine {α : Type} (name : String) (items : Option (List α)) {g : α → α}
    {f f' : List α → String} {R : α → Prop}
    (h : ∀ as, Aligned (f (as.map g)) (f' as) (∀ a ∈ as, R a)) :
    Aligned (fieldLine name (shownList (items.map (·.map g)) f))
      (fieldLine name (shownList items f')) (∀ as ∈ items, ∀ a ∈ as, R a) := by
  rcases items with _ | (_ | ⟨a, as⟩)
  · exact .of_eq rfl nofun
  · refine .of_eq rfl ?_
    rintro _ ⟨⟩
    exact List.forall_mem_nil _
  · have shown : Aligned (fieldLine name (some (f ((a :: as).map g))))
        (fieldLine name (some (f' (a :: as)))) (∀ b ∈ a :: as, R b) := by
      rw [fieldLine_some, fieldLine_some]
      exact ((h (a :: as)).before _).after _
    refine shown.congr ?_
    simp only [Option.mem_def, Option.some.injEq, forall_eq']

theorem declares_tagged (kind : VariableKind) (list : Option (List Variable)) (name : String) :
    Scope.declares ((list.map (·.map (·.withKind kind))).getD []) name =
      Scope.declares (list.getD []) name := by
  rcases list with _ | vs
  · rfl
  · simp only [Scope.declares, Option.map_some, Option.getD_some, List.any_map]
    rfl

/-- Symbols are found by the names of the variables. -/
theorem agree_tagged_settle (s : Sequence) (o : Options) :
    Context.Agree ⟨s.tagged.settle.scope, o⟩ ⟨s.scope, o⟩ := by
  refine ⟨rfl, fun name => ?_⟩
  have locals : Scope.declares s.tagged.settle.scope.locals name =
      Scope.declares s.scope.locals name := declares_tagged .locals s.locals name
  have parameters : Scope.declares s.tagged.settle.scope.parameters name =
      Scope.declares s.scope.parameters name := declares_tagged .parameters s.parameters name
  unfold Scope.resolve?
  rw [locals, parameters]

/-- Settling changes the script of a sequence exactly when a group is empty and named. -/
theorem aligned_render (s : Sequence) (o : Options) :
    Aligned (render s.tagged.settle o).value (render s o).value s.GroupsSettled := by
  let c : Context := ⟨s.tagged.settle.scope, o⟩
  let d : Context := ⟨s.scope, o⟩
  have agree : c.Agree d := agree_tagged_settle s o
  have declarations (name : String) (kind : VariableKind) (vs : Option (List Variable)) :
      Aligned
        (fieldLine name (shownList (vs.map (·.map (·.withKind kind))) (declarationList c)))
        (fieldLine name (shownList vs (declarationList d))) (∀ l ∈ vs, ∀ v ∈ l, True) :=
    aligned_fieldLine name vs fun l =>
      .of_eq (declarationList_tagged agree.options kind l) fun _ _ => trivial
  have locals := declarations "locals" .locals s.locals
  have parameters := declarations "parameters" .parameters s.parameters
  have immediate := aligned_fieldLine "immediate_commands" s.immediateCommands
    (aligned_immediateList agree)
  have steps := aligned_fieldLine "steps" s.steps (aligned_stepsText agree)
  have requests := aligned_fieldLine "requests" s.requests (aligned_requestsText agree)
  have commands := ((immediate.append (steps.append (requests.after ""))).before
    (fieldLine "hardware_commands" (shownList s.hardwareCommands hardwareList)))
  have lines := ((locals.append (parameters.append commands)).before
    (fieldLine "metadata" (some (json 2 (.object s.metadata))))).before
      (fieldLine "seqId" (some (quote s.id)))
  rw [render, render, value_sequence, value_sequence, sections_fieldLine, sections_fieldLine]
  simp only [sequenceSlots, List.map_cons, List.map_nil, String.join_cons, String.join_nil]
  refine ((lines.after "  \x7d);").before "export default () =>\n  Sequence.new(\x7b\n").congr ?_
  constructor
  · rintro ⟨-, -, immediate, steps, requests⟩
    exact ⟨immediate, steps, requests⟩
  · rintro ⟨immediate, steps, requests⟩
    exact ⟨fun _ _ _ _ => trivial, fun _ _ _ _ => trivial, immediate, steps, requests⟩

/-- A sequence that went through its document has the script it had, with any options, exactly when
it has no empty named group. -/
theorem render_read_write_iff {s t : Sequence}
    (h : (Document.read (Document.write s)).value = .ok t) (o : Options) :
    (render t o).value = (render s o).value ↔ s.GroupsSettled := by
  obtain rfl := Document.eq_settle_of_read_write h
  exact (aligned_render s o).same

/-- Commands on collections of arguments. -/
def commandsOn (as : List Arguments) : Sequence :=
  { id := "a", steps := some (as.map fun a => .command { stem := "ADD", arguments := a }) }

/-- The form of a whole collection that is empty is lost on the way, but it was not written. -/
theorem render_read_write_unnamed :
    (Document.read (Document.write (commandsOn [.named [],
      .positional [.group (.positional []), .group (.named [("x", .symbol "y")])]]))).value =
      .ok (commandsOn [.none,
        .positional [.group (.positional []), .group (.named [("x", .symbol "y")])]]) ∧
    (render (commandsOn [.none,
      .positional [.group (.positional []), .group (.named [("x", .symbol "y")])]]) {}).value =
    (render (commandsOn [.named [],
      .positional [.group (.positional []), .group (.named [("x", .symbol "y")])]]) {}).value := by
  refine ⟨rfl, (render_read_write_iff rfl {}).2 ⟨nofun, ?_, nofun⟩⟩
  rintro _ ⟨⟩
  simp only [List.forall_mem_map, List.forall_mem_cons]
  refine ⟨List.forall_mem_nil _, List.forall_mem_map.2 ?_, List.forall_mem_nil _⟩
  simp only [List.forall_mem_cons]
  exact ⟨⟨nofun, trivial⟩, ⟨nofun, trivial, trivial⟩, List.forall_mem_nil _⟩

/-- An empty named group comes back as an equivalent one that is written otherwise. -/
theorem render_read_write_ne : ∃ t,
    (Document.read (Document.write (commandsOn [.positional [.group (.named [])]]))).value = .ok t ∧
    t.equivalent (commandsOn [.positional [.group (.named [])]]) ∧
    (render t {}).value ≠ (render (commandsOn [.positional [.group (.named [])]]) {}).value :=
  ⟨commandsOn [.positional [.group (.positional [])]], rfl, beq_iff_eq.2 rfl, by decide +kernel⟩

end Script

end SeqScript
