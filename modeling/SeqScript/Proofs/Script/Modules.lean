import SeqScript.Proofs.Script.Phrases
import SeqScript.Proofs.Script.Sequences

/-!
# Scripts are well formed

The script of a sequence with plain names is a module whose literals, brackets and commas are right
(`isWellFormed_render`), as long as diagnostics stand behind the commas of their members.  All
strings but the names that are written bare are arbitrary, and any number of symbols may be unknown.
-/

namespace SeqScript.Source

open Script Context

variable {c : Context} {p : String} {level : Nat}

/-! ### Arguments -/

/-- A name behind a point. -/
theorem isExpression_property {ts : List Token} {name : String} (derived : Derives .expression ts)
    (hp : Reads p none (ts ++ [.mark '.'])) (hn : isIdentifier name) :
    IsExpression (p ++ name) := by
  refine ⟨_, _, hp.glue (reads_identifier hn), ?_⟩
  simpa using Derives.property derived

theorem isMember_symbol (c : Context) {name : String} (h : isIdentifier name) :
    IsMember (c.symbol name).value := by
  unfold Context.symbol
  cases c.scope.resolve? name with
  | some kind =>
    refine isMember_plain (isExpression_property .word ?_ h)
    cases kind <;> rfl
  | none =>
    refine ⟨isExpression_property .word rfl h, ?_⟩
    -- The name is the only part of the diagnostic that could end the line.
    rintro _ ⟨⟩ d mem
    simp only [Warning.undefinedMessage, String.toList_append, List.mem_append] at mem
    rcases mem with mem | (mem | mem) | mem
    · revert d
      simp [isLineEnd]
    · revert d
      simp [isLineEnd]
    · exact isLineEnd_of_class (isIdentifierRest_of_isIdentifier h d mem) rfl rfl
    · revert d
      simp [isLineEnd]

section

variable (ho : c.options.legacyErrorComments = false)

include ho

theorem isExpression_arguments_of_members {a : Arguments}
    (h : ∀ m ∈ a.members, IsMember (c.argument (level + 1) m.2).value) :
    IsExpression (c.arguments level a).value := by
  cases a with
  | positional as =>
    simp only [Context.arguments, Logged.value_bind, Logged.value_pure, value_positional]
    refine isExpression_items ho fun f mem => ?_
    obtain ⟨a, ha, rfl⟩ := List.mem_map.1 mem
    exact List.forall_mem_map.1 h a ha
  | named as =>
    simp only [Context.arguments, Logged.value_bind, Logged.value_pure, value_named]
    refine isExpression_entries ho fun e mem => ?_
    obtain ⟨a, ha, rfl⟩ := List.mem_map.1 mem
    exact List.forall_mem_map.1 h a ha

theorem isMember_argument (level : Nat) {a : Argument} (h : a.IsPlain) :
    IsMember (c.argument level a).value := by
  induction a using Argument.membersInduction generalizing level with
  | literal l => exact isMember_plain (isExpression_literal l)
  | symbol name =>
    rw [Argument.IsPlain] at h
    exact isMember_symbol c h
  | group a ih =>
    rw [Argument.IsPlain] at h
    exact isMember_plain (isExpression_arguments_of_members ho fun m mem =>
      ih m mem (level + 1) (Arguments.isPlain_members h m mem))

theorem isExpression_arguments (level : Nat) {a : Arguments} (h : a.IsPlain) :
    IsExpression (c.arguments level a).value :=
  isExpression_arguments_of_members ho fun m mem =>
    isMember_argument ho (level + 1) (Arguments.isPlain_members h m mem)

/-- What is called on arguments, or stands alone where there are none. -/
theorem isExpression_callArguments (level : Nat) {a : Arguments} (h : a.IsPlain)
    (hp : IsExpression p) : IsExpression (p ++ (c.callArguments level a).value) := by
  rw [value_callArguments]
  split_ifs
  · rwa [String.append_empty]
  · exact isExpression_call hp ((isExpression_arguments ho level h).isMembers nofun)

end

theorem isMember_mapped {α : Type} {f : α → String} (h : ∀ a, IsExpression (f a)) {o : Option α}
    {m : Fragment} (shown : some m = o.map fun a => .plain (f a)) : IsMember m := by
  obtain ⟨a, -, same⟩ := Option.map_eq_some_iff.1 shown.symm
  rw [← same]
  exact isMember_plain (h a)

section

variable (ho : c.options.legacyErrorComments = false)

include ho

theorem isMember_typedArgument (level : Nat) (name : Option String) {a : Argument}
    (h : a.IsPlain) : IsMember (c.typedArgument level name a).value := by
  rw [value_typedArgument]
  refine isMember_plain (isExpression_entries ho fun e mem => ?_)
  have slot := mem_present.1 mem
  simp only [typedSlots, List.mem_cons, List.not_mem_nil, or_false, Prod.mk.injEq] at slot
  rcases slot with ⟨-, shown⟩ | ⟨-, shown⟩ | ⟨-, shown⟩
  · exact isMember_mapped isExpression_quote shown
  · rw [Option.some.inj shown]
    exact isMember_plain (isExpression_quote _)
  · rw [Option.some.inj shown]
    exact isMember_argument ho (level + 1) h

theorem isExpression_typedArguments (level : Nat) {a : Arguments} (h : a.IsPlain) :
    IsExpression (array c.options level (c.typedArguments (level + 1) a).value) := by
  refine isExpression_items ho fun f mem => ?_
  rw [value_typedArguments] at mem
  obtain ⟨m, hm, rfl⟩ := List.mem_map.1 mem
  exact isMember_typedArgument ho _ _ (Arguments.isPlain_members h m hm)

end

/-! ### Chains -/

/-- An expression with what is chained to it. -/
theorem isExpression_chain {attributes : List Attribute} (hp : IsExpression p)
    (h : ∀ a ∈ attributes, isIdentifier a.1 ∧ IsExpression a.2) :
    IsExpression (chain level p attributes) := by
  unfold chain
  induction attributes generalizing p with
  | nil => rwa [List.map_nil, String.join_nil, String.append_empty]
  | cons a attributes ih =>
    obtain ⟨⟨name, value⟩, rest⟩ := List.forall_mem_cons.1 h
    obtain ⟨run, ts, head, derived⟩ := hp
    have newline : Reads "\n" none [] := rfl
    have point : Reads "." none [.mark '.'] := rfl
    have property : Reads (p ++ ("\n" ++ Script.pad level ++ ".")) none (ts ++ [.mark '.']) :=
      head.close ((newline.glue (.pad level)).glue point)
        ((Starts.append ⟨_, rfl⟩ _).append _) rfl rfl
    have called := isExpression_call (isExpression_property derived property name)
      (value.isMembers nofun)
    have line : p ++ ("\n" ++ Script.pad level ++ ".") ++ a.1 ++ ("(" ++ (a.2 ++ ")")) =
        p ++ ("\n" ++ Script.pad level ++ "." ++ a.1 ++ "(" ++ a.2 ++ ")") := by
      simp only [String.append_assoc]
    -- The chain up to the first attribute is the expression that the others are chained to.
    rw [List.map_cons, String.join_cons, ← String.append_assoc, ← line]
    exact ih called rest

/-- Named values of which all that are shown are expressions. -/
def AreFields (slots : List (String × Option String)) : Prop :=
  ∀ s ∈ slots, isIdentifier s.1 ∧ ∀ v ∈ s.2, IsExpression v

theorem AreFields.present {slots : List (String × Option String)} (h : AreFields slots) :
    ∀ e ∈ present slots, isIdentifier e.1 ∧ IsExpression e.2 := fun e mem =>
  have slot := h _ (mem_present.1 mem)
  ⟨slot.1, slot.2 e.2 rfl⟩

theorem isExpression_mapped {α : Type} {f : α → String} (h : ∀ a, IsExpression (f a))
    (o : Option α) : ∀ v ∈ o.map f, IsExpression v := by
  intro v mem
  obtain ⟨a, -, rfl⟩ := Option.map_eq_some_iff.1 mem
  exact h a

theorem isExpression_metadata (level : Nat) (m : Metadata) :
    ∀ v ∈ shownMetadata level m, IsExpression v := by
  unfold shownMetadata
  split_ifs
  · exact nofun
  · rintro _ ⟨⟩
    exact isExpression_json level _

section

variable (ho : c.options.legacyErrorComments = false)

include ho

theorem isExpression_model (level : Nat) (m : ModelAssignment) :
    IsExpression (model c.options level m) := by
  refine isExpression_entries ho ?_
  simp only [List.forall_mem_cons]
  exact ⟨isMember_plain (isExpression_quote _), isMember_plain (isExpression_literal _),
    isMember_plain (isExpression_quote _), List.forall_mem_nil _⟩

theorem areFields_slots {x : Chained} (h : x.arguments.IsPlain) :
    AreFields (x.slots c level) := by
  simp only [AreFields, Chained.slots, List.forall_mem_cons]
  refine ⟨⟨by decide, ?_⟩, ⟨by decide, isExpression_mapped isExpression_quote _⟩,
    ⟨by decide, isExpression_mapped (fun e => isExpression_decimalText _) _⟩,
    ⟨by decide, isExpression_mapped isExpression_quote _⟩,
    ⟨by decide, isExpression_metadata level _⟩, ⟨by decide, ?_⟩, List.forall_mem_nil _⟩
  · unfold shownArguments
    split_ifs
    · simp
    · rintro _ ⟨⟩
      exact isExpression_typedArguments ho level h
  · unfold shownModels
    split_ifs
    · simp
    · rintro _ ⟨⟩
      refine isExpression_separated fun text mem => ?_
      obtain ⟨m, -, rfl⟩ := List.mem_map.1 mem
      exact isExpression_model ho (level + 1) m

end

theorem isExpression_annotated (level : Nat) (a : Annotations) (hp : IsExpression p) :
    IsExpression (chain level p (annotationAttributes level a)) := by
  rw [annotationAttributes_eq {}]
  exact isExpression_chain hp (areFields_slots rfl isPlain_none).present

/-! ### Steps and commands -/

/-- A time between back quotes. -/
theorem reads_tagged {text : String} (head : String) (hh : isIdentifier head)
    (times : ∀ c ∈ text.toList, isTimeChar c) :
    Reads (head ++ "\x60" ++ text ++ "\x60" ++ ".") none [.word, .template, .mark '.'] := by
  have body : lex (.literal '\x60') text.toList = some (.literal '\x60', []) := by
    refine lex_silent fun c mem => ?_
    have other := beq_eq_false_of_class (times c mem)
    simp only [step, isLineEnd_of_class (times c mem) rfl rfl, other '\x60' rfl, other '\\' rfl,
      Bool.false_eq_true, if_false]
  have opening : step (.outside none) '\x60' = some (.literal '\x60', []) := rfl
  have closing : lex (.literal '\x60') ("\x60" ++ ".").toList =
      some (.outside none, [.template, .mark '.']) := rfl
  have quoted : Reads ("\x60" ++ (text ++ ("\x60" ++ "."))) none [.template, .mark '.'] := by
    rw [Reads, String.toList_append, String.toList_append]
    exact lex_cons opening (lex_append body closing)
  simp only [String.append_assoc]
  exact (reads_identifier hh).close quoted (Starts.append ⟨_, rfl⟩ _) rfl rfl

/-- What a step is called on, and the point behind it. -/
theorem reads_timing (t : Timing) : ∃ ts, Reads (timing t ++ ".") none (ts ++ [.mark '.']) ∧
    Derives .expression ts := by
  have tagged {text : String} (head : String) (hh : isIdentifier head)
      (times : ∀ c ∈ text.toList, isTimeChar c) :
      ∃ ts, Reads (head ++ "\x60" ++ text ++ "\x60" ++ ".") none (ts ++ [.mark '.']) ∧
        Derives .expression ts :=
    ⟨[.word] ++ [.template], reads_tagged head hh times, .tagged .word⟩
  cases t with
  | absolute i => exact tagged "A" (by decide) (isTimeChar_instant i)
  | relative d => exact tagged "R" (by decide) (isTimeChar_duration d)
  | epoch d => exact tagged "E" (by decide) (isTimeChar_duration d)
  | commandComplete => exact ⟨[.word], rfl, .word⟩

section

variable (ho : c.options.legacyErrorComments = false)

include ho

theorem isExpression_statement (level : Nat) {s : Statement} (h : s.IsPlain) :
    IsExpression (s.text c level) := by
  obtain ⟨ts, reads, derived⟩ := reads_timing s.timing
  have word := isExpression_property derived reads h.word
  have head : IsExpression (timing s.timing ++ "." ++ s.word ++ s.call.text c level) := by
    have plain := h.call
    revert plain
    cases s.call with
    | arguments a =>
      intro plain
      exact isExpression_callArguments ho level plain word
    | name n =>
      intro _
      exact isExpression_call word ((isExpression_quote n).isMembers nofun)
  rw [String.append_assoc, String.append_assoc] at head
  exact isExpression_chain head (areFields_slots ho h.chained).present

theorem isExpression_step (level : Nat) {x : Step} (h : x.IsPlain) :
    IsExpression (c.step level x).value := by
  rw [value_step]
  exact isExpression_statement ho level (isPlain_statement h)

theorem isExpression_immediateCommand (level : Nat) {x : ImmediateCommand}
    (h : isIdentifier x.stem ∧ x.arguments.IsPlain) :
    IsExpression (c.immediateCommand level x).value :=
  isExpression_annotated (level + 1) x.annotations
    (isExpression_callArguments ho level h.2 (isExpression_identifier h.1))

end

theorem isExpression_hardwareCommand (level : Nat) {x : HardwareCommand} (h : isIdentifier x.stem) :
    IsExpression (hardwareCommand level x) :=
  isExpression_annotated level x.annotations (isExpression_identifier h)

/-! ### Declarations -/

theorem isIdentifier_tag (t : VariableType) : isIdentifier t.tag := by
  cases t with
  | enumeration name => exact (by decide : isIdentifier VariableType.enumTag)
  | _ => decide

theorem isMember_variableEntries (level : Nat) (o : VariableOptions) :
    ∀ e ∈ variableEntries level o, IsMember e.2 := by
  intro e mem
  rw [variableEntries_eq] at mem
  have slot := mem_present.1 mem
  simp only [optionSlots, List.mem_cons, List.not_mem_nil, or_false, Prod.mk.injEq] at slot
  rcases slot with ⟨-, shown⟩ | ⟨-, shown⟩ | ⟨-, shown⟩
  · exact isMember_mapped (fun rs => isExpression_json _ _) shown
  · exact isMember_mapped (fun vs => isExpression_json _ _) shown
  · exact isMember_mapped isExpression_quote shown

section

variable (ho : c.options.legacyErrorComments = false)

include ho

theorem isMembers_optionsText (level : Nat) (o : VariableOptions) (hp : IsExpression p) :
    IsMembers .round (p ++ optionsText c level o) := by
  unfold optionsText
  split_ifs
  · rw [String.append_empty]
    exact hp.isMembers nofun
  · have entries : IsExpression (object c.options level _) :=
      isExpression_entries ho (isMember_variableEntries (level + 1) o)
    have last : IsMembers .round _ := entries.isMembers nofun
    have comma : Reads ", " none [.comma] := rfl
    exact hp.isMembers_append last nofun ⟨_, rfl⟩ comma

theorem isMembers_declared (level : Nat) (v : Variable) : IsMembers .round
    (quote v.name ++ (enumText v.type ++ optionsText c level v.options)) := by
  unfold enumText
  cases v.type.enumName? with
  | none =>
    rw [String.empty_append]
    exact isMembers_optionsText ho level v.options (isExpression_quote _)
  | some name =>
    have options := isMembers_optionsText ho level v.options (isExpression_quote name)
    have comma : Reads ", " none [.comma] := rfl
    rw [String.append_assoc]
    exact (isExpression_quote _).isMembers_append options nofun ⟨_, rfl⟩ comma

/-- A declaration is the call of its type on the name, the name of the enumeration and the options,
as far as there are any. -/
theorem isExpression_declaration (level : Nat) (v : Variable) :
    IsExpression (c.declaration level v) := by
  have call := isExpression_call (isExpression_identifier (isIdentifier_tag v.type))
    (isMembers_declared ho level v)
  rw [declaration_eq]
  simpa only [String.append_assoc] using call

end

/-! ### Requests -/

theorem isLines_commaEnded (level : Nat) {items : List String} (h : ∀ i ∈ items, IsExpression i) :
    IsLines .square (commaEnded level items) := by
  refine isLines_join fun line mem => ?_
  obtain ⟨i, hi, rfl⟩ := List.mem_map.1 mem
  have line : IsLine .square (pad level ++ (Fragment.plain i).member {} ++ "\n") :=
    isLine_item (isMember_plain (h i hi)) rfl nofun
  have comma : ",\n" = "," ++ "\n" := rfl
  simpa only [comma, Fragment.member, Fragment.plain, String.append_assoc] using line

theorem isExpression_stepList (level : Nat) {items : List String}
    (h : ∀ i ∈ items, IsExpression i) : IsExpression (stepList level items) := by
  unfold stepList
  split_ifs
  · exact isExpression_emptyList
  · exact isExpression_list level (isLines_commaEnded (level + 1) h)

/-- The lines of the fields of an object that are shown. -/
theorem isLines_fields (level : Nat) {slots : List (String × Option String)} (h : AreFields slots) :
    IsLines .curly (sections (pad level) ": " ",\n" id slots) := by
  refine isLines_join fun line mem => ?_
  obtain ⟨e, he, rfl⟩ := List.mem_map.1 mem
  obtain ⟨name, value⟩ := h.present e he
  exact isLine_field name value

theorem isExpression_request (ho : c.options.legacyErrorComments = false) (level : Nat)
    {r : Request} (h : ∀ x ∈ r.steps, x.IsPlain) : IsExpression (c.request level r).value := by
  have steps : ∀ i ∈ r.steps.map fun x => (c.step (level + 2) x).value, IsExpression i := by
    intro i mem
    obtain ⟨x, hx, rfl⟩ := List.mem_map.1 mem
    exact isExpression_step ho _ (h x hx)
  have type : IsExpression "'request'" := ⟨none, [.string], rfl, .string⟩
  have fields : AreFields (requestSlots (level + 1) r
      (r.steps.map fun x => (c.step (level + 2) x).value)) := by
    simp only [AreFields, requestSlots, List.forall_mem_cons, Option.mem_def, Option.some.injEq,
      forall_eq']
    exact ⟨⟨by decide, isExpression_quote _⟩, ⟨by decide, isExpression_stepList _ steps⟩,
      ⟨by decide, type⟩, ⟨by decide, isExpression_mapped isExpression_quote _⟩,
      ⟨by decide, isExpression_mapped (fun g => isExpression_json _ _) _⟩,
      ⟨by decide, isExpression_metadata _ _⟩, List.forall_mem_nil _⟩
  rw [value_request, ← String.append_assoc, ← String.append_assoc]
  exact isExpression_object level (isLines_fields (level + 1) fields)

/-! ### Sequences -/

/-- The function that gives a list. -/
theorem isExpression_function (level : Nat) (h : IsLines .square p) :
    IsExpression (stepsFunction ++ ("\n" ++ (p ++ (pad level ++ "])")))) := by
  obtain ⟨ts, reads, derived⟩ := h
  have names : Derives (.members .curly) [.word, .comma, .word] :=
    .more .shorthand (.last .shorthand)
  have parameters : Derives (.members .round) _ := .last (.item nofun (.object names))
  have opening : Reads (stepsFunction ++ "\n") none [.opening .round, .opening .curly, .word,
    .comma, .word, .closing .curly, .closing .round, .mark '=', .mark '>', .opening .round,
    .opening .square] := rfl
  have closing : Reads "])" none [.closing .square, .closing .round] := rfl
  have text := opening.glue (reads.glue ((Reads.pad level).glue closing))
  rw [String.append_assoc] at text
  refine ⟨none, _, text, ?_⟩
  simpa using Derives.function parameters (.parenthesized (.list derived))

section

variable (ho : c.options.legacyErrorComments = false)

include ho

theorem isExpression_declarationList (vs : List Variable) :
    IsExpression (declarationList c vs) := by
  refine isExpression_separated fun text mem => ?_
  obtain ⟨v, -, rfl⟩ := List.mem_map.1 mem
  exact isExpression_declaration ho 3 v

theorem isExpression_immediateList {xs : List ImmediateCommand}
    (h : ∀ x ∈ xs, isIdentifier x.stem ∧ x.arguments.IsPlain) :
    IsExpression (immediateList c xs) := by
  have lines : IsLines .square (commaEnded 3 (xs.map fun x => (c.immediateCommand 3 x).value)) := by
    refine isLines_commaEnded 3 fun text mem => ?_
    obtain ⟨x, hx, rfl⟩ := List.mem_map.1 mem
    exact isExpression_immediateCommand ho 3 (h x hx)
  have list := isExpression_list 2 lines
  rwa [String.append_assoc, String.append_assoc] at list

theorem isExpression_stepsText {xs : List Step} (h : ∀ x ∈ xs, x.IsPlain) :
    IsExpression (stepsText c xs) := by
  refine isExpression_function 2 (isLines_commaEnded 3 fun text mem => ?_)
  obtain ⟨x, hx, rfl⟩ := List.mem_map.1 mem
  exact isExpression_step ho 3 (h x hx)

theorem isExpression_requestsText {xs : List Request} (h : ∀ r ∈ xs, ∀ x ∈ r.steps, x.IsPlain) :
    IsExpression (requestsText c xs) := by
  have members : IsMembers .square (commaLines 3 (xs.map fun x => (c.request 3 x).value)) := by
    refine isMembers_commaLines 3 fun text mem => ?_
    obtain ⟨r, hr, rfl⟩ := List.mem_map.1 mem
    exact isExpression_request ho 3 (h r hr)
  have function := isExpression_function 2 members.newline
  rwa [String.append_assoc] at function

end

theorem isExpression_hardwareList {xs : List HardwareCommand} (h : ∀ x ∈ xs, isIdentifier x.stem) :
    IsExpression (hardwareList xs) := by
  refine isExpression_separated fun text mem => ?_
  obtain ⟨x, hx, rfl⟩ := List.mem_map.1 mem
  exact isExpression_hardwareCommand 3 (h x hx)

/-- A list that is shown is there. -/
theorem isExpression_shownList {α : Type} {items : Option (List α)} {text : List α → String}
    (h : ∀ as ∈ items, IsExpression (text as)) : ∀ v ∈ shownList items text, IsExpression v := by
  unfold shownList
  split_ifs with shown
  · exact nofun
  · rintro _ ⟨⟩
    rcases items with _ | as
    · exact absurd rfl shown
    · exact h as rfl

theorem areFields_sequenceSlots (ho : c.options.legacyErrorComments = false) {s : Sequence}
    (hs : s.IsPlain) : AreFields (sequenceSlots c s) := by
  simp only [AreFields, sequenceSlots, List.forall_mem_cons]
  refine ⟨⟨by decide, ?_⟩, ⟨by decide, ?_⟩, ⟨by decide, ?_⟩, ⟨by decide, ?_⟩, ⟨by decide, ?_⟩,
    ⟨by decide, ?_⟩, ⟨by decide, ?_⟩, ⟨by decide, ?_⟩, List.forall_mem_nil _⟩
  · rintro _ ⟨⟩
    exact isExpression_quote s.id
  · rintro _ ⟨⟩
    exact isExpression_json 2 _
  · exact isExpression_shownList fun vs _ => isExpression_declarationList ho vs
  · exact isExpression_shownList fun vs _ => isExpression_declarationList ho vs
  · exact isExpression_shownList fun xs mem =>
      isExpression_hardwareList (hs.hardwareCommands xs mem)
  · exact isExpression_shownList fun xs mem =>
      isExpression_immediateList ho (hs.immediateCommands xs mem)
  · exact isExpression_shownList fun xs mem => isExpression_stepsText ho (hs.steps xs mem)
  · exact isExpression_shownList fun xs mem => isExpression_requestsText ho (hs.requests xs mem)

/-- An object between what a script begins and ends with. -/
theorem isWellFormed_module (h : IsLines .curly p) :
    IsWellFormed ("export default () =>\n  Sequence.new(\x7b\n" ++ (p ++ "  \x7d);")) := by
  obtain ⟨ts, reads, derived⟩ := h
  have opening : Reads "export default () =>\n  Sequence.new(\x7b\n" none [.word, .word,
    .opening .round, .closing .round, .mark '=', .mark '>', .word, .mark '.', .word,
    .opening .round, .opening .curly] := rfl
  have closing : Reads "  \x7d);" none [.closing .curly, .closing .round, .mark ';'] := rfl
  have text := opening.glue (reads.glue closing)
  have object : Derives (.members .round) _ := .last (.item nofun (.object derived))
  have call := Derives.call (.property .word) object
  have isModule : IsModule _ := ⟨_, .function .none call, rfl⟩
  refine ⟨_, ?_, nest_of_isModule isModule, isModule⟩
  rw [tokens?, text]
  simp [finish]

/-- The script of a sequence with plain names is well formed, whatever its other strings are and
however many of its symbols are unknown. -/
theorem isWellFormed_render {s : Sequence} (hs : s.IsPlain) {o : Options}
    (ho : o.legacyErrorComments = false) : IsWellFormed (render s o).value := by
  rw [render, value_sequence]
  exact isWellFormed_module (isLines_fields 2 (areFields_sequenceSlots ho hs))

/-- Comments behind unknown symbols at two depths, and strings with quotes, commas and slashes. -/
theorem isWellFormed_render_unknown : IsWellFormed (render
    { id := "it's", steps := some [.command { stem := "ADD", arguments := .positional [.symbol "x",
      .group (.named [("a b", .symbol "y"), ("c", .literal (.string "', //\n["))])] }] }
    {}).value := by
  have group : Arguments.IsPlain (.named [("a b", .symbol "y"),
      ("c", .literal (.string "', //\n["))]) := by
    rw [Arguments.IsPlain, Arguments.plainNamed_iff]
    simp only [List.forall_mem_cons, Argument.IsPlain]
    exact ⟨by decide, trivial, List.forall_mem_nil _⟩
  have arguments : Arguments.IsPlain (.positional [.symbol "x",
      .group (.named [("a b", .symbol "y"), ("c", .literal (.string "', //\n["))])]) := by
    rw [Arguments.IsPlain, Arguments.plainItems_iff]
    simp only [List.forall_mem_cons, Argument.IsPlain]
    exact ⟨by decide, group, List.forall_mem_nil _⟩
  have step : Step.IsPlain (.command { stem := "ADD", arguments := _ }) :=
    ⟨(by decide : isIdentifier "ADD"), arguments⟩
  have plain {x : Step} (h : x.IsPlain) :
      Sequence.IsPlain { id := "it's", steps := some [x] } := by
    refine ⟨by simp, by simp, ?_, by simp⟩
    rintro _ ⟨⟩ y hy
    exact List.mem_singleton.1 hy ▸ h
  exact isWellFormed_render (plain step) rfl

end SeqScript.Source
