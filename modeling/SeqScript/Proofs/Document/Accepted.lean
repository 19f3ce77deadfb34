import SeqScript.Proofs.Document.RoundTrip
import SeqScript.Proofs.Time.OutOfRange

/-!
# Documents that are accepted

A written document does not say which list a variable was tagged with; the reader tags it with the
list it stands in (`Sequence.tagged`).  A sequence whose document is accepted is well formed but for
these tags (`isOk_read_write_iff`), and so its document can only be read as its settled form
(`eq_settle_of_read_write`).
-/

namespace SeqScript

/-- The sequence with every variable tagged with the list that declares it. -/
def Sequence.tagged (s : Sequence) : Sequence :=
  { s with
    locals := s.locals.map (·.map (·.withKind .locals))
    parameters := s.parameters.map (·.map (·.withKind .parameters)) }

namespace Document

open Checked

/-! ### Arguments -/

mutual

theorem distinct_of_typedArgument : ∀ (a : Argument) {ms : Members} {b : Argument},
    ms.get? "type" = some (.string a.type.name) → ms.get? "value" = some (writeArgument a) →
      readValueMember ms = readGroup? (writeArgument a) →
      typedArgument ms (fun _ => readValueMember ms) = .ok b →
      a.Everywhere fun c => c.names.Nodup
  | .literal _, _, _, _, _, _, _ => trivial
  | .symbol _, _, _, _, _, _, _ => trivial
  | .group c, ms, b, type, value, group, h => by
    have read : typedArgument ms (fun _ => readValueMember ms) =
        (inField "value" ((readItems 0 {} (writeArguments c)).map (·.arguments))).map .group := by
      simp only [typedArgument, typeName, type, argumentValue, value, ok_bind, Argument.type,
        ArgumentType.ofName?_name, group, writeArgument, readGroup?]
    rw [read] at h
    obtain ⟨inner, found, -⟩ := map_eq_ok.1 h
    obtain ⟨g, items, -⟩ := map_eq_ok.1 (under_eq_ok.1 found)
    exact distinct_of_readItems c items

/-- A collection whose items are accepted has distinct names at every depth. -/
theorem distinct_of_readItems : ∀ (a : Arguments) {g : Gathered},
    readItems 0 {} (writeArguments a) = .ok g → a.NamesDistinct
  | .positional items, _, h => ⟨List.nodup_nil, distinct_of_readPositional items h⟩
  | .named items, _, h =>
    have read := distinct_of_readNamed items h
    ⟨read.2.1, read.1⟩

theorem distinct_of_readPositional : ∀ (as : List Argument) {i : Nat} {g g' : Gathered},
    readItems i g (writePositional as) = .ok g' →
      Arguments.EverywhereItems (fun c => c.names.Nodup) as
  | [], _, _, _, _ => trivial
  | a :: as, i, g, g', h => by
    obtain ⟨item, next, read, -, rest⟩ := readItems_cons_eq_ok.1 h
    obtain ⟨-, typed, -⟩ := readItem_object.1 read
    exact ⟨distinct_of_typedArgument a rfl rfl rfl typed, distinct_of_readPositional as rest⟩

/-- The names are distinct from each other and from those of the items before. -/
theorem distinct_of_readNamed : ∀ (as : List (String × Argument)) {i : Nat} {g g' : Gathered},
    readItems i g (writeNamed as) = .ok g' →
      Arguments.EverywhereNamed (fun c => c.names.Nodup) as ∧ (as.map (·.1)).Nodup ∧
        ∀ name ∈ as.map (·.1), name ∉ g.named.map (·.1)
  | [], _, _, _, _ => ⟨trivial, List.nodup_nil, List.forall_mem_nil _⟩
  | (name, a) :: as, i, g, g', h => by
    obtain ⟨⟨name', b⟩, next, read, added, rest⟩ := readItems_cons_eq_ok.1 h
    obtain ⟨-, typed, named⟩ := readItem_object.1 read
    obtain rfl : some name = name' := Except.ok.inj named
    obtain ⟨fresh, -, rfl⟩ := Gathered.add_some_eq_ok.1 added
    obtain ⟨inside, distinct, others⟩ := distinct_of_readNamed as rest
    refine ⟨⟨distinct_of_typedArgument a rfl rfl rfl typed, inside⟩,
      List.nodup_cons.2 ⟨fun again => ?_, distinct⟩, List.forall_mem_cons.2 ⟨fresh, ?_⟩⟩
    · exact others name again List.mem_cons_self
    · intro n hn seen
      exact others n hn (List.mem_cons_of_mem _ seen)

end

theorem distinct_of_argumentsOf {a b : Arguments} (h : argumentsOf (writeArguments a) = .ok b) :
    a.NamesDistinct := by
  obtain ⟨g, items, -⟩ := map_eq_ok.1 (under_eq_ok.1 h)
  exact distinct_of_readItems a items

/-! ### Steps -/

/-- A written time is read by its tag. -/
theorem read_of_tagged {α : Type} {read : String → Except TimeError α} {type tag : String} {a : α}
    (h : tagged read ⟨type, some tag⟩ = .ok a) : read tag = .ok a := by
  obtain ⟨_, ⟨⟩, read⟩ := tagged_eq_ok.1 h
  exact read

theorem inRange_of_timing {t u : Timing} (h : timing (rawTiming t) = .ok u) : t.InRange := by
  unfold timing rawTiming at h
  rw [TimingType.ofName?_name] at h
  cases t with
  | absolute i =>
    obtain ⟨j, read, -⟩ := map_eq_ok.1 h
    exact (Instant.read_text_isOk_iff i).1 ⟨j, read_of_tagged read⟩
  | relative d =>
    obtain ⟨e, read, -⟩ := map_eq_ok.1 h
    exact (Duration.read_text_isOk_iff d).1 ⟨e, read_of_tagged read⟩
  | epoch d =>
    obtain ⟨e, read, -⟩ := map_eq_ok.1 h
    exact (Duration.read_text_isOk_iff d).1 ⟨e, read_of_tagged read⟩
  | commandComplete => trivial

theorem inRange_of_timingOf {t u : Timing} (h : timingOf (some (rawTiming t)) = .ok u) :
    t.InRange := inRange_of_timing (under_eq_ok.1 h)

theorem offsets_of_modelsFrom {ms ns : List ModelAssignment} {i : Nat}
    (h : modelsFrom i (ms.map rawModel) = .ok ns) : ∀ m ∈ ms, m.offset.HasSixDigitHours := by
  induction ms generalizing i ns with
  | nil => exact List.forall_mem_nil _
  | cons m ms ih =>
    obtain ⟨n, rest, first, later, -⟩ := modelsFrom_cons_eq_ok.1 h
    have offset := (Duration.read_text_isOk_iff m.offset).1 ⟨_, (modelOf_eq_ok.1 first).1⟩
    exact List.forall_mem_cons.2 ⟨offset, ih later⟩

theorem wellFormed_of_readStep {x y : Step} (h : readStep (writeStep x) = .ok y) :
    x.WellFormed := by
  rw [readStep, decode_writeStep] at h
  have parts : StepParts (rawStep x) y := stepParts_of_stepOf h
  have args : stepArgs (rawStep x) = writeArguments x.arguments := by cases x <;> rfl
  have times : ∀ t ∈ x.timing?, stepTime? (rawStep x) = some (some (rawTiming t)) := by
    cases x <;> rintro _ ⟨⟩ <;> rfl
  have models : stepModels (rawStep x) = x.models.map rawModel := by cases x <;> rfl
  refine ⟨distinct_of_argumentsOf (args ▸ parts.arguments), fun t mem => ?_,
    offsets_of_modelsFrom (models ▸ parts.models)⟩
  have timing := parts.timing
  rw [times t mem] at timing
  obtain ⟨_, read, -⟩ := map_eq_ok.1 timing
  exact inRange_of_timingOf read

/-! ### Lists -/

section

variable {α β : Type}

/-- Where a list is accepted, each of its items is. -/
theorem forall_of_readFrom {read : Json → Checked α} {write : β → Json} {p : β → Prop}
    (h : ∀ b a, read (write b) = .ok a → p b) {bs : List β} {i : Nat} {as : List α}
    (items : readFrom read i (bs.map write) = .ok as) : ∀ b ∈ bs, p b := by
  induction bs generalizing i as with
  | nil => exact List.forall_mem_nil _
  | cons b bs ih =>
    obtain ⟨a, rest, first, later, -⟩ := readFrom_cons_eq_ok.1 items
    exact List.forall_mem_cons.2 ⟨h b a first, ih later⟩

theorem forall_of_readOptional {read : Json → Checked α} {write : β → Json} {p : β → Prop}
    (h : ∀ b a, read (write b) = .ok a → p b) {name : String} {o : Option (List β)}
    {r : Option (List α)}
    (items : readOptional (readList name read) (o.map (·.map write)) = .ok r) :
    ∀ bs ∈ o, ∀ b ∈ bs, p b := by
  rintro bs rfl
  obtain ⟨as, found, -⟩ := map_eq_ok.1 items
  exact forall_of_readFrom h (under_eq_ok.1 found)

end

theorem wellFormed_of_readImmediate (c d : ImmediateCommand)
    (h : readImmediate (writeImmediate c) = .ok d) : c.WellFormed := by
  have wellFormed := (readImmediate_spec h).1
  obtain ⟨raw, decoded, args, -, made⟩ := readImmediate_eq_ok.1 h
  obtain rfl := Except.ok.inj ((decode_writeImmediate c).symm.trans decoded)
  have settled : d.arguments = c.arguments.settle :=
    Except.ok.inj (args.symm.trans (argumentsOf_written (distinct_of_argumentsOf args)))
  -- The form of the arguments is checked on the settled collection, which keeps it.
  have same : c.settle = d := by
    rw [settled] at made
    exact made
  rwa [← same, ← ImmediateCommand.wellFormed_canonical, ImmediateCommand.canonical_settle,
    ImmediateCommand.wellFormed_canonical] at wellFormed

theorem wellFormed_of_readRequest (r q : Request) (h : readRequest (writeRequest r) = .ok q) :
    ∀ x ∈ r.steps, x.WellFormed := by
  obtain ⟨raw, decoded, -, items, -⟩ := readRequest_eq_ok.1 h
  obtain rfl := Except.ok.inj ((decode_writeRequest r).symm.trans decoded)
  exact forall_of_readFrom (fun _ _ => wellFormed_of_readStep) items

/-! ### Declarations -/

theorem names_of_readVariablesFrom {kind : VariableKind} {vs ws : List Variable} {i : Nat}
    {seen : List String} (h : readVariablesFrom kind i seen (vs.map writeVariable) = .ok ws) :
    ws.map (·.name) = vs.map (·.name) := by
  induction vs generalizing i seen ws with
  | nil =>
    obtain rfl := Except.ok.inj h
    rfl
  | cons v vs ih =>
    obtain ⟨w, rest, first, later, rfl⟩ := readVariablesFrom_cons_eq_ok.1 h
    obtain ⟨raw, decoded, -, -, made⟩ := readVariable_eq_ok.1 first
    obtain rfl := Except.ok.inj ((decode_writeVariable v).symm.trans decoded)
    have name : w.name = v.name := by
      rw [← made]
      rfl
    rw [List.map_cons, List.map_cons, name, ih later]

/-- Variables that are accepted in a list can be declared by it. -/
theorem declared_of_readVariables {kind : VariableKind} {o r : Option (List Variable)}
    (h : readOptional (readVariables kind) (o.map (·.map writeVariable)) = .ok r) :
    ∀ vs ∈ o.map (·.map (·.withKind kind)), Declared kind vs := by
  rcases o with _ | vs
  · exact nofun
  · obtain ⟨ws, found, -⟩ := map_eq_ok.1 h
    have read := under_eq_ok.1 found
    have distinct := (readVariablesFrom_spec read).1.names
    rw [names_of_readVariablesFrom read] at distinct
    rintro _ ⟨⟩
    refine ⟨?_, List.forall_mem_map.2 fun v _ => rfl⟩
    rw [List.map_map]
    exact distinct

/-! ### Sequences -/

/-- The document does not tell the tags. -/
theorem write_tagged (s : Sequence) : write s.tagged = write s := by
  have untagged (name : String) (kind : VariableKind) (o : Option (List Variable)) :
      optionalList name writeVariable (o.map (·.map (·.withKind kind))) =
        optionalList name writeVariable o := by
    rcases o with _ | vs
    · rfl
    · simp only [optionalList, Option.map_some, List.map_map]
      rfl
  simp only [write, Sequence.tagged, untagged]

theorem wellFormed_of_read_write {s t : Sequence} (h : (read (write s)).value = .ok t) :
    s.tagged.WellFormed := by
  obtain ⟨raw, decoded, parts⟩ := value_read_eq_ok.1 h
  obtain rfl : rawSequence s = raw := Except.ok.inj ((decode_write s).symm.trans decoded)
  exact {
    locals := declared_of_readVariables parts.locals
    parameters := declared_of_readVariables parts.parameters
    immediateCommands := forall_of_readOptional wellFormed_of_readImmediate parts.immediateCommands
    steps := forall_of_readOptional (fun _ _ => wellFormed_of_readStep) parts.steps
    requests := forall_of_readOptional wellFormed_of_readRequest parts.requests }

/-- The document of a sequence is accepted exactly when the sequence is well formed but for the tags
of its variables. -/
theorem isOk_read_write_iff (s : Sequence) :
    (∃ t, (read (write s)).value = .ok t) ↔ s.tagged.WellFormed := by
  refine ⟨fun ⟨_, h⟩ => wellFormed_of_read_write h, fun h => ⟨s.tagged.settle, ?_⟩⟩
  rw [← write_tagged]
  exact read_write h

/-- Whatever the sequence, its document is read as nothing but its settled form. -/
theorem eq_settle_of_read_write {s t : Sequence} (h : (read (write s)).value = .ok t) :
    t = s.tagged.settle := by
  have back := read_write (wellFormed_of_read_write h)
  rw [write_tagged, h] at back
  exact Except.ok.inj back

end Document

end SeqScript
