import SeqScript.Proofs.Document.Invariants
import SeqScript.Proofs.Document.Records
import SeqScript.Script.Renderer

/-!
# Reading written documents

The document of a well-formed sequence is read as the settled form of the sequence
(`read_write`), and of no other sequence is it read as an equivalent one
(`read_write_equivalent_iff`).  So a sequence that was read is read again from its own document,
unchanged (`read_write_of_read`).
-/

namespace SeqScript.Document

open Checked

/-! ### Arguments -/

theorem leafArgument?_literal (l : Literal) :
    leafArgument? (Argument.literal l).type (writeLiteral l) = some (.literal l) := by
  cases l <;> rfl

/-- The argument of an object that states the type and the value of an argument. -/
theorem typedArgument_leaf {ms : Members} {group? : Unit → Option (Checked Arguments)}
    {a : Argument} {v : Json} (type : ms.get? "type" = some (.string a.type.name))
    (value : ms.get? "value" = some v) (leaf : leafArgument? a.type v = some a)
    (single : a.type ≠ .group) : typedArgument ms group? = .ok a := by
  simp only [typedArgument, typeName, type, argumentValue, value, ok_bind,
    ArgumentType.ofName?_name, leaf]

theorem typedArgument_group {ms : Members} {group? : Unit → Option (Checked Arguments)}
    {group : Arguments} {v : Json} (type : ms.get? "type" = some (.string ArgumentType.group.name))
    (value : ms.get? "value" = some v) (read : group? () = some (.ok group)) :
    typedArgument ms group? = .ok (.group group) := by
  simp only [typedArgument, typeName, type, argumentValue, value, ok_bind,
    ArgumentType.ofName?_name, read]
  rfl

/-- A name that is new can join names. -/
theorem Gathered.add_named {named : List (String × Argument)} {name : String} {a : Argument}
    (fresh : name ∉ named.map (·.1)) :
    add ⟨[], named⟩ (some name, a) = .ok ⟨[], (name, a) :: named⟩ :=
  add_some_eq_ok.2 ⟨fresh, rfl, rfl⟩

mutual

theorem typedArgument_written : ∀ (a : Argument), a.Everywhere (fun b => b.names.Nodup) →
    ∀ (ms : Members), ms.get? "type" = some (.string a.type.name) →
      ms.get? "value" = some (writeArgument a) →
      readValueMember ms = readGroup? (writeArgument a) →
      typedArgument ms (fun _ => readValueMember ms) = .ok a.settle
  | .literal l, _, ms, type, value, _ =>
    typedArgument_leaf type value (leafArgument?_literal l)
      (by cases l <;> exact ArgumentType.noConfusion)
  | .symbol name, _, ms, type, value, _ =>
    typedArgument_leaf type value rfl ArgumentType.noConfusion
  | .group b, h, ms, type, value, group => by
    refine typedArgument_group type value ?_
    rw [group]
    exact congrArg some (readItems_writeArguments b h)

theorem readItems_writeArguments : ∀ a : Arguments, a.NamesDistinct →
    (readItems 0 {} (writeArguments a)).map (·.arguments) = .ok a.settle
  | .positional items, h => by
    rw [writeArguments, readItems_writePositional items h.2]
    simp [Except.map, Gathered.arguments, Arguments.settle]
  | .named [], _ => rfl
  | .named (item :: items), h => by
    rw [writeArguments, readItems_writeNamed (item :: items) h.2 h.1 fun _ _ => List.not_mem_nil]
    have settled : Arguments.settleNamed (item :: items) ≠ [] := by
      obtain ⟨name, a⟩ := item
      exact List.cons_ne_nil _ _
    simp [Except.map, Gathered.arguments, Arguments.settle, settled]

theorem readItems_writePositional : ∀ as : List Argument,
    Arguments.EverywhereItems (fun b => b.names.Nodup) as → ∀ {i : Nat} {before : List Argument},
      readItems i ⟨before, []⟩ (writePositional as) =
        .ok ⟨(Arguments.settleItems as).reverse ++ before, []⟩
  | [], _, i, before => rfl
  | a :: as, h, i, before => by
    have item : readItem (.object [("type", .string a.type.name), ("value", writeArgument a)]) =
        .ok (none, a.settle) := by
      have typed := typedArgument_written a h.1
        [("type", .string a.type.name), ("value", writeArgument a)] rfl rfl rfl
      rw [readItem, typed]
      rfl
    refine readItems_cons_eq_ok.2 ⟨_, _, item, Gathered.add_none_eq_ok.2 ⟨rfl, rfl⟩, ?_⟩
    rw [readItems_writePositional as h.2, Arguments.settleItems, List.reverse_cons,
      List.append_assoc]
    rfl

theorem readItems_writeNamed : ∀ as : List (String × Argument),
    Arguments.EverywhereNamed (fun b => b.names.Nodup) as → (as.map (·.1)).Nodup →
    ∀ {i : Nat} {before : List (String × Argument)},
      (∀ name ∈ as.map (·.1), name ∉ before.map (·.1)) →
      readItems i ⟨[], before⟩ (writeNamed as) =
        .ok ⟨[], (Arguments.settleNamed as).reverse ++ before⟩
  | [], _, _, i, before, _ => rfl
  | (name, a) :: as, h, distinct, i, before, fresh => by
    have item : readItem (.object [("name", .string name), ("type", .string a.type.name),
        ("value", writeArgument a)]) = .ok (some name, a.settle) := by
      have typed := typedArgument_written a h.1 [("name", .string name),
        ("type", .string a.type.name), ("value", writeArgument a)] rfl rfl rfl
      rw [readItem, typed]
      rfl
    rw [List.map_cons, List.nodup_cons] at distinct
    have rest : ∀ n ∈ as.map (·.1), n ∉ ((name, a.settle) :: before).map (·.1) := by
      intro n hn
      rw [List.map_cons, List.mem_cons, not_or]
      refine ⟨?_, fresh n (List.mem_cons_of_mem _ hn)⟩
      rintro rfl
      exact distinct.1 hn
    have added := Gathered.add_named (a := a.settle) (fresh name List.mem_cons_self)
    refine readItems_cons_eq_ok.2 ⟨_, _, item, added, ?_⟩
    rw [readItems_writeNamed as h.2 distinct.2 rest, Arguments.settleNamed, List.reverse_cons,
      List.append_assoc]
    rfl

end

/-- Arguments with distinct names are read back, the empty collections positional. -/
theorem argumentsOf_written {a : Arguments} (h : a.NamesDistinct) :
    argumentsOf (writeArguments a) = .ok a.settle := by
  rw [argumentsOf, readArguments, readItems_writeArguments a h]
  rfl

/-! ### Times -/

theorem timing_rawTiming {t : Timing} (h : t.InRange) : timing (rawTiming t) = .ok t := by
  cases t with
  | absolute i =>
    show (tagged Instant.read (rawTiming (.absolute i))).map Timing.absolute = _
    exact map_eq_ok.2 ⟨i, tagged_eq_ok.2 ⟨_, rfl, Instant.read_text h⟩, rfl⟩
  | relative d =>
    show (tagged Duration.read (rawTiming (.relative d))).map Timing.relative = _
    exact map_eq_ok.2 ⟨d, tagged_eq_ok.2 ⟨_, rfl, Duration.read_text h⟩, rfl⟩
  | epoch d =>
    show (tagged Duration.read (rawTiming (.epoch d))).map Timing.epoch = _
    exact map_eq_ok.2 ⟨d, tagged_eq_ok.2 ⟨_, rfl, Duration.read_text h⟩, rfl⟩
  | commandComplete => rfl

theorem timingOf_rawTiming {t : Timing} (h : t.InRange) :
    timingOf (some (rawTiming t)) = .ok t :=
  under_eq_ok.2 (timing_rawTiming h)

theorem literal?_writeLiteral (l : Literal) : literal? (writeLiteral l) = some l := by
  cases l <;> rfl

theorem modelOf_rawModel {m : ModelAssignment} (h : m.offset.HasSixDigitHours) :
    modelOf (rawModel m) = .ok m := by
  rw [modelOf_eq_ok]
  exact ⟨Duration.read_text h, literal?_writeLiteral m.value, rfl⟩

theorem modelsFrom_rawModel {ms : List ModelAssignment}
    (h : ∀ m ∈ ms, m.offset.HasSixDigitHours) {i : Nat} :
    modelsFrom i (ms.map rawModel) = .ok ms := by
  induction ms generalizing i with
  | nil => rfl
  | cons m ms ih =>
    obtain ⟨first, rest⟩ := List.forall_mem_cons.1 h
    exact modelsFrom_cons_eq_ok.2 ⟨m, ms, modelOf_rawModel first, ih rest, rfl⟩

/-! ### Steps -/

theorem callOf_rawCall {s : SequenceCall} (distinct : s.arguments.NamesDistinct)
    (time : s.timing.InRange) (offsets : ∀ m ∈ s.models, m.offset.HasSixDigitHours) :
    callOf (rawCall s) = .ok { s with arguments := s.arguments.settle } := by
  simp only [callOf, rawCall, modelsFrom_rawModel offsets, timingOf_rawTiming time,
    argumentsOf_written distinct]
  rfl

theorem stepOf_rawStep {x : Step} (h : x.WellFormed) : stepOf (rawStep x) = .ok x.settle := by
  cases x with
  | command c =>
    have args := argumentsOf_written (a := c.arguments) h.arguments
    simp only [stepOf, rawStep, rawCommand, timingOf_rawTiming (h.timing _ rfl), ok_bind, args]
    rfl
  | groundEvent g =>
    have args := argumentsOf_written (a := g.arguments) h.arguments
    simp only [stepOf, rawStep, rawGroundEvent, timingOf_rawTiming (h.timing _ rfl), ok_bind, args]
    rfl
  | groundBlock g =>
    have args := argumentsOf_written (a := g.arguments) h.arguments
    simp only [stepOf, rawStep, rawGroundBlock, ok_bind, args]
    rfl
  | activate s =>
    rw [rawStep, stepOf, callOf_rawCall h.arguments (h.timing _ rfl) h.offsets]
    rfl
  | load s =>
    rw [rawStep, stepOf, callOf_rawCall h.arguments (h.timing _ rfl) h.offsets]
    rfl

theorem readStep_writeStep {x : Step} (h : x.WellFormed) :
    readStep (writeStep x) = .ok x.settle := by
  rw [readStep, decode_writeStep]
  exact stepOf_rawStep h

/-! ### Lists -/

variable {α : Type}

theorem readFrom_written {read : Json → Checked α} {write : α → Json} {g : α → α} {as : List α}
    (h : ∀ a ∈ as, read (write a) = .ok (g a)) {i : Nat} :
    readFrom read i (as.map write) = .ok (as.map g) := by
  induction as generalizing i with
  | nil => rfl
  | cons a as ih =>
    obtain ⟨first, rest⟩ := List.forall_mem_cons.1 h
    exact readFrom_cons_eq_ok.2 ⟨g a, as.map g, first, ih rest, rfl⟩

theorem readOptional_written (name : String) {read : Json → Checked α} {write : α → Json}
    {g : α → α} {o : Option (List α)} (h : ∀ as ∈ o, ∀ a ∈ as, read (write a) = .ok (g a)) :
    readOptional (readList name read) (o.map (·.map write)) = .ok (o.map (·.map g)) := by
  rcases o with _ | as
  · rfl
  · rw [Option.map_some, readOptional, readList, readFrom_written (h as rfl)]
    rfl

theorem readHardware_writeHardware (c : HardwareCommand) :
    readHardware (writeHardware c) = .ok c := by
  rw [readHardware, decode_writeHardware]
  rfl

theorem readImmediate_writeImmediate {c : ImmediateCommand} (h : c.WellFormed) :
    readImmediate (writeImmediate c) = .ok c.settle := by
  have settled : c.settle.WellFormed := by
    rw [← ImmediateCommand.wellFormed_canonical, ImmediateCommand.canonical_settle,
      ImmediateCommand.wellFormed_canonical]
    exact h
  exact readImmediate_eq_ok.2 ⟨rawImmediate c, decode_writeImmediate c,
    argumentsOf_written h.arguments, settled.named, rfl⟩

theorem readRequest_writeRequest {r : Request} (h : ∀ x ∈ r.steps, x.WellFormed) :
    readRequest (writeRequest r) = .ok r.settle := by
  have steps := readFrom_written (i := 0) fun x hx => readStep_writeStep (h x hx)
  have epoch : (r.groundEpoch.map rawGroundEpoch).map (fun g => GroundEpoch.mk g.name g.delta) =
      r.groundEpoch := by
    cases r.groundEpoch <;> rfl
  refine readRequest_eq_ok.2 ⟨rawRequest r, decode_writeRequest r, rfl, steps, ?_⟩
  show Request.mk _ _ ((r.groundEpoch.map rawGroundEpoch).map _) _ = _
  rw [epoch]
  rfl

theorem readVariable_writeVariable {kind : VariableKind} {seen : List String} {v : Variable}
    (kinded : v.kind = some kind) (fresh : v.name ∉ seen) :
    readVariable kind seen (writeVariable v) = .ok v := by
  have type : variableType v.type.tag v.type.enumName? = .ok v.type := by
    rw [variableType, VariableType.ofTag?_tag]
  refine readVariable_eq_ok.2 ⟨rawVariable v, decode_writeVariable v, fresh, type, ?_⟩
  rw [← kinded]
  rfl

theorem readVariablesFrom_written {kind : VariableKind} {vs : List Variable}
    (h : Declared kind vs) {i : Nat} {seen : List String} (fresh : ∀ v ∈ vs, v.name ∉ seen) :
    readVariablesFrom kind i seen (vs.map writeVariable) = .ok vs := by
  induction vs generalizing i seen with
  | nil => rfl
  | cons v vs ih =>
    obtain ⟨kinded, kinds⟩ := List.forall_mem_cons.1 h.kinds
    obtain ⟨first, others⟩ := List.nodup_cons.1 h.names
    obtain ⟨new, rest⟩ := List.forall_mem_cons.1 fresh
    have later : ∀ w ∈ vs, w.name ∉ v.name :: seen := by
      intro w hw
      rw [List.mem_cons, not_or]
      exact ⟨fun same => first (List.mem_map.2 ⟨w, hw, same⟩), rest w hw⟩
    exact readVariablesFrom_cons_eq_ok.2 ⟨v, vs, readVariable_writeVariable kinded new,
      ih ⟨others, kinds⟩ later, rfl⟩

theorem readVariables_written {kind : VariableKind} {o : Option (List Variable)}
    (h : ∀ vs ∈ o, Declared kind vs) :
    readOptional (readVariables kind) (o.map (·.map writeVariable)) = .ok o := by
  rcases o with _ | vs
  · rfl
  · rw [Option.map_some, readOptional, readVariables,
      readVariablesFrom_written (h vs rfl) fun _ _ => List.not_mem_nil]
    rfl

/-! ### Sequences -/

/-- The document of a well-formed sequence is read as the settled form of the sequence. -/
theorem read_write {s : Sequence} (h : s.WellFormed) : (read (write s)).value = .ok s.settle := by
  have immediate := readOptional_written "immediate_commands"
    fun cs hcs c hc => readImmediate_writeImmediate (h.immediateCommands cs hcs c hc)
  have steps := readOptional_written "steps"
    fun xs hxs x hx => readStep_writeStep (h.steps xs hxs x hx)
  have requests := readOptional_written "requests"
    fun rs hrs r hr => readRequest_writeRequest (h.requests rs hrs r hr)
  have hardware := readOptional_written "hardware_commands" (o := s.hardwareCommands)
    (g := id) fun _ _ c _ => readHardware_writeHardware c
  rw [List.map_id_fun, Option.map_id_fun] at hardware
  exact value_read_eq_ok.2 ⟨rawSequence s, decode_write s, rfl, rfl,
    readVariables_written h.locals, readVariables_written h.parameters, hardware, immediate, steps,
    requests⟩

/-- A document is read as a sequence equivalent to the one it was written for exactly when that
sequence is well formed. -/
theorem read_write_equivalent_iff (s : Sequence) :
    (∃ t, (read (write s)).value = .ok t ∧ t.equivalent s) ↔ s.WellFormed := by
  constructor
  · rintro ⟨t, found, same⟩
    have canonical : t.canonical = s.canonical := eq_of_beq same
    have wellFormed := wellFormed_of_read found
    rwa [← Sequence.wellFormed_canonical, canonical, Sequence.wellFormed_canonical] at wellFormed
  · intro h
    exact ⟨s.settle, read_write h, beq_iff_eq.2 (Sequence.canonical_settle s)⟩

/-- A sequence that was read is read again from its own document, and so renders the same. -/
theorem read_write_of_read {doc : Json} {s : Sequence} (h : (read doc).value = .ok s) :
    ∃ t, (read (write s)).value = .ok t ∧ t = s ∧ write t = write s ∧
      ∀ options, Script.render t options = Script.render s options := by
  have settled := Sequence.settle_eq_self (isSettled_of_read h)
  refine ⟨s, ?_, rfl, rfl, fun _ => rfl⟩
  rw [read_write (wellFormed_of_read h), settled]

/-- A document with lists for records, bare arguments, a short fraction and an absent time. -/
def lenientDocument : Json :=
  .object [("id", .string "night"), ("metadata", .object []),
    ("steps", .array [
      .array [.string "command", .string "NOOP",
        .array [.string "ABSOLUTE", .string "2024-060T12:00:00.5Z"],
        .array [.array [.bool true], .string "x"]],
      .object [("type", .string "command"), ("stem", .string "WAIT")]])]

def lenientSequence : Sequence where
  id := "night"
  steps := some [
    .command {
      stem := "NOOP"
      arguments := .positional [.group (.positional [.literal (.boolean true)]),
        .literal (.string "x")]
      timing := .absolute ⟨1709208000500⟩ },
    .command { stem := "WAIT" }]

theorem read_write_lenient : (read lenientDocument).value = .ok lenientSequence ∧
    ∃ t, (read (write lenientSequence)).value = .ok t ∧ t = lenientSequence ∧
      write t = write lenientSequence ∧
      ∀ options, Script.render t options = Script.render lenientSequence options :=
  ⟨rfl, @read_write_of_read lenientDocument _ rfl⟩

end SeqScript.Document
