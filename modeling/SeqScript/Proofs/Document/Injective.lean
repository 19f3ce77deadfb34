import SeqScript.Proofs.Document.Records
import SeqScript.Proofs.Model.WellFormed
import SeqScript.Proofs.Time.Injective

/-!
# Documents determine sequences

No two parts of a sequence are written alike, whatever their times and the names of their arguments
are, but for the form of an empty collection of arguments and the kind of a variable.  A function of
the parts that forgets just that is therefore a function of what is written
(`Function.FactorsThrough`), and so is the settled form of a sequence whose variables are tagged
(`settle_eq_of_write_eq`): settled sequences with tagged variables are told apart by their documents
(`write_injective`).
-/

namespace SeqScript.Document

/-! ### Functions of what is written -/

section

variable {α β γ : Type} {f : α → β} {g : α → γ}

theorem factorsThrough_list (h : g.FactorsThrough f) :
    (List.map g).FactorsThrough (List.map f) := by
  intro as
  induction as with
  | nil =>
    intro bs same
    rw [List.map_nil, eq_comm, List.map_eq_nil_iff] at same
    rw [same]
  | cons a as ih =>
    intro bs same
    cases bs with
    | nil => contradiction
    | cons b bs =>
      have parts := List.cons.inj same
      rw [List.map_cons, List.map_cons, h parts.1, ih parts.2]

theorem factorsThrough_option (h : g.FactorsThrough f) :
    (Option.map g).FactorsThrough (Option.map f) := by
  intro a b same
  cases a with
  | none =>
    cases b with
    | none => rfl
    | some b => contradiction
  | some a =>
    cases b with
    | none => contradiction
    | some b => exact congrArg some (h (Option.some.inj same))

theorem factorsThrough_lists (h : g.FactorsThrough f) :
    (Option.map (List.map g)).FactorsThrough (Option.map (List.map f)) :=
  factorsThrough_option (factorsThrough_list h)

/-- What is decoded depends on what is written alone. -/
theorem factorsThrough_of_decode {ε : Type} {decode : β → Except ε γ}
    (h : ∀ a, decode (f a) = .ok (g a)) : g.FactorsThrough f := by
  intro a b same
  rw [← Except.ok.injEq, ← h a, ← h b, same]

/-- Names that can be looked up are different. -/
theorem injective_of_lookup {ofName? : β → Option α} (h : ∀ a, ofName? (f a) = some a) :
    Function.Injective f := by
  intro a b same
  rw [← Option.some.injEq, ← h a, ← h b, same]

end

/-! ### Arguments -/

theorem writeLiteral_injective : Function.Injective writeLiteral := by
  intro l m same
  cases l <;> cases m <;> simp_all [writeLiteral]

/-- A positional item has no name. -/
theorem writePositional_eq_writeNamed {as : List Argument} {bs : List (String × Argument)}
    (same : writePositional as = writeNamed bs) : as = [] ∧ bs = [] := by
  cases as with
  | nil =>
    cases bs with
    | nil => exact ⟨rfl, rfl⟩
    | cons e bs => contradiction
  | cons a as =>
    cases bs with
    | nil => contradiction
    | cons e bs =>
      have members := Json.object.inj (List.cons.inj same).1
      have keys : "type" = "name" := (Prod.mk.inj (List.cons.inj members).1).1
      exact absurd keys (by decide)

mutual

-- The value alone does not tell a text from the name of a variable; the type next to it does.
theorem settle_eq_of_writeArgument_eq : ∀ a b : Argument,
    a.type = b.type → writeArgument a = writeArgument b → a.settle = b.settle
  | .literal l, .literal m, _, same => congrArg Argument.literal (writeLiteral_injective same)
  | .symbol _, .symbol _, _, same => congrArg Argument.symbol (Json.string.inj same)
  | .group a, .group b, _, same =>
    congrArg Argument.group (settle_eq_of_writeArguments_eq a b (Json.array.inj same))
  | .literal l, .symbol _, type, _ => by cases l <;> contradiction
  | .literal l, .group _, type, _ => by cases l <;> contradiction
  | .symbol _, .literal l, type, _ => by cases l <;> contradiction
  | .group _, .literal l, type, _ => by cases l <;> contradiction

/-- Collections that are written alike differ at most in the form of empty collections. -/
theorem settle_eq_of_writeArguments_eq : ∀ a b : Arguments,
    writeArguments a = writeArguments b → a.settle = b.settle
  | .positional as, .positional bs, same =>
    congrArg Arguments.positional (settleItems_eq_of_write_eq as bs same)
  | .named [], .named [], _ => rfl
  | .named (e :: as), .named (e' :: bs), same =>
    congrArg Arguments.named (settleNamed_eq_of_write_eq (e :: as) (e' :: bs) same)
  | .positional as, .named bs, same => by
    obtain ⟨rfl, rfl⟩ := writePositional_eq_writeNamed same
    rfl
  | .named as, .positional bs, same => by
    obtain ⟨rfl, rfl⟩ := writePositional_eq_writeNamed same.symm
    rfl

theorem settleItems_eq_of_write_eq : ∀ as bs : List Argument,
    writePositional as = writePositional bs →
      Arguments.settleItems as = Arguments.settleItems bs
  | [], [], _ => rfl
  | a :: as, b :: bs, same => by
    simp only [writePositional, List.cons.injEq, Json.object.injEq, Prod.mk.injEq,
      Json.string.injEq, true_and, and_true] at same
    obtain ⟨⟨type, value⟩, rest⟩ := same
    have types : a.type = b.type := injective_of_lookup ArgumentType.ofName?_name type
    rw [Arguments.settleItems, Arguments.settleItems, settle_eq_of_writeArgument_eq a b types value,
      settleItems_eq_of_write_eq as bs rest]

theorem settleNamed_eq_of_write_eq : ∀ as bs : List (String × Argument),
    writeNamed as = writeNamed bs → Arguments.settleNamed as = Arguments.settleNamed bs
  | [], [], _ => rfl
  | (m, a) :: as, (n, b) :: bs, same => by
    simp only [writeNamed, List.cons.injEq, Json.object.injEq, Prod.mk.injEq,
      Json.string.injEq, true_and, and_true] at same
    obtain ⟨⟨name, type, value⟩, rest⟩ := same
    have types : a.type = b.type := injective_of_lookup ArgumentType.ofName?_name type
    rw [Arguments.settleNamed, Arguments.settleNamed, name,
      settle_eq_of_writeArgument_eq a b types value, settleNamed_eq_of_write_eq as bs rest]

end

/-! ### Variables -/

/-- Variables that are written alike differ at most in their kinds. -/
theorem withKind_factorsThrough (kind : VariableKind) :
    (fun v : Variable => v.withKind kind).FactorsThrough writeVariable := by
  intro v w same
  have raw : rawVariable v = rawVariable w := factorsThrough_of_decode decode_writeVariable same
  simp only [rawVariable, Shape.Variable.mk.injEq] at raw
  obtain ⟨name, tag, enumName, ranges, values, scName⟩ := raw
  have type : v.type = w.type := by
    rw [← Option.some.injEq, ← VariableType.ofTag?_tag, ← VariableType.ofTag?_tag, tag, enumName]
  have options : v.options = w.options := by
    rw [VariableOptions.mk.injEq]
    exact ⟨ranges, values, scName⟩
  simp only [Variable.withKind, type, name, options]

/-! ### Steps -/

theorem rawTiming_injective : Function.Injective rawTiming := by
  intro t u same
  simp only [rawTiming, Shape.Time.mk.injEq] at same
  obtain ⟨type, tag⟩ := same
  have types : t.type = u.type := injective_of_lookup TimingType.ofName?_name type
  cases t with
  | absolute i =>
    cases u with
    | absolute j => exact congrArg Timing.absolute (Instant.text_injective (Option.some.inj tag))
    | _ => contradiction
  | relative d =>
    cases u with
    | relative e => exact congrArg Timing.relative (Duration.text_injective (Option.some.inj tag))
    | _ => contradiction
  | epoch d =>
    cases u with
    | epoch e => exact congrArg Timing.epoch (Duration.text_injective (Option.some.inj tag))
    | _ => contradiction
  | commandComplete =>
    cases u with
    | commandComplete => rfl
    | _ => contradiction

theorem rawModel_injective : Function.Injective rawModel := by
  intro m n same
  simp only [rawModel, Shape.Model.mk.injEq] at same
  obtain ⟨offset, value, variableName⟩ := same
  rw [ModelAssignment.mk.injEq]
  exact ⟨Duration.text_injective offset, writeLiteral_injective value, variableName⟩

theorem annotations_eq {a b : Annotations} (description : a.description = b.description)
    (metadata : a.metadata = b.metadata) : a = b := by
  rw [Annotations.mk.injEq]
  exact ⟨description, metadata⟩

theorem call_eq_of_rawCall_eq {s t : SequenceCall} (same : rawCall s = rawCall t) :
    { s with arguments := s.arguments.settle } = { t with arguments := t.arguments.settle } := by
  simp only [rawCall, Shape.SequenceCall.mk.injEq, Option.some.injEq] at same
  obtain ⟨sequence, time, args, description, metadata, engine, epoch, models⟩ := same
  rw [SequenceCall.mk.injEq]
  exact ⟨sequence, settle_eq_of_writeArguments_eq _ _ args, rawTiming_injective time,
    annotations_eq description metadata, engine, epoch,
    List.map_injective_iff.2 rawModel_injective models⟩

theorem settle_eq_of_rawStep_eq {x y : Step} (same : rawStep x = rawStep y) :
    x.settle = y.settle := by
  cases x with
  | command c =>
    cases y with
    | command d =>
      simp only [rawStep, rawCommand, Shape.Step.command.injEq, Shape.Command.mk.injEq,
        Option.some.injEq] at same
      obtain ⟨stem, time, args, description, metadata⟩ := same
      rw [Step.settle, Step.settle, Step.command.injEq, Command.mk.injEq]
      exact ⟨stem, settle_eq_of_writeArguments_eq _ _ args, rawTiming_injective time,
        annotations_eq description metadata⟩
    | _ => contradiction
  | groundEvent g =>
    cases y with
    | groundEvent g' =>
      simp only [rawStep, rawGroundEvent, Shape.Step.groundEvent.injEq, Shape.GroundEvent.mk.injEq,
        Option.some.injEq] at same
      obtain ⟨name, time, args, description, metadata⟩ := same
      rw [Step.settle, Step.settle, Step.groundEvent.injEq, GroundEvent.mk.injEq]
      exact ⟨name, settle_eq_of_writeArguments_eq _ _ args, rawTiming_injective time,
        annotations_eq description metadata⟩
    | _ => contradiction
  | groundBlock g =>
    cases y with
    | groundBlock g' =>
      simp only [rawStep, rawGroundBlock, Shape.Step.groundBlock.injEq,
        Shape.GroundBlock.mk.injEq] at same
      obtain ⟨name, args, description, metadata⟩ := same
      rw [Step.settle, Step.settle, Step.groundBlock.injEq, GroundBlock.mk.injEq]
      exact ⟨name, settle_eq_of_writeArguments_eq _ _ args, annotations_eq description metadata⟩
    | _ => contradiction
  | activate s =>
    cases y with
    | activate t =>
      exact congrArg Step.activate (call_eq_of_rawCall_eq (Shape.Step.activate.inj same))
    | _ => contradiction
  | load s =>
    cases y with
    | load t => exact congrArg Step.load (call_eq_of_rawCall_eq (Shape.Step.load.inj same))
    | _ => contradiction

theorem settle_factorsThrough_writeStep : Step.settle.FactorsThrough writeStep := by
  intro x y same
  exact settle_eq_of_rawStep_eq (factorsThrough_of_decode decode_writeStep same)

/-! ### Commands without a time and requests -/

theorem writeHardware_injective : Function.Injective writeHardware := by
  intro c d same
  have raw : rawHardware c = rawHardware d := factorsThrough_of_decode decode_writeHardware same
  simp only [rawHardware, Shape.HardwareCommand.mk.injEq] at raw
  obtain ⟨stem, description, metadata⟩ := raw
  rw [HardwareCommand.mk.injEq]
  exact ⟨stem, annotations_eq description metadata⟩

theorem settle_factorsThrough_writeImmediate :
    ImmediateCommand.settle.FactorsThrough writeImmediate := by
  intro c d same
  have raw : rawImmediate c = rawImmediate d := factorsThrough_of_decode decode_writeImmediate same
  simp only [rawImmediate, Shape.ImmediateCommand.mk.injEq] at raw
  obtain ⟨stem, args, description, metadata⟩ := raw
  rw [ImmediateCommand.settle, ImmediateCommand.settle, ImmediateCommand.mk.injEq]
  exact ⟨stem, settle_eq_of_writeArguments_eq _ _ args, annotations_eq description metadata⟩

theorem rawGroundEpoch_injective : Function.Injective rawGroundEpoch := by
  intro g h same
  simp only [rawGroundEpoch, Shape.GroundEpoch.mk.injEq] at same
  rw [GroundEpoch.mk.injEq]
  exact same

theorem settle_factorsThrough_writeRequest : Request.settle.FactorsThrough writeRequest := by
  intro r q same
  have raw : rawRequest r = rawRequest q := factorsThrough_of_decode decode_writeRequest same
  simp only [rawRequest, Shape.Request.mk.injEq, true_and] at raw
  obtain ⟨name, steps, description, groundEpoch, metadata⟩ := raw
  rw [Request.settle, Request.settle, Request.mk.injEq]
  exact ⟨name, factorsThrough_list settle_factorsThrough_writeStep steps,
    Option.map_injective rawGroundEpoch_injective groundEpoch,
    annotations_eq description metadata⟩

/-! ### Sequences -/

theorem eq_of_map_writeVariable_eq {kind : VariableKind} {o p : Option (List Variable)}
    (ho : ∀ vs ∈ o, ∀ v ∈ vs, v.kind = some kind) (hp : ∀ vs ∈ p, ∀ v ∈ vs, v.kind = some kind)
    (same : o.map (·.map writeVariable) = p.map (·.map writeVariable)) : o = p := by
  have tagged : ∀ {q : Option (List Variable)}, (∀ vs ∈ q, ∀ v ∈ vs, v.kind = some kind) →
      q.map (·.map (·.withKind kind)) = q := by
    intro q hq
    apply map_map_eq_self
    intro vs hvs v hv
    rw [Variable.withKind, ← hq vs hvs v hv]
  rw [← tagged ho, ← tagged hp]
  exact factorsThrough_lists (withKind_factorsThrough kind) same

/-- Sequences of one document differ at most in the form of their empty collections. -/
theorem settle_eq_of_write_eq {s t : Sequence} (hs : s.IsTagged) (ht : t.IsTagged)
    (same : write s = write t) : s.settle = t.settle := by
  have raw : rawSequence s = rawSequence t := factorsThrough_of_decode decode_write same
  simp only [rawSequence, Shape.Sequence.mk.injEq] at raw
  obtain ⟨id, metadata, locals, parameters, hardware, immediate, steps, requests⟩ := raw
  rw [Sequence.settle, Sequence.settle, Sequence.mk.injEq]
  exact ⟨id, metadata, eq_of_map_writeVariable_eq hs.locals ht.locals locals,
    eq_of_map_writeVariable_eq hs.parameters ht.parameters parameters,
    Option.map_injective (List.map_injective_iff.2 writeHardware_injective) hardware,
    factorsThrough_lists settle_factorsThrough_writeImmediate immediate,
    factorsThrough_lists settle_factorsThrough_writeStep steps,
    factorsThrough_lists settle_factorsThrough_writeRequest requests⟩

theorem write_injective {s t : Sequence} (hs : s.IsTagged) (ss : s.IsSettled) (ht : t.IsTagged)
    (st : t.IsSettled) (same : write s = write t) : s = t := by
  have settled := settle_eq_of_write_eq hs ht same
  rwa [Sequence.settle_eq_self ss, Sequence.settle_eq_self st] at settled

end SeqScript.Document
