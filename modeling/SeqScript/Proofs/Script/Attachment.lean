import SeqScript.Proofs.Model.Setters
import SeqScript.Proofs.Script.Steps

/-!
# The order in which attributes are attached

A construct is rendered as its head, below which its attributes stand in the order of their names,
each on a line of its own (`Shows`).  So the order in which they were attached is not seen: an
attribute shows the last value that its setter was given, unless that value is empty
(`attaches_constructs`).
-/

namespace SeqScript

namespace Setter

/-- The attribute that shows what a setter was given; a timing is part of the head. -/
def attribute? : Setter → Option String
  | arguments => some "ARGUMENTS"
  | description => some "DESCRIPTION"
  | engine => some "ENGINE"
  | epoch => some "EPOCH"
  | metadata => some "METADATA"
  | models => some "MODELS"
  | timing => none

/-- How a value that a setter was given is written. -/
def text (c : Script.Context) (level : Nat) : (s : Setter) → s.Value → String
  | arguments, a => Script.array c.options level (c.typedArguments (level + 1) a).value
  | description, d => Script.quote d
  | engine, e => decimalText e.toInt
  | epoch, e => Script.quote e
  | metadata, m => Script.json level (.object m)
  | models, ms => Script.separated level (ms.map (Script.model c.options (level + 1)))
  | timing, t => Script.timing t

end Setter

namespace Script

/-- A construct that attributes are chained on. -/
inductive Construct where
  | step (x : Step)
  | hardwareCommand (x : HardwareCommand)
  | immediateCommand (x : ImmediateCommand)

namespace Construct

def render (c : Context) (level : Nat) : Construct → Logged String
  | step x => c.step level x
  | hardwareCommand x => pure (Context.hardwareCommand level x)
  | immediateCommand x => c.immediateCommand level x

/-- The level that the attributes of a construct are indented to. -/
def attributeLevel (level : Nat) : Construct → Nat
  | step _ => level + 1
  | hardwareCommand _ => level
  | immediateCommand _ => level + 1

/-- The text of a construct before its attributes. -/
def head (c : Context) (level : Nat) : Construct → String
  | step x => timing (statement x).timing ++ "." ++ (statement x).word ++
      (statement x).call.text c level
  | hardwareCommand x => x.stem
  | immediateCommand x => x.stem ++ (c.callArguments level x.arguments).value

def chained : Construct → Chained
  | step x => (statement x).chained
  | hardwareCommand x => { annotations := x.annotations }
  | immediateCommand x => { annotations := x.annotations }

theorem value_render (c : Context) (level : Nat) (x : Construct) :
    (x.render c level).value = chain (x.attributeLevel level) (x.head c level)
      (present (x.chained.slots c (x.attributeLevel level))) := by
  cases x with
  | step x =>
    show (c.step level x).value = _
    rw [value_step, Statement.text]
    simp only [head, String.append_assoc]
    rfl
  | hardwareCommand x =>
    rw [chained, ← annotationAttributes_eq]
    rfl
  | immediateCommand x =>
    rw [chained, ← annotationAttributes_eq]
    rfl

end Construct

/-- The construct is written as its head and attributes below it, which have increasing names. -/
structure Shows (c : Context) (level : Nat) (x : Construct) (attributes : List (String × String)) :
    Prop where
  text : (x.render c level).value = x.head c level ++ String.join (attributes.map fun a =>
    "\n" ++ pad (x.attributeLevel level) ++ "." ++ a.1 ++ "(" ++ a.2 ++ ")")
  increasing : (attributes.map (·.1)).Pairwise (· < ·)

theorem Construct.shows (c : Context) (level : Nat) (x : Construct) :
    Shows c level x (present (x.chained.slots c (x.attributeLevel level))) where
  text := x.value_render c level
  increasing := (names_slots ..).sublist (names_present_sublist _)

/-! ### Values that are shown -/

theorem map_filter_eq_some {α β : Type} {empty : α → Bool} {f : α → β} {o : Option α} {b : β} :
    (o.filter (!empty ·)).map f = some b ↔ ∃ v ∈ o, ¬ empty v ∧ f v = b := by
  simp only [Option.map_eq_some_iff, Option.filter_eq_some_iff, Option.mem_def,
    Bool.not_eq_true', Bool.not_eq_true, and_assoc]

/-- What is left out when it is empty is left out when it is not given. -/
theorem unless_empty_eq {α β : Type} {empty : α → Bool} (f : α → β) {a : α} (unset : empty a)
    (o : Option α) : (if empty (o.getD a) then none else some (f (o.getD a))) =
      (o.filter (!empty ·)).map f := by
  cases o with
  | none => exact if_pos unset
  | some v => cases h : empty v <;> simp [Option.filter, h]

namespace Chained

/-- What is between the parentheses of the attribute of a setter, if it is there. -/
def text (c : Context) (level : Nat) (x : Chained) : Setter → Option String
  | .arguments => shownArguments c level x.arguments
  | .description => (shownDescription x.annotations).map quote
  | .engine => x.engine.map fun e => decimalText e.toInt
  | .epoch => x.epoch.map quote
  | .metadata => shownMetadata level x.annotations.metadata
  | .models => shownModels c.options level x.models
  | .timing => none

theorem mem_attributes_iff {c : Context} {level : Nat} {x : Chained} {e : String × String} :
    e ∈ present (x.slots c level) ↔
      ∃ s : Setter, s.attribute? = some e.1 ∧ x.text c level s = some e.2 := by
  rw [mem_present]
  constructor
  · intro mem
    simp only [slots, List.mem_cons, List.not_mem_nil, or_false, Prod.mk.injEq] at mem
    rcases mem with ⟨name, shown⟩ | ⟨name, shown⟩ | ⟨name, shown⟩ | ⟨name, shown⟩ |
      ⟨name, shown⟩ | ⟨name, shown⟩
    · exact ⟨.arguments, name ▸ rfl, shown.symm⟩
    · exact ⟨.description, name ▸ rfl, shown.symm⟩
    · exact ⟨.engine, name ▸ rfl, shown.symm⟩
    · exact ⟨.epoch, name ▸ rfl, shown.symm⟩
    · exact ⟨.metadata, name ▸ rfl, shown.symm⟩
    · exact ⟨.models, name ▸ rfl, shown.symm⟩
  · rintro ⟨s, named, shown⟩
    rw [← shown]
    cases s with
    | timing => contradiction
    | _ =>
      rw [← Option.some.inj named]
      simp [slots, text]

/-- What settings chain to a construct. -/
def ofSettings (σ : Settings) : Chained :=
  ⟨σ.arguments, σ.annotations, σ .engine, σ .epoch, (σ .models).getD []⟩

/-- Of what was set, that is shown which is not empty. -/
theorem text_ofSettings (c : Context) (level : Nat) (σ : Settings) {s : Setter}
    (named : s.attribute?.isSome) : (ofSettings σ).text c level s =
      ((σ s).filter (!s.isEmpty ·)).map (s.text c level) := by
  cases s with
  | arguments => exact unless_empty_eq (Setter.text c level .arguments) rfl (σ .arguments)
  | description => rfl
  | engine =>
    show (σ .engine).map _ = _
    cases σ .engine <;> rfl
  | epoch =>
    show (σ .epoch).map _ = _
    cases σ .epoch <;> rfl
  | metadata => exact unless_empty_eq (Setter.text c level .metadata) rfl (σ .metadata)
  | models => exact unless_empty_eq (Setter.text c level .models) rfl (σ .models)
  | timing => contradiction

end Chained

/-! ### Constructs that are built -/

/-- What is built by setters is a construct that shows some of them as attributes. -/
structure Attaches {α : Type} [Settable α] (construct : α → Construct) (attached : List Setter) :
    Prop where
  /-- The order of calls to different setters is not seen. -/
  reordered (name : String) {calls calls' : List (Setting α)} (h : Reordered calls calls') :
    build name calls = build name calls' ∧ ∀ c level,
      (construct (build name calls)).render c level = (construct (build name calls')).render c level
  /-- An attribute is there when the value last given to its setter is not empty, and shows it. -/
  attributes (name : String) (calls : List (Setting α)) (c : Context) (level : Nat) :
    ∃ shown, Shows c level (construct (build name calls)) shown ∧ ∀ n text, (n, text) ∈ shown ↔
      ∃ s ∈ attached, s.attribute? = some n ∧ ∃ v ∈ lastValue calls s, ¬ s.isEmpty v ∧
        s.text c ((construct (build name calls)).attributeLevel level) v = text

theorem Attaches.of_chained {α : Type} [Settable α] [LawfulSettable α] {construct : α → Construct}
    {attached : List Setter}
    (h : ∀ name σ, (construct (LawfulSettable.ofSettings name σ)).chained =
      Chained.ofSettings (σ.only attached)) : Attaches construct attached where
  reordered name calls calls' same := by
    have built : build name calls = build name calls' := by
      rw [build_eq_ofSettings, build_eq_ofSettings, same.lastValue_eq]
    exact ⟨built, fun c level => by rw [built]⟩
  attributes name calls c level := by
    refine ⟨_, Construct.shows c level _, fun n text => ?_⟩
    rw [Chained.mem_attributes_iff, build_eq_ofSettings, h]
    have shows {s : Setter} (named : s.attribute? = some n) (level : Nat) :
        (Chained.ofSettings (Settings.only (lastValue calls) attached)).text c level s =
          some text ↔
          s ∈ attached ∧ ∃ v ∈ lastValue calls s, ¬ s.isEmpty v ∧ s.text c level v = text := by
      rw [Chained.text_ofSettings c level _ (named ▸ rfl), map_filter_eq_some]
      simp only [Settings.mem_only, and_assoc, exists_and_left]
    constructor
    · rintro ⟨s, named, shown⟩
      obtain ⟨mem, value⟩ := (shows named _).1 shown
      exact ⟨s, mem, named, value⟩
    · rintro ⟨s, mem, named, value⟩
      exact ⟨s, named, (shows named _).2 ⟨mem, value⟩⟩

/-- Commands have their arguments in the head; the other steps chain them. -/
theorem attaches_constructs :
    Attaches (fun x : Command => .step (.command x)) [.description, .metadata] ∧
    Attaches (fun x => .step (.groundEvent x)) [.arguments, .description, .metadata] ∧
    Attaches (fun x => .step (.groundBlock x)) [.arguments, .description, .metadata] ∧
    Attaches (fun x => .step (.activate x))
      [.arguments, .description, .engine, .epoch, .metadata, .models] ∧
    Attaches (fun x => .step (.load x))
      [.arguments, .description, .engine, .epoch, .metadata, .models] ∧
    Attaches Construct.hardwareCommand [.description, .metadata] ∧
    Attaches Construct.immediateCommand [.description, .metadata] :=
  ⟨.of_chained fun _ _ => rfl, .of_chained fun _ _ => rfl, .of_chained fun _ _ => rfl,
    .of_chained fun _ _ => rfl, .of_chained fun _ _ => rfl, .of_chained fun _ _ => rfl,
    .of_chained fun _ _ => rfl⟩

/-- Calls that leave the description empty in the end, and give an empty list of models. -/
def metadataFirst : List (Setting SequenceCall) :=
  [⟨.metadata, [("author", .string "Emery")], rfl⟩, ⟨.models, [], rfl⟩, ⟨.epoch, "", rfl⟩,
    ⟨.engine, 3, rfl⟩, ⟨.description, "d", rfl⟩, ⟨.description, "", rfl⟩]

/-- The same calls in another order, which is still that of the two descriptions. -/
def metadataLast : List (Setting SequenceCall) :=
  [⟨.description, "d", rfl⟩, ⟨.engine, 3, rfl⟩, ⟨.description, "", rfl⟩, ⟨.epoch, "", rfl⟩,
    ⟨.models, [], rfl⟩, ⟨.metadata, [("author", .string "Emery")], rfl⟩]

/-- An engine, an empty epoch and a metadata object are shown, in this order. -/
theorem attaches_constructs_metadata :
    Reordered metadataFirst metadataLast ∧
    build "s" metadataFirst = build "s" metadataLast ∧
    ((Construct.step (.activate (build "s" metadataFirst))).render {} 0).value =
      ((Construct.step (.activate (build "s" metadataLast))).render {} 0).value ∧
    ((Construct.step (.activate (build "s" metadataLast))).render {} 0).value =
      "C.ACTIVATE('s')" ++ "\n  .ENGINE(3)" ++ "\n  .EPOCH('')" ++
        "\n  .METADATA(\x7b\n    author: 'Emery',\n  \x7d)" := by
  have same : Reordered metadataFirst metadataLast := fun s => by cases s <;> rfl
  obtain ⟨-, -, -, activate, -⟩ := attaches_constructs
  obtain ⟨built, rendered⟩ := activate.reordered "s" same
  refine ⟨same, built, congrArg (·.value) (rendered {} 0), ?_⟩
  decide +kernel

end Script

end SeqScript
