import SeqScript.Proofs.Script.Arguments
import SeqScript.Proofs.Time.Injective

/-!
# Attributes that are told apart

What is chained to a construct (`Chained`) is read one attribute after another, each by its name,
up to what follows the construct.  The timing that a step is called on ends at its closing
backquote, which no written time contains.
-/

namespace SeqScript.Script

open Context Tail

variable {F : Tail}

/-! ### Timings -/

/-- The characters of written times. -/
def isTimeChar (c : Char) : Bool :=
  c.isDigit || c == '-' || c == ':' || c == '.' || c == 'T'

theorem isTimeChar_padded {width : Nat} {i : Int} : ∀ c ∈ Text.padded width i, isTimeChar c := by
  obtain ⟨ds, digits, -, -, text⟩ := Text.padded_eq width i
  have numeral : ∀ c ∈ ds, isTimeChar c := fun c h => by simp [isTimeChar, digits c h]
  rw [text]
  split_ifs
  · exact List.forall_mem_cons.2 ⟨by decide, numeral⟩
  · exact numeral

theorem isTimeChar_clockText (millis : Int) : ∀ c ∈ clockText millis, isTimeChar c := by
  simp only [clockText, List.forall_mem_append, List.forall_mem_cons]
  refine ⟨⟨⟨isTimeChar_padded, by decide, isTimeChar_padded⟩, by decide, isTimeChar_padded⟩,
    by decide, isTimeChar_padded⟩

theorem isTimeChar_instant (i : Instant) : ∀ c ∈ i.text.toList, isTimeChar c := by
  simp only [Instant.text, String.toList_ofList, Instant.chars_eq, List.forall_mem_append,
    List.forall_mem_cons]
  exact ⟨⟨isTimeChar_padded, by decide, isTimeChar_padded⟩, by decide, isTimeChar_clockText _⟩

theorem isTimeChar_duration (d : Duration) : ∀ c ∈ d.text.toList, isTimeChar c := by
  simp only [Duration.text, String.toList_ofList, Duration.chars]
  split_ifs
  · exact List.forall_mem_cons.2 ⟨by decide, isTimeChar_clockText _⟩
  · exact isTimeChar_clockText _

theorem unique_backquoted {p q : String} (hp : ∀ c ∈ p.toList, isTimeChar c)
    (hq : ∀ c ∈ q.toList, isTimeChar c) : Unique F (p ++ "\x60") (q ++ "\x60") (p = q) :=
  Unique.after (.of_run hp hq) _ fun x _ => stops_of_begins rfl rfl (begins_append "\x60" x)

def timingLetter : Timing → Char
  | .absolute _ => 'A'
  | .relative _ => 'R'
  | .epoch _ => 'E'
  | .commandComplete => 'C'

theorem starts_timing (t : Timing) : Starts (timingLetter t) (timing t) := by
  cases t with
  | absolute i => exact (Starts.append ⟨_, rfl⟩ _).append _
  | relative d => exact (Starts.append ⟨_, rfl⟩ _).append _
  | epoch d => exact (Starts.append ⟨_, rfl⟩ _).append _
  | commandComplete => exact ⟨_, rfl⟩

/-- A timing tells itself, whatever follows. -/
theorem unique_timing (t u : Timing) : Unique F (timing t) (timing u) (t = u) := by
  have quoted {α : Type} {text : α → String} (injective : Function.Injective text)
      (times : ∀ a, ∀ c ∈ (text a).toList, isTimeChar c) (head : String) (a b : α) :
      Unique F (head ++ text a ++ "\x60") (head ++ text b ++ "\x60") (a = b) := by
    rw [String.append_assoc, String.append_assoc]
    exact ((unique_backquoted (times a) (times b)).congr injective.eq_iff).before head
  have apart (h : timingLetter t ≠ timingLetter u) : Unique F (timing t) (timing u) (t = u) :=
    ((starts_timing t).apart (starts_timing u) h).congr
      (iff_of_false id fun same => h (congrArg timingLetter same))
  cases t with
  | absolute i => cases u with
    | absolute j => exact (quoted Instant.text_injective isTimeChar_instant _ i j).congr (by simp)
    | _ => exact apart (by simp [timingLetter])
  | relative d => cases u with
    | relative e => exact (quoted Duration.text_injective isTimeChar_duration _ d e).congr (by simp)
    | _ => exact apart (by simp [timingLetter])
  | epoch d => cases u with
    | epoch e => exact (quoted Duration.text_injective isTimeChar_duration _ d e).congr (by simp)
    | _ => exact apart (by simp [timingLetter])
  | commandComplete => cases u with
    | commandComplete => exact (Unique.refl _).congr (iff_of_true trivial rfl)
    | _ => exact apart (by simp [timingLetter])

/-! ### Annotations -/

theorem shownDescription_eq (a : Annotations) : shownDescription a =
    if a.description.getD "" = "" then none else some (a.description.getD "") := by
  obtain ⟨d, metadata⟩ := a
  cases d with
  | none => rfl
  | some d => simp [shownDescription, Option.filter_some, Option.getD_some]

/-- An absent description shows what an empty one does. -/
theorem shownDescription_eq_iff {a b : Annotations} : shownDescription a = shownDescription b ↔
    a.description.getD "" = b.description.getD "" := by
  rw [shownDescription_eq, shownDescription_eq]
  generalize a.description.getD "" = s
  generalize b.description.getD "" = t
  split_ifs with hs ht ht
  · exact iff_of_true rfl (hs.trans ht.symm)
  · exact iff_of_false nofun fun same => ht (same ▸ hs)
  · exact iff_of_false nofun fun same => hs (same ▸ ht)
  · exact Option.some_inj

theorem isUnique_description {G : Tail} {name : String} (a b : Annotations) :
    Section.IsUnique id G ⟨name, (shownDescription a).map quote, (shownDescription b).map quote,
      a.description.getD "" = b.description.getD ""⟩ := by
  refine Section.IsUnique.congr ?_ shownDescription_eq_iff
  refine Section.isUnique_option_eq (fun s t => ?_) _ _
  exact unique_quote s t

theorem unique_metadata (level : Nat) (m n : Metadata) :
    Unique (Stops isNumeralChar) (json level (.object m)) (json level (.object n))
      (Json.AlikeMembers m n) := by
  have objects := unique_json level (.object m) (.object n)
  rwa [Json.Alike] at objects

def shownMetadata (level : Nat) (m : Metadata) : Option String :=
  if m.isEmpty then none else some (json level (.object m))

theorem isUnique_metadata {G : Tail} {name : String} (level : Nat) (m n : Metadata)
    (stops : ∀ x, G x → Stops isNumeralChar x) :
    Section.IsUnique id G ⟨name, shownMetadata level m, shownMetadata level n,
      Json.AlikeMembers m n⟩ := by
  have leftOut : LeftOut m.isEmpty n.isEmpty (Json.AlikeMembers m n) := by
    rw [Json.alikeMembers_iff]
    exact leftOut_forall₂
  exact Section.isUnique_unless leftOut fun _ _ => (unique_metadata level m n).mono stops

/-! ### Models -/

/-- The members of two models side by side. -/
def modelSections (m n : ModelAssignment) : List (Section Fragment) := [
  ⟨"offset", some (.plain (quote m.offset.text)), some (.plain (quote n.offset.text)),
    m.offset.text = n.offset.text⟩,
  ⟨"value", some (.plain (literal m.value)), some (.plain (literal n.value)),
    m.value.Alike n.value⟩,
  ⟨"variable", some (.plain (quote m.variableName)), some (.plain (quote n.variableName)),
    m.variableName = n.variableName⟩]

theorem alike_modelSections {m n : ModelAssignment} :
    (∀ s ∈ modelSections m n, s.alike) ↔ m.Alike n := by
  simp only [modelSections, List.forall_mem_cons, List.not_mem_nil, false_imp_iff, implies_true,
    and_true, Duration.text_injective.eq_iff]
  exact ⟨fun ⟨offset, value, name⟩ => ⟨offset, value, name⟩,
    fun alike => ⟨alike.offset, alike.value, alike.variableName⟩⟩

theorem unique_model (o : Options) (level : Nat) (m n : ModelAssignment) :
    Unique F (model o level m) (model o level n) (m.Alike n) := by
  have value := (unique_literal m.value n.value).mono fun _ => stops_of_comma
  have values : Section.AreUnique (·.member o) (Begins "\n") (modelSections m n) :=
    ⟨unique_plain (unique_quote _ _), fun _ => ⟨unique_plain value,
      fun _ => ⟨unique_plain (unique_quote _ _), fun _ => trivial⟩⟩⟩
  have names : (modelSections m n).map (·.name) = ["offset", "value", "variable"] := rfl
  have members : Unique F _ _ (∀ s ∈ modelSections m n, s.alike) :=
    unique_memberLines o level (names ▸ by decide) (names ▸ by decide) values
  rw [model, model, object_eq _ _ rfl, object_eq _ _ rfl]
  exact .before _ (members.congr alike_modelSections)

def shownModels (o : Options) (level : Nat) (ms : List ModelAssignment) : Option String :=
  if ms.isEmpty then none else some (separated level (ms.map (model o (level + 1))))

theorem isUnique_models {G : Tail} {name : String} (o : Options) (level : Nat)
    (ms ns : List ModelAssignment) :
    Section.IsUnique id G ⟨name, shownModels o level ms, shownModels o level ns,
      List.Forall₂ ModelAssignment.Alike ms ns⟩ := by
  refine Section.isUnique_unless leftOut_forall₂ fun _ _ => ?_
  exact unique_separated level fun m _ n _ => unique_model o (level + 1) m n

/-! ### Chains -/

def shownArguments (c : Context) (level : Nat) (a : Arguments) : Option String :=
  if a.isEmpty then none
  else some (array c.options level (c.typedArguments (level + 1) a).value)

/-- What may be chained to a construct. -/
structure Chained where
  arguments : Arguments := .none
  annotations : Annotations := {}
  engine : Option Int64 := none
  epoch : Option String := none
  models : List ModelAssignment := []

namespace Chained

/-- The attributes in their order, those that are not shown absent. -/
def slots (c : Context) (level : Nat) (x : Chained) : List (String × Option String) := [
  ("ARGUMENTS", shownArguments c level x.arguments),
  ("DESCRIPTION", (shownDescription x.annotations).map quote),
  ("ENGINE", x.engine.map fun e => decimalText e.toInt),
  ("EPOCH", x.epoch.map quote),
  ("METADATA", shownMetadata level x.annotations.metadata),
  ("MODELS", shownModels c.options level x.models)]

structure Alike (x y : Chained) : Prop where
  arguments : x.arguments.AlikeWhole y.arguments
  annotations : x.annotations.Alike y.annotations
  engine : x.engine = y.engine
  epoch : x.epoch = y.epoch
  models : List.Forall₂ ModelAssignment.Alike x.models y.models

/-- The attributes of two constructs side by side. -/
def sections (c d : Context) (level : Nat) (x y : Chained) : List (Section String) := [
  ⟨"ARGUMENTS", shownArguments c level x.arguments, shownArguments d level y.arguments,
    x.arguments.AlikeWhole y.arguments⟩,
  ⟨"DESCRIPTION", (shownDescription x.annotations).map quote,
    (shownDescription y.annotations).map quote,
    x.annotations.description.getD "" = y.annotations.description.getD ""⟩,
  ⟨"ENGINE", x.engine.map fun e => decimalText e.toInt, y.engine.map fun e => decimalText e.toInt,
    x.engine = y.engine⟩,
  ⟨"EPOCH", x.epoch.map quote, y.epoch.map quote, x.epoch = y.epoch⟩,
  ⟨"METADATA", shownMetadata level x.annotations.metadata,
    shownMetadata level y.annotations.metadata,
    Json.AlikeMembers x.annotations.metadata y.annotations.metadata⟩,
  ⟨"MODELS", shownModels c.options level x.models, shownModels d.options level y.models,
    List.Forall₂ ModelAssignment.Alike x.models y.models⟩]

theorem alike_sections {c d : Context} {level : Nat} {x y : Chained} :
    (∀ s ∈ sections c d level x y, s.alike) ↔ x.Alike y := by
  simp only [sections, List.forall_mem_cons, List.not_mem_nil, false_imp_iff, implies_true,
    and_true]
  exact ⟨fun ⟨arguments, description, engine, epoch, metadata, models⟩ =>
      ⟨arguments, ⟨description, metadata⟩, engine, epoch, models⟩,
    fun ⟨arguments, ⟨description, metadata⟩, engine, epoch, models⟩ =>
      ⟨arguments, description, engine, epoch, metadata, models⟩⟩

end Chained

theorem argumentsAttribute_eq (c : Context) (level : Nat) (a : Arguments) :
    (c.argumentsAttribute level a).value =
      (shownArguments c level a).toList.map ("ARGUMENTS", ·) := by
  unfold argumentsAttribute shownArguments
  split_ifs <;> rfl

theorem metadataAttribute_eq (level : Nat) (a : Annotations) :
    metadataAttribute level a = (shownMetadata level a.metadata).toList.map ("METADATA", ·) := by
  unfold metadataAttribute shownMetadata
  split_ifs <;> rfl

theorem modelsAttribute_eq (o : Options) (level : Nat) (ms : List ModelAssignment) :
    modelsAttribute o level ms = (shownModels o level ms).toList.map ("MODELS", ·) := by
  unfold modelsAttribute shownModels
  split_ifs <;> rfl

theorem present_slots (c : Context) (level : Nat) (x : Chained) :
    present (x.slots c level) = (c.argumentsAttribute level x.arguments).value ++
      descriptionAttribute x.annotations ++ engineAttribute x.engine ++ epochAttribute x.epoch ++
      metadataAttribute level x.annotations ++ modelsAttribute c.options level x.models := by
  simp only [Chained.slots, present_cons, present_nil, argumentsAttribute_eq, descriptionAttribute,
    engineAttribute, epochAttribute, metadataAttribute_eq, modelsAttribute_eq, Option.toList_map,
    List.map_map, Function.comp_def, List.append_assoc, List.append_nil]

theorem names_slots (c : Context) (level : Nat) (x : Chained) :
    ((x.slots c level).map (·.1)).Pairwise (· < ·) := by
  have names : (x.slots c level).map (·.1) =
      ["ARGUMENTS", "DESCRIPTION", "ENGINE", "EPOCH", "METADATA", "MODELS"] := rfl
  rw [names]
  decide

/-- Annotations are put in first, then the arguments and what only a call of a sequence has. -/
theorem given_perm {α : Type} (arguments description engine epoch metadata models : α) :
    List.Perm [description, metadata, arguments, engine, epoch, models]
      [arguments, description, engine, epoch, metadata, models] := by
  have first : ([description, metadata] ++ arguments :: [engine, epoch, models]).Perm
      (arguments :: description :: metadata :: [engine, epoch, models]) := List.perm_middle
  have later : ([engine, epoch] ++ metadata :: [models]).Perm
      (metadata :: [engine, epoch, models]) := List.perm_middle
  exact first.trans (.cons _ (.cons _ later.symm))

/-- The attributes are listed in the order of their names, which is not that of putting them in. -/
theorem insertAll_attributes (c : Context) (level : Nat) (x : Chained) :
    (annotationAttributes level x.annotations).insertAll
      ((c.argumentsAttribute level x.arguments).value ++ engineAttribute x.engine ++
        epochAttribute x.epoch ++ modelsAttribute c.options level x.models) =
      present (x.slots c level) := by
  rw [annotationAttributes, Keyed.ofPairs, Keyed.insertAll_insertAll,
    ← ofPairs_present (names_slots c level x) (given_perm ..), Keyed.ofPairs]
  simp only [present_cons, present_nil, argumentsAttribute_eq, descriptionAttribute,
    engineAttribute, epochAttribute, metadataAttribute_eq, modelsAttribute_eq, Option.toList_map,
    List.map_map, Function.comp_def, List.append_assoc, List.append_nil]

/-- Constructs with arguments and annotations alone. -/
theorem insertAll_arguments (c : Context) (level : Nat) (a : Arguments) (b : Annotations) :
    (annotationAttributes level b).insertAll (c.argumentsAttribute level a).value =
      present (Chained.slots c level { arguments := a, annotations := b }) := by
  rw [← insertAll_attributes]
  show _ = Keyed.insertAll _ ((c.argumentsAttribute level a).value ++ [] ++ [] ++ [])
  rw [List.append_nil, List.append_nil, List.append_nil]

theorem annotationAttributes_eq (c : Context) (level : Nat) (a : Annotations) :
    annotationAttributes level a = present (Chained.slots c level { annotations := a }) :=
  insertAll_arguments c level .none a

/-- What may follow the head of a construct. -/
def Breaks : Tail := fun x => Begins "\n" x ∨ Begins "," x

theorem Breaks.stops {k : Char → Bool} (newline : k '\n' = false) (comma : k ',' = false)
    {x : List Char} (h : Breaks x) : Stops k x :=
  h.elim (stops_of_begins rfl newline) (stops_of_begins rfl comma)

theorem Breaks.not_call {x : List Char} (h : Breaks x) : ¬ Begins "(" x :=
  h.elim (not_begins rfl rfl (by decide)) (not_begins rfl rfl (by decide))

/-- What may follow a construct: no attribute of the level can begin there. -/
structure EndsChain (level : Nat) (x : List Char) : Prop where
  breaks : Breaks x
  stops : ¬ Begins ("\n" ++ pad level ++ ".") x

section

variable {c d : Context} (agree : c.Agree d) (level : Nat)

include agree

theorem isUnique_arguments {G : Tail} {name : String} {a b : Arguments} (ha : a.IsPlain)
    (hb : b.IsPlain) :
    Section.IsUnique id G ⟨name, shownArguments c level a, shownArguments d level b,
      a.AlikeWhole b⟩ :=
  Section.isUnique_unless leftOut_alikeWhole fun _ _ => unique_typedArguments agree level ha hb

theorem areUnique_sections {x y : Chained} (hx : x.arguments.IsPlain) (hy : y.arguments.IsPlain) :
    Section.AreUnique id (Begins ")") (Chained.sections c d level x y) := by
  have number {z : List Char} (h : Begins ")" z) : Stops isNumeralChar z :=
    stops_of_begins rfl (by decide) h
  refine ⟨isUnique_arguments agree level hx hy, fun _ => ⟨isUnique_description _ _,
    fun _ => ⟨Section.isUnique_option_eq (fun e e' => ?_) _ _, fun _ =>
    ⟨Section.isUnique_option_eq (fun s t => ?_) _ _, fun _ =>
    ⟨isUnique_metadata level _ _ fun _ => number, fun _ => ⟨?_, fun _ => trivial⟩⟩⟩⟩⟩⟩
  · exact ((unique_decimalText _ _).mono fun _ => number).congr Int64.toInt_inj
  · exact unique_quote s t
  · rw [← agree.options]
    exact isUnique_models _ level _ _

/-- The attributes of a construct tell what is chained to it. -/
theorem unique_attributes {x y : Chained} (hx : x.arguments.IsPlain) (hy : y.arguments.IsPlain) :
    Unique (fun z => ¬ Begins ("\n" ++ pad level ++ ".") z)
      (sections ("\n" ++ pad level ++ ".") "(" ")" id (x.slots c level))
      (sections ("\n" ++ pad level ++ ".") "(" ")" id (y.slots d level)) (x.Alike y) := by
  have names : (Chained.sections c d level x y).map (·.name) =
      ["ARGUMENTS", "DESCRIPTION", "ENGINE", "EPOCH", "METADATA", "MODELS"] := rfl
  have whole := unique_sections (F := fun z => ¬ Begins ("\n" ++ pad level ++ ".") z)
    (names ▸ by decide) (names ▸ by decide)
    (fun z => stops_of_begins rfl rfl (begins_append "(" z))
    (areUnique_sections agree level hx hy) fun _ h => h
  exact whole.congr Chained.alike_sections

/-- A construct tells its head and what is chained to it. -/
theorem unique_chain {x y : Chained} (hx : x.arguments.IsPlain) (hy : y.arguments.IsPlain)
    {p q : String} {R : Prop} (head : Unique Breaks p q R) :
    Unique (EndsChain level) (chain level p (present (x.slots c level)))
      (chain level q (present (y.slots d level))) (R ∧ x.Alike y) := by
  have tail (slots : List (String × Option String)) (z : List Char) (hz : EndsChain level z) :
      Breaks ((sections ("\n" ++ pad level ++ ".") "(" ")" id slots).toList ++ z) := by
    rcases sections_tail slots z with none | ⟨s, -, opened⟩
    · rw [none]
      exact hz.breaks
    · rw [String.append_assoc, String.append_assoc, String.append_assoc] at opened
      exact .inl (begins_of_append opened)
  exact head.append (fun _ => (unique_attributes agree level hx hy).mono fun _ h => h.stops)
    (tail _) (tail _)

end

theorem isPlain_none : Arguments.none.IsPlain := by
  rw [Arguments.none, Arguments.IsPlain]
  trivial

theorem unique_annotated (level : Nat) {a b : Annotations} {p q : String} {R : Prop}
    (head : Unique Breaks p q R) :
    Unique (EndsChain level) (chain level p (annotationAttributes level a))
      (chain level q (annotationAttributes level b)) (R ∧ a.Alike b) := by
  rw [annotationAttributes_eq {}, annotationAttributes_eq {}]
  refine (unique_chain ⟨rfl, fun _ => rfl⟩ level isPlain_none isPlain_none head).congr ?_
  exact and_congr_right fun _ => ⟨fun chained => chained.annotations,
    fun annotations => ⟨.inl ⟨rfl, rfl⟩, annotations, rfl, rfl, .nil⟩⟩

end SeqScript.Script
