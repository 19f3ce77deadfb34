import Mathlib.Data.List.Forall2
import SeqScript.Model.Sequence
import SeqScript.Script.Literal

/-!
# Sequences that a script does not tell apart

Sequences are alike (`Sequence.Alike`) when they are the same but for what a script does not show:
whether a list or a description is absent or empty, the form of the empty arguments of a step or an
immediate command, the kind that a variable is tagged with, and how a number is stored that is
written the same way.
-/

namespace SeqScript

/-! ### Values -/

def Literal.Alike : Literal → Literal → Prop
  | .string s, .string t => s = t
  | .number m, .number n => Script.number m = Script.number n
  | .boolean a, .boolean b => a = b
  | _, _ => False

mutual

/-- The values are the same but for numbers that are written alike. -/
def Json.Alike : Json → Json → Prop
  | .null, .null => True
  | .bool a, .bool b => a = b
  | .number m, .number n => Script.number m = Script.number n
  | .string s, .string t => s = t
  | .array vs, .array ws => Json.AlikeItems vs ws
  | .object ms, .object ns => Json.AlikeMembers ms ns
  | _, _ => False

def Json.AlikeItems : List Json → List Json → Prop
  | [], [] => True
  | v :: vs, w :: ws => Json.Alike v w ∧ Json.AlikeItems vs ws
  | _, _ => False

def Json.AlikeMembers : List (String × Json) → List (String × Json) → Prop
  | [], [] => True
  | (k, v) :: ms, (l, w) :: ns => (k = l ∧ Json.Alike v w) ∧ Json.AlikeMembers ms ns
  | _, _ => False

end

mutual

def Argument.Alike : Argument → Argument → Prop
  | .literal l, .literal m => l.Alike m
  | .symbol a, .symbol b => a = b
  | .group a, .group b => Arguments.Alike a b
  | _, _ => False

/-- Collections of the same form with the same names in the same order, and arguments that are the
same but for numbers that are written alike. -/
def Arguments.Alike : Arguments → Arguments → Prop
  | .positional as, .positional bs => Arguments.AlikeItems as bs
  | .named as, .named bs => Arguments.AlikeNamed as bs
  | _, _ => False

def Arguments.AlikeItems : List Argument → List Argument → Prop
  | [], [] => True
  | a :: as, b :: bs => Argument.Alike a b ∧ Arguments.AlikeItems as bs
  | _, _ => False

def Arguments.AlikeNamed : List (String × Argument) → List (String × Argument) → Prop
  | [], [] => True
  | (m, a) :: as, (n, b) :: bs => (m = n ∧ Argument.Alike a b) ∧ Arguments.AlikeNamed as bs
  | _, _ => False

end

/-- The arguments of a step or an immediate command: the empty collections are alike. -/
def Arguments.AlikeWhole (a b : Arguments) : Prop := a.isEmpty ∧ b.isEmpty ∨ a.Alike b

/-! ### Variables -/

def AllowableRange.Alike (r s : AllowableRange) : Prop :=
  Script.number r.min = Script.number s.min ∧ Script.number r.max = Script.number s.max

def AllowableValue.Alike : AllowableValue → AllowableValue → Prop
  | .number m, .number n => Script.number m = Script.number n
  | .string s, .string t => s = t
  | _, _ => False

structure VariableOptions.Alike (o p : VariableOptions) : Prop where
  ranges : Option.Rel (List.Forall₂ AllowableRange.Alike) o.ranges p.ranges
  values : Option.Rel (List.Forall₂ AllowableValue.Alike) o.values p.values
  scName : o.scName = p.scName

/-- The same declaration, whatever the kinds are. -/
structure Variable.Alike (v w : Variable) : Prop where
  type : v.type = w.type
  name : v.name = w.name
  options : v.options.Alike w.options

/-! ### Steps and requests -/

/-- An absent description is alike to an empty one. -/
structure Annotations.Alike (a b : Annotations) : Prop where
  description : a.description.getD "" = b.description.getD ""
  metadata : Json.AlikeMembers a.metadata b.metadata

structure ModelAssignment.Alike (m n : ModelAssignment) : Prop where
  offset : m.offset = n.offset
  value : m.value.Alike n.value
  variableName : m.variableName = n.variableName

structure SequenceCall.Alike (s t : SequenceCall) : Prop where
  sequence : s.sequence = t.sequence
  arguments : s.arguments.AlikeWhole t.arguments
  timing : s.timing = t.timing
  annotations : s.annotations.Alike t.annotations
  engine : s.engine = t.engine
  epoch : s.epoch = t.epoch
  models : List.Forall₂ ModelAssignment.Alike s.models t.models

def Step.Alike : Step → Step → Prop
  | .command c, .command d => c.stem = d.stem ∧ c.arguments.AlikeWhole d.arguments ∧
      c.timing = d.timing ∧ c.annotations.Alike d.annotations
  | .groundEvent g, .groundEvent h => g.name = h.name ∧ g.arguments.AlikeWhole h.arguments ∧
      g.timing = h.timing ∧ g.annotations.Alike h.annotations
  | .groundBlock g, .groundBlock h => g.name = h.name ∧ g.arguments.AlikeWhole h.arguments ∧
      g.annotations.Alike h.annotations
  | .activate s, .activate t => s.Alike t
  | .load s, .load t => s.Alike t
  | _, _ => False

structure HardwareCommand.Alike (c d : HardwareCommand) : Prop where
  stem : c.stem = d.stem
  annotations : c.annotations.Alike d.annotations

structure ImmediateCommand.Alike (c d : ImmediateCommand) : Prop where
  stem : c.stem = d.stem
  arguments : c.arguments.AlikeWhole d.arguments
  annotations : c.annotations.Alike d.annotations

structure Request.Alike (r s : Request) : Prop where
  name : r.name = s.name
  steps : List.Forall₂ Step.Alike r.steps s.steps
  groundEpoch : r.groundEpoch = s.groundEpoch
  annotations : r.annotations.Alike s.annotations

/-! ### Sequences -/

/-- An absent list is alike to an empty one. -/
structure Sequence.Alike (s t : Sequence) : Prop where
  id : s.id = t.id
  metadata : Json.AlikeMembers s.metadata t.metadata
  locals : List.Forall₂ Variable.Alike (s.locals.getD []) (t.locals.getD [])
  parameters : List.Forall₂ Variable.Alike (s.parameters.getD []) (t.parameters.getD [])
  hardwareCommands : List.Forall₂ HardwareCommand.Alike (s.hardwareCommands.getD [])
    (t.hardwareCommands.getD [])
  immediateCommands : List.Forall₂ ImmediateCommand.Alike (s.immediateCommands.getD [])
    (t.immediateCommands.getD [])
  steps : List.Forall₂ Step.Alike (s.steps.getD []) (t.steps.getD [])
  requests : List.Forall₂ Request.Alike (s.requests.getD []) (t.requests.getD [])

/-! ### Plain names -/

open Script (isIdentifier)

mutual

/-- Every symbol among the arguments is an identifier. -/
def Argument.IsPlain : Argument → Prop
  | .literal _ => True
  | .symbol name => isIdentifier name
  | .group a => Arguments.IsPlain a

def Arguments.IsPlain : Arguments → Prop
  | .positional as => Arguments.PlainItems as
  | .named as => Arguments.PlainNamed as

def Arguments.PlainItems : List Argument → Prop
  | [] => True
  | a :: as => Argument.IsPlain a ∧ Arguments.PlainItems as

def Arguments.PlainNamed : List (String × Argument) → Prop
  | [] => True
  | (_, a) :: as => Argument.IsPlain a ∧ Arguments.PlainNamed as

end

/-- The stem of a command and the symbols are identifiers. -/
def Step.IsPlain : Step → Prop
  | .command c => isIdentifier c.stem ∧ c.arguments.IsPlain
  | .groundEvent g => g.arguments.IsPlain
  | .groundBlock g => g.arguments.IsPlain
  | .activate s => s.arguments.IsPlain
  | .load s => s.arguments.IsPlain

/-- All stems and all symbols of the sequence are identifiers. -/
structure Sequence.IsPlain (s : Sequence) : Prop where
  hardwareCommands : ∀ cs ∈ s.hardwareCommands, ∀ c ∈ cs, isIdentifier c.stem
  immediateCommands : ∀ cs ∈ s.immediateCommands, ∀ c ∈ cs,
    isIdentifier c.stem ∧ c.arguments.IsPlain
  steps : ∀ xs ∈ s.steps, ∀ x ∈ xs, x.IsPlain
  requests : ∀ rs ∈ s.requests, ∀ r ∈ rs, ∀ x ∈ r.steps, x.IsPlain

/-! ### Lists -/

namespace Json

theorem alikeItems_iff {vs ws : List Json} : AlikeItems vs ws ↔ List.Forall₂ Alike vs ws := by
  induction vs generalizing ws with
  | nil => cases ws <;> simp [AlikeItems]
  | cons v vs ih => cases ws <;> simp [AlikeItems, ih]

theorem alikeMembers_iff {ms ns : List (String × Json)} :
    AlikeMembers ms ns ↔ List.Forall₂ (fun m n => m.1 = n.1 ∧ m.2.Alike n.2) ms ns := by
  induction ms generalizing ns with
  | nil => cases ns <;> simp [AlikeMembers]
  | cons m ms ih =>
    obtain ⟨key, v⟩ := m
    rcases ns with _ | ⟨⟨l, w⟩, ns⟩ <;> simp [AlikeMembers, ih]

end Json

namespace Arguments

theorem alikeItems_iff {as bs : List Argument} :
    AlikeItems as bs ↔ List.Forall₂ Argument.Alike as bs := by
  induction as generalizing bs with
  | nil => cases bs <;> simp [AlikeItems]
  | cons a as ih => cases bs <;> simp [AlikeItems, ih]

theorem alikeNamed_iff {as bs : List (String × Argument)} :
    AlikeNamed as bs ↔ List.Forall₂ (fun a b => a.1 = b.1 ∧ a.2.Alike b.2) as bs := by
  induction as generalizing bs with
  | nil => cases bs <;> simp [AlikeNamed]
  | cons a as ih =>
    obtain ⟨m, a⟩ := a
    rcases bs with _ | ⟨⟨n, b⟩, bs⟩ <;> simp [AlikeNamed, ih]

theorem plainItems_iff {as : List Argument} : PlainItems as ↔ ∀ a ∈ as, a.IsPlain := by
  induction as with
  | nil => simp [PlainItems]
  | cons a as ih => simp [PlainItems, ih]

theorem plainNamed_iff {as : List (String × Argument)} :
    PlainNamed as ↔ ∀ a ∈ as, a.2.IsPlain := by
  induction as with
  | nil => simp [PlainNamed]
  | cons a as ih =>
    obtain ⟨name, a⟩ := a
    simp [PlainNamed, ih]

/-- The arguments in order, each with its name if it has one. -/
def members : Arguments → List (Option String × Argument)
  | positional as => as.map (Option.none, ·)
  | named as => as.map fun a => (some a.1, a.2)

theorem isPlain_members {a : Arguments} (h : a.IsPlain) : ∀ m ∈ a.members, m.2.IsPlain := by
  cases a with
  | positional as =>
    rw [IsPlain, plainItems_iff] at h
    exact List.forall_mem_map.2 h
  | named as =>
    rw [IsPlain, plainNamed_iff] at h
    exact List.forall_mem_map.2 h

theorem isEmpty_members (a : Arguments) : a.members.isEmpty = a.isEmpty := by
  rcases a with (_ | _) | (_ | _) <;> rfl

/-- Where empty collections are alike, only the arguments and their names count. -/
theorem alikeWhole_iff {a b : Arguments} : a.AlikeWhole b ↔
    List.Forall₂ (fun m n => m.1 = n.1 ∧ m.2.Alike n.2) a.members b.members := by
  rcases a with as | as <;> rcases b with bs | bs
  · rcases as with _ | ⟨a, as⟩ <;> rcases bs with _ | ⟨b, bs⟩ <;>
      simp [AlikeWhole, Alike, alikeItems_iff, members, isEmpty, count]
  · rcases as with _ | ⟨a, as⟩ <;> rcases bs with _ | ⟨b, bs⟩ <;>
      simp [AlikeWhole, Alike, members, isEmpty, count]
  · rcases as with _ | ⟨a, as⟩ <;> rcases bs with _ | ⟨b, bs⟩ <;>
      simp [AlikeWhole, Alike, members, isEmpty, count]
  · rcases as with _ | ⟨a, as⟩ <;> rcases bs with _ | ⟨b, bs⟩ <;>
      simp [AlikeWhole, Alike, alikeNamed_iff, members, isEmpty, count]

end Arguments

/-! ### Induction -/

mutual

theorem Argument.treeInduction {p : Argument → Prop} (literal : ∀ l, p (literal l))
    (symbol : ∀ name, p (symbol name))
    (positional : ∀ as : List Argument, (∀ a ∈ as, p a) → p (group (.positional as)))
    (named : ∀ as : List (String × Argument), (∀ a ∈ as, p a.2) → p (group (.named as))) :
    ∀ a, p a
  | .literal l => literal l
  | .symbol name => symbol name
  | .group (.positional as) =>
    positional as (Argument.itemsInduction literal symbol positional named as)
  | .group (.named as) => named as (Argument.namedInduction literal symbol positional named as)

theorem Argument.itemsInduction {p : Argument → Prop} (literal : ∀ l, p (literal l))
    (symbol : ∀ name, p (symbol name))
    (positional : ∀ as : List Argument, (∀ a ∈ as, p a) → p (group (.positional as)))
    (named : ∀ as : List (String × Argument), (∀ a ∈ as, p a.2) → p (group (.named as))) :
    ∀ as : List Argument, ∀ a ∈ as, p a
  | [] => List.forall_mem_nil _
  | a :: as => List.forall_mem_cons.2 ⟨Argument.treeInduction literal symbol positional named a,
      Argument.itemsInduction literal symbol positional named as⟩

theorem Argument.namedInduction {p : Argument → Prop} (literal : ∀ l, p (literal l))
    (symbol : ∀ name, p (symbol name))
    (positional : ∀ as : List Argument, (∀ a ∈ as, p a) → p (group (.positional as)))
    (named : ∀ as : List (String × Argument), (∀ a ∈ as, p a.2) → p (group (.named as))) :
    ∀ as : List (String × Argument), ∀ a ∈ as, p a.2
  | [] => List.forall_mem_nil _
  | (_, a) :: as =>
    List.forall_mem_cons.2 ⟨Argument.treeInduction literal symbol positional named a,
      Argument.namedInduction literal symbol positional named as⟩

end

/-- What holds of a group if it holds of its members holds of every argument. -/
theorem Argument.membersInduction {p : Argument → Prop} (literal : ∀ l, p (literal l))
    (symbol : ∀ name, p (symbol name))
    (group : ∀ a : Arguments, (∀ m ∈ a.members, p m.2) → p (group a)) (a : Argument) : p a := by
  induction a using Argument.treeInduction with
  | literal l => exact literal l
  | symbol name => exact symbol name
  | positional as ih => exact group _ (List.forall_mem_map.2 ih)
  | named as ih => exact group _ (List.forall_mem_map.2 ih)

end SeqScript
