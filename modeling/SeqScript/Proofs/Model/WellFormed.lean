import SeqScript.Proofs.Model.Collections
import SeqScript.Proofs.Time.RoundTrip

/-!
# Well-formed sequences

A sequence is well formed when its declarations are distinct and tagged with their list, the names
of every collection of arguments are distinct, immediate commands have named arguments or none, and
every time has a text that is read (`Sequence.WellFormed`).  Equivalent sequences are well formed
together (`Sequence.wellFormed_canonical`), and every sequence is equivalent to its settled form
(`Sequence.canonical_settle`).
-/

namespace SeqScript

/-! ### Parts of a step -/

namespace Step

def arguments : Step → Arguments
  | command c => c.arguments
  | groundEvent g => g.arguments
  | groundBlock g => g.arguments
  | activate s => s.arguments
  | load s => s.arguments

/-- The timing of a step; a ground block has none. -/
def timing? : Step → Option Timing
  | command c => some c.timing
  | groundEvent g => some g.timing
  | groundBlock _ => none
  | activate s => some s.timing
  | load s => some s.timing

/-- The models that a step assigns; only calls do. -/
def models : Step → List ModelAssignment
  | activate s => s.models
  | load s => s.models
  | _ => []

def annotations : Step → Annotations
  | command c => c.annotations
  | groundEvent g => g.annotations
  | groundBlock g => g.annotations
  | activate s => s.annotations
  | load s => s.annotations

end Step

/-! ### Well-formedness -/

/-- The time has a text that is read. -/
def Timing.InRange : Timing → Prop
  | absolute i => i.HasFourDigitYear
  | relative d => d.HasSixDigitHours
  | epoch d => d.HasSixDigitHours
  | commandComplete => True

structure Step.WellFormed (x : Step) : Prop where
  arguments : x.arguments.NamesDistinct
  timing : ∀ t ∈ x.timing?, t.InRange
  offsets : ∀ m ∈ x.models, m.offset.HasSixDigitHours

structure ImmediateCommand.WellFormed (c : ImmediateCommand) : Prop where
  arguments : c.arguments.NamesDistinct
  named : c.arguments.isEmpty ∨ c.arguments.isNamed

/-- The variables can be the declarations of one list. -/
structure Declared (kind : VariableKind) (vs : List Variable) : Prop where
  names : (vs.map (·.name)).Nodup
  kinds : ∀ v ∈ vs, v.kind = some kind

structure Sequence.WellFormed (s : Sequence) : Prop where
  locals : ∀ vs ∈ s.locals, Declared .locals vs
  parameters : ∀ vs ∈ s.parameters, Declared .parameters vs
  immediateCommands : ∀ cs ∈ s.immediateCommands, ∀ c ∈ cs, c.WellFormed
  steps : ∀ xs ∈ s.steps, ∀ x ∈ xs, x.WellFormed
  requests : ∀ rs ∈ s.requests, ∀ r ∈ rs, ∀ x ∈ r.steps, x.WellFormed

/-- Every variable is tagged with the list that declares it. -/
structure Sequence.IsTagged (s : Sequence) : Prop where
  locals : ∀ vs ∈ s.locals, ∀ v ∈ vs, v.kind = some .locals
  parameters : ∀ vs ∈ s.parameters, ∀ v ∈ vs, v.kind = some .parameters

namespace Sequence

theorem WellFormed.isTagged {s : Sequence} (h : s.WellFormed) : s.IsTagged :=
  ⟨fun vs hvs => (h.locals vs hvs).kinds, fun vs hvs => (h.parameters vs hvs).kinds⟩

end Sequence

/-! ### Canonical forms -/

namespace Step

@[simp] theorem arguments_canonical (x : Step) : x.canonical.arguments = x.arguments.canonical := by
  cases x <;> rfl

@[simp] theorem timing?_canonical (x : Step) : x.canonical.timing? = x.timing? := by
  cases x <;> rfl

@[simp] theorem models_canonical (x : Step) :
    x.canonical.models = x.models.map (·.canonical) := by
  cases x <;> rfl

theorem wellFormed_canonical (x : Step) : x.canonical.WellFormed ↔ x.WellFormed := by
  have offsets : (∀ m ∈ x.canonical.models, m.offset.HasSixDigitHours) ↔
      ∀ m ∈ x.models, m.offset.HasSixDigitHours := by
    rw [models_canonical]
    exact List.forall_mem_map
  constructor
  · rintro ⟨distinct, timing, models⟩
    rw [arguments_canonical, Arguments.namesDistinct_canonical] at distinct
    rw [timing?_canonical] at timing
    exact ⟨distinct, timing, offsets.1 models⟩
  · rintro ⟨distinct, timing, models⟩
    refine ⟨?_, ?_, offsets.2 models⟩
    · rwa [arguments_canonical, Arguments.namesDistinct_canonical]
    · rwa [timing?_canonical]

end Step

theorem ImmediateCommand.wellFormed_canonical (c : ImmediateCommand) :
    c.canonical.WellFormed ↔ c.WellFormed := by
  have named : (c.canonical.arguments.isEmpty ∨ c.canonical.arguments.isNamed) ↔
      (c.arguments.isEmpty ∨ c.arguments.isNamed) := by
    have same : c.canonical.arguments = c.arguments.canonical := rfl
    rw [same, Arguments.isEmpty_canonical]
    rcases empty : c.arguments.isEmpty with _ | _
    · rw [Arguments.isNamed_canonical empty]
    · simp only [true_or]
  constructor
  · rintro ⟨distinct, form⟩
    exact ⟨(Arguments.namesDistinct_canonical _).1 distinct, named.1 form⟩
  · rintro ⟨distinct, form⟩
    exact ⟨(Arguments.namesDistinct_canonical _).2 distinct, named.2 form⟩

theorem declared_canonical {kind : VariableKind} (vs : List Variable) :
    Declared kind (vs.map (·.canonical)) ↔ Declared kind vs := by
  have names : (vs.map (·.canonical)).map (·.name) = vs.map (·.name) := by
    rw [List.map_map]
    rfl
  have kinds : (∀ v ∈ vs.map (·.canonical), v.kind = some kind) ↔ ∀ v ∈ vs, v.kind = some kind :=
    List.forall_mem_map
  constructor
  · rintro ⟨distinct, tagged⟩
    exact ⟨names ▸ distinct, kinds.1 tagged⟩
  · rintro ⟨distinct, tagged⟩
    exact ⟨names ▸ distinct, kinds.2 tagged⟩

/-- A property of all values of an optional list passes to their images. -/
theorem forall_mem_map_map {α β : Type} {o : Option (List α)} {g : α → β} {p : β → Prop}
    (h : ∀ as ∈ o, ∀ a ∈ as, p (g a)) : ∀ bs ∈ o.map (·.map g), ∀ b ∈ bs, p b := by
  rcases o with _ | as
  · exact nofun
  · rintro _ ⟨⟩
    exact List.forall_mem_map.2 (h as rfl)

/-- A property of all values of an optional list, and of all their images. -/
theorem forall_mem_mapped {α β : Type} {o : Option (List α)} {f : α → β} {p : β → Prop}
    {q : α → Prop} (h : ∀ a, p (f a) ↔ q a) :
    (∀ bs ∈ o.map (·.map f), ∀ b ∈ bs, p b) ↔ ∀ as ∈ o, ∀ a ∈ as, q a := by
  simp [h]

namespace Sequence

/-- A sequence is well formed exactly when its canonical form is. -/
theorem wellFormed_canonical (s : Sequence) : s.canonical.WellFormed ↔ s.WellFormed := by
  have declared : ∀ (kind : VariableKind) (o : Option (List Variable)),
      (∀ vs ∈ o.map (·.map (·.canonical)), Declared kind vs) ↔ ∀ vs ∈ o, Declared kind vs := by
    intro kind o
    rcases o with _ | vs
    · simp
    · simpa using declared_canonical vs
  have immediate := forall_mem_mapped (o := s.immediateCommands)
    ImmediateCommand.wellFormed_canonical
  have steps := forall_mem_mapped (o := s.steps) Step.wellFormed_canonical
  have requests := forall_mem_mapped (o := s.requests) (f := Request.canonical)
    (p := fun r => ∀ x ∈ r.steps, x.WellFormed) (q := fun r => ∀ x ∈ r.steps, x.WellFormed)
    fun r => by
      show (∀ x ∈ r.steps.map (·.canonical), x.WellFormed) ↔ _
      simp only [List.forall_mem_map, Step.wellFormed_canonical]
  constructor
  · rintro ⟨h₁, h₂, h₃, h₄, h₅⟩
    exact ⟨(declared _ _).1 h₁, (declared _ _).1 h₂, immediate.1 h₃, steps.1 h₄, requests.1 h₅⟩
  · rintro ⟨h₁, h₂, h₃, h₄, h₅⟩
    exact ⟨(declared _ _).2 h₁, (declared _ _).2 h₂, immediate.2 h₃, steps.2 h₄, requests.2 h₅⟩

theorem IsTagged.canonical {s : Sequence} (h : s.IsTagged) : s.canonical.IsTagged :=
  ⟨forall_mem_map_map h.locals, forall_mem_map_map h.parameters⟩

end Sequence

/-! ### Settled sequences -/

def Step.settle : Step → Step
  | .command c => .command { c with arguments := c.arguments.settle }
  | .groundEvent g => .groundEvent { g with arguments := g.arguments.settle }
  | .groundBlock g => .groundBlock { g with arguments := g.arguments.settle }
  | .activate s => .activate { s with arguments := s.arguments.settle }
  | .load s => .load { s with arguments := s.arguments.settle }

def ImmediateCommand.settle (c : ImmediateCommand) : ImmediateCommand :=
  { c with arguments := c.arguments.settle }

def Request.settle (r : Request) : Request := { r with steps := r.steps.map (·.settle) }

/-- The sequence with every empty collection of arguments positional. -/
def Sequence.settle (s : Sequence) : Sequence :=
  { s with
    immediateCommands := s.immediateCommands.map (·.map (·.settle))
    steps := s.steps.map (·.map (·.settle))
    requests := s.requests.map (·.map (·.settle)) }

/-- Every empty collection of arguments in the sequence is positional. -/
structure Sequence.IsSettled (s : Sequence) : Prop where
  immediateCommands : ∀ cs ∈ s.immediateCommands, ∀ c ∈ cs, c.arguments.IsSettled
  steps : ∀ xs ∈ s.steps, ∀ x ∈ xs, x.arguments.IsSettled
  requests : ∀ rs ∈ s.requests, ∀ r ∈ rs, ∀ x ∈ r.steps, x.arguments.IsSettled

theorem Step.canonical_settle (x : Step) : x.settle.canonical = x.canonical := by
  cases x <;> simp only [settle, canonical, SequenceCall.canonical, Arguments.canonical_settle]

theorem ImmediateCommand.canonical_settle (c : ImmediateCommand) :
    c.settle.canonical = c.canonical := by
  simp only [settle, canonical, Arguments.canonical_settle]

theorem Request.canonical_settle (r : Request) : r.settle.canonical = r.canonical := by
  simp only [settle, canonical, List.map_map, Function.comp_def, Step.canonical_settle]

/-- A sequence and its settled form are equivalent. -/
theorem Sequence.canonical_settle (s : Sequence) : s.settle.canonical = s.canonical := by
  simp only [settle, canonical, Option.map_map, List.map_map, Function.comp_def,
    ImmediateCommand.canonical_settle, Step.canonical_settle, Request.canonical_settle]

theorem Step.settle_eq_self {x : Step} (h : x.arguments.IsSettled) : x.settle = x := by
  have settled := Arguments.settle_eq_self _ h
  cases x <;> simp only [arguments] at settled <;> simp only [settle, settled]

theorem ImmediateCommand.settle_eq_self {c : ImmediateCommand} (h : c.arguments.IsSettled) :
    c.settle = c := by
  rw [settle, Arguments.settle_eq_self _ h]

theorem map_eq_self {α : Type} {f : α → α} {as : List α} (h : ∀ a ∈ as, f a = a) :
    as.map f = as :=
  (List.map_congr_left h).trans (List.map_id as)

theorem Request.settle_eq_self {r : Request} (h : ∀ x ∈ r.steps, x.arguments.IsSettled) :
    r.settle = r := by
  rw [settle, map_eq_self fun x hx => Step.settle_eq_self (h x hx)]

theorem map_map_eq_self {α : Type} {f : α → α} {o : Option (List α)}
    (h : ∀ as ∈ o, ∀ a ∈ as, f a = a) : o.map (·.map f) = o := by
  rcases o with _ | as
  · rfl
  · exact congrArg some (map_eq_self (h as rfl))

theorem Sequence.settle_eq_self {s : Sequence} (h : s.IsSettled) : s.settle = s := by
  have immediate := map_map_eq_self fun cs hcs c hc =>
    ImmediateCommand.settle_eq_self (h.immediateCommands cs hcs c hc)
  have steps := map_map_eq_self fun xs hxs x hx => Step.settle_eq_self (h.steps xs hxs x hx)
  have requests := map_map_eq_self fun rs hrs r hr =>
    Request.settle_eq_self (h.requests rs hrs r hr)
  rw [settle, immediate, steps, requests]

/-- The canonical form of a sequence is settled. -/
theorem Sequence.isSettled_canonical (s : Sequence) : s.canonical.IsSettled where
  immediateCommands := forall_mem_map_map fun _ _ c _ => c.arguments.isSettled_canonical
  steps := forall_mem_map_map fun _ _ x _ => by
    rw [Step.arguments_canonical]
    exact x.arguments.isSettled_canonical
  requests := forall_mem_map_map fun _ _ r _ => List.forall_mem_map.2 fun x _ => by
    rw [Step.arguments_canonical]
    exact x.arguments.isSettled_canonical

end SeqScript
