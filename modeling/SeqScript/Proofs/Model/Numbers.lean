import SeqScript.Proofs.Json.Tree
import SeqScript.Proofs.Model.WellFormed

/-!
# The numbers of a sequence

A function is applied to every number of a sequence at once (`Sequence.mapNumbers`).  The result is
well formed with the sequence, and equivalent to it exactly when no number changes its canonical
form (`Sequence.canonical_mapNumbers_iff`): the order that canonical forms give to named arguments
does not depend on the numbers.
-/

namespace SeqScript

variable {f : Number → Number}

/-! ### Application -/

def Literal.mapNumbers (f : Number → Number) : Literal → Literal
  | .number n => .number (f n)
  | l => l

mutual

def Argument.mapNumbers (f : Number → Number) : Argument → Argument
  | .literal value => .literal (value.mapNumbers f)
  | .symbol name => .symbol name
  | .group arguments => .group (Arguments.mapNumbers f arguments)

def Arguments.mapNumbers (f : Number → Number) : Arguments → Arguments
  | .positional items => .positional (Arguments.mapNumbersItems f items)
  | .named items => .named (Arguments.mapNumbersNamed f items)

def Arguments.mapNumbersItems (f : Number → Number) : List Argument → List Argument
  | [] => []
  | a :: as => Argument.mapNumbers f a :: Arguments.mapNumbersItems f as

def Arguments.mapNumbersNamed (f : Number → Number) :
    List (String × Argument) → List (String × Argument)
  | [] => []
  | (name, a) :: as => (name, Argument.mapNumbers f a) :: Arguments.mapNumbersNamed f as

end

def AllowableRange.mapNumbers (f : Number → Number) (r : AllowableRange) : AllowableRange :=
  ⟨f r.min, f r.max⟩

def AllowableValue.mapNumbers (f : Number → Number) : AllowableValue → AllowableValue
  | .number n => .number (f n)
  | v => v

def VariableOptions.mapNumbers (f : Number → Number) (o : VariableOptions) : VariableOptions :=
  { o with
    ranges := o.ranges.map (·.map (·.mapNumbers f))
    values := o.values.map (·.map (·.mapNumbers f)) }

def Variable.mapNumbers (f : Number → Number) (v : Variable) : Variable :=
  { v with options := v.options.mapNumbers f }

def Annotations.mapNumbers (f : Number → Number) (a : Annotations) : Annotations :=
  { a with metadata := Json.mapNumbersMembers f a.metadata }

def ModelAssignment.mapNumbers (f : Number → Number) (m : ModelAssignment) : ModelAssignment :=
  { m with value := m.value.mapNumbers f }

def SequenceCall.mapNumbers (f : Number → Number) (s : SequenceCall) : SequenceCall :=
  { s with
    arguments := s.arguments.mapNumbers f
    annotations := s.annotations.mapNumbers f
    models := s.models.map (·.mapNumbers f) }

def Step.mapNumbers (f : Number → Number) : Step → Step
  | .command c =>
    .command
      { c with arguments := c.arguments.mapNumbers f, annotations := c.annotations.mapNumbers f }
  | .groundEvent g =>
    .groundEvent
      { g with arguments := g.arguments.mapNumbers f, annotations := g.annotations.mapNumbers f }
  | .groundBlock g =>
    .groundBlock
      { g with arguments := g.arguments.mapNumbers f, annotations := g.annotations.mapNumbers f }
  | .activate s => .activate (s.mapNumbers f)
  | .load s => .load (s.mapNumbers f)

def HardwareCommand.mapNumbers (f : Number → Number) (c : HardwareCommand) : HardwareCommand :=
  { c with annotations := c.annotations.mapNumbers f }

def ImmediateCommand.mapNumbers (f : Number → Number) (c : ImmediateCommand) :
    ImmediateCommand :=
  { c with arguments := c.arguments.mapNumbers f, annotations := c.annotations.mapNumbers f }

def Request.mapNumbers (f : Number → Number) (r : Request) : Request :=
  { r with steps := r.steps.map (·.mapNumbers f), annotations := r.annotations.mapNumbers f }

/-- The sequence with a function applied to every number. -/
def Sequence.mapNumbers (f : Number → Number) (s : Sequence) : Sequence where
  id := s.id
  metadata := Json.mapNumbersMembers f s.metadata
  locals := s.locals.map (·.map (·.mapNumbers f))
  parameters := s.parameters.map (·.map (·.mapNumbers f))
  hardwareCommands := s.hardwareCommands.map (·.map (·.mapNumbers f))
  immediateCommands := s.immediateCommands.map (·.map (·.mapNumbers f))
  steps := s.steps.map (·.map (·.mapNumbers f))
  requests := s.requests.map (·.map (·.mapNumbers f))

/-! ### Names -/

theorem Arguments.names_mapNumbersNamed (as : List (String × Argument)) :
    (mapNumbersNamed f as).map (·.1) = as.map (·.1) := by
  induction as with
  | nil => rfl
  | cons e as ih =>
    obtain ⟨name, a⟩ := e
    rw [mapNumbersNamed, List.map_cons, List.map_cons, ih]

mutual

/-- What concerns only the names of collections is the same for every number. -/
theorem Argument.everywhere_mapNumbers {p : Arguments → Prop}
    (h : ∀ a : Arguments, p (a.mapNumbers f) ↔ p a) : ∀ a : Argument,
    (a.mapNumbers f).Everywhere p ↔ a.Everywhere p
  | .literal _ => Iff.rfl
  | .symbol _ => Iff.rfl
  | .group a => Arguments.everywhere_mapNumbers h a

theorem Arguments.everywhere_mapNumbers {p : Arguments → Prop}
    (h : ∀ a : Arguments, p (a.mapNumbers f) ↔ p a) : ∀ a : Arguments,
    (a.mapNumbers f).Everywhere p ↔ a.Everywhere p
  | .positional items =>
    and_congr (h (.positional items)) (Arguments.everywhereItems_mapNumbers h items)
  | .named items => and_congr (h (.named items)) (Arguments.everywhereNamed_mapNumbers h items)

theorem Arguments.everywhereItems_mapNumbers {p : Arguments → Prop}
    (h : ∀ a : Arguments, p (a.mapNumbers f) ↔ p a) : ∀ as : List Argument,
    Arguments.EverywhereItems p (Arguments.mapNumbersItems f as) ↔
      Arguments.EverywhereItems p as
  | [] => Iff.rfl
  | a :: as =>
    and_congr (Argument.everywhere_mapNumbers h a) (Arguments.everywhereItems_mapNumbers h as)

theorem Arguments.everywhereNamed_mapNumbers {p : Arguments → Prop}
    (h : ∀ a : Arguments, p (a.mapNumbers f) ↔ p a) : ∀ as : List (String × Argument),
    Arguments.EverywhereNamed p (Arguments.mapNumbersNamed f as) ↔
      Arguments.EverywhereNamed p as
  | [] => Iff.rfl
  | (_, a) :: as =>
    and_congr (Argument.everywhere_mapNumbers h a) (Arguments.everywhereNamed_mapNumbers h as)

end

namespace Arguments

theorem namesDistinct_mapNumbers (a : Arguments) :
    (a.mapNumbers f).NamesDistinct ↔ a.NamesDistinct := by
  refine everywhere_mapNumbers (fun a => ?_) a
  rcases a with items | items
  · exact Iff.rfl
  · show ((mapNumbersNamed f items).map (·.1)).Nodup ↔ _
    rw [names_mapNumbersNamed]
    rfl

theorem isSettled_mapNumbers (a : Arguments) : (a.mapNumbers f).IsSettled ↔ a.IsSettled := by
  refine everywhere_mapNumbers (fun a => ?_) a
  rcases a with items | items
  · exact iff_of_true nofun nofun
  · rcases items with _ | ⟨⟨name, a⟩, items⟩
    · exact Iff.rfl
    · exact iff_of_true nofun nofun

theorem form_mapNumbers (a : Arguments) :
    ((a.mapNumbers f).isEmpty ∨ (a.mapNumbers f).isNamed) ↔ (a.isEmpty ∨ a.isNamed) := by
  rcases a with items | items
  · rcases items with _ | ⟨a, items⟩
    · exact Iff.rfl
    · exact Iff.rfl
  · exact iff_of_true (.inr rfl) (.inr rfl)

end Arguments

/-! ### Well-formedness -/

namespace Step

@[simp] theorem arguments_mapNumbers (x : Step) :
    (x.mapNumbers f).arguments = x.arguments.mapNumbers f := by
  cases x <;> rfl

@[simp] theorem timing?_mapNumbers (x : Step) : (x.mapNumbers f).timing? = x.timing? := by
  cases x <;> rfl

@[simp] theorem models_mapNumbers (x : Step) :
    (x.mapNumbers f).models = x.models.map (·.mapNumbers f) := by
  cases x <;> rfl

theorem wellFormed_mapNumbers {x : Step} (h : x.WellFormed) : (x.mapNumbers f).WellFormed := by
  obtain ⟨distinct, timing, offsets⟩ := h
  refine ⟨?_, ?_, ?_⟩
  · rwa [arguments_mapNumbers, Arguments.namesDistinct_mapNumbers]
  · rwa [timing?_mapNumbers]
  · rw [models_mapNumbers]
    exact List.forall_mem_map.2 offsets

end Step

theorem ImmediateCommand.wellFormed_mapNumbers {c : ImmediateCommand} (h : c.WellFormed) :
    (c.mapNumbers f).WellFormed :=
  ⟨(Arguments.namesDistinct_mapNumbers _).2 h.arguments, (Arguments.form_mapNumbers _).2 h.named⟩

theorem declared_mapNumbers {kind : VariableKind} {vs : List Variable} (h : Declared kind vs) :
    Declared kind (vs.map (·.mapNumbers f)) := by
  refine ⟨?_, List.forall_mem_map.2 h.kinds⟩
  rw [List.map_map]
  exact h.names

theorem declared_map_mapNumbers {kind : VariableKind} {o : Option (List Variable)}
    (h : ∀ vs ∈ o, Declared kind vs) :
    ∀ vs ∈ o.map (·.map (·.mapNumbers f)), Declared kind vs := by
  rcases o with _ | vs
  · exact nofun
  · rintro _ ⟨⟩
    exact declared_mapNumbers (h vs rfl)

namespace Sequence

theorem wellFormed_mapNumbers {s : Sequence} (h : s.WellFormed) :
    (s.mapNumbers f).WellFormed where
  locals := declared_map_mapNumbers h.locals
  parameters := declared_map_mapNumbers h.parameters
  immediateCommands := forall_mem_map_map fun cs hcs c hc =>
    ImmediateCommand.wellFormed_mapNumbers (h.immediateCommands cs hcs c hc)
  steps := forall_mem_map_map fun xs hxs x hx => Step.wellFormed_mapNumbers (h.steps xs hxs x hx)
  requests := forall_mem_map_map fun rs hrs r hr => List.forall_mem_map.2 fun x hx =>
    Step.wellFormed_mapNumbers (h.requests rs hrs r hr x hx)

theorem isSettled_mapNumbers {s : Sequence} (h : s.IsSettled) : (s.mapNumbers f).IsSettled where
  immediateCommands := forall_mem_map_map fun cs hcs c hc =>
    (Arguments.isSettled_mapNumbers _).2 (h.immediateCommands cs hcs c hc)
  steps := forall_mem_map_map fun xs hxs x hx => by
    rw [Step.arguments_mapNumbers, Arguments.isSettled_mapNumbers]
    exact h.steps xs hxs x hx
  requests := forall_mem_map_map fun rs hrs r hr => List.forall_mem_map.2 fun x hx => by
    rw [Step.arguments_mapNumbers, Arguments.isSettled_mapNumbers]
    exact h.requests rs hrs r hr x hx

end Sequence

/-! ### Canonical forms -/

section

variable {α : Type}

theorem insertByName_names {name : String} {a b : α} {es fs : List (String × α)}
    (h : es.map (·.1) = fs.map (·.1)) :
    (insertByName (name, a) es).map (·.1) = (insertByName (name, b) fs).map (·.1) := by
  induction es generalizing fs with
  | nil =>
    rw [List.map_nil, eq_comm, List.map_eq_nil_iff] at h
    rw [h]
    rfl
  | cons e es ih =>
    rcases fs with _ | ⟨e', fs⟩
    · contradiction
    · have first : e.1 = e'.1 := (List.cons.inj h).1
      have rest : es.map (·.1) = fs.map (·.1) := (List.cons.inj h).2
      unfold insertByName
      rw [first]
      split_ifs
      · rw [List.map_cons, List.map_cons, ih rest, first]
      · exact congrArg (name :: ·) h

theorem sortByName_names {es fs : List (String × α)} (h : es.map (·.1) = fs.map (·.1)) :
    (sortByName es).map (·.1) = (sortByName fs).map (·.1) := by
  induction es generalizing fs with
  | nil =>
    rw [List.map_nil, eq_comm, List.map_eq_nil_iff] at h
    rw [h]
  | cons e es ih =>
    rcases fs with _ | ⟨⟨name, b⟩, fs⟩
    · contradiction
    · obtain ⟨name', a⟩ := e
      obtain ⟨rfl, rest⟩ := List.cons.inj h
      exact insertByName_names (ih rest)

theorem insertByName_inj {name : String} {a b : α} {es fs : List (String × α)}
    (h : es.map (·.1) = fs.map (·.1))
    (same : insertByName (name, a) es = insertByName (name, b) fs) : a = b ∧ es = fs := by
  induction es generalizing fs with
  | nil =>
    rw [List.map_nil, eq_comm, List.map_eq_nil_iff] at h
    subst h
    exact ⟨(Prod.mk.inj (List.cons.inj same).1).2, rfl⟩
  | cons e es ih =>
    rcases fs with _ | ⟨e', fs⟩
    · contradiction
    · have first : e.1 = e'.1 := (List.cons.inj h).1
      have rest : es.map (·.1) = fs.map (·.1) := (List.cons.inj h).2
      unfold insertByName at same
      rw [first] at same
      split_ifs at same
      · obtain ⟨rfl, later⟩ := List.cons.inj same
        obtain ⟨rfl, rfl⟩ := ih rest later
        exact ⟨rfl, rfl⟩
      · obtain ⟨entry, later⟩ := List.cons.inj same
        exact ⟨(Prod.mk.inj entry).2, later⟩

/-- Lists with the same names in the same order are sorted alike only when they are equal. -/
theorem sortByName_inj {es fs : List (String × α)} (h : es.map (·.1) = fs.map (·.1))
    (same : sortByName es = sortByName fs) : es = fs := by
  induction es generalizing fs with
  | nil =>
    rw [List.map_nil, eq_comm, List.map_eq_nil_iff] at h
    exact h.symm
  | cons e es ih =>
    rcases fs with _ | ⟨⟨name, b⟩, fs⟩
    · contradiction
    · obtain ⟨name', a⟩ := e
      obtain ⟨rfl, rest⟩ := List.cons.inj h
      obtain ⟨rfl, sorted⟩ := insertByName_inj (sortByName_names rest) same
      rw [ih rest sorted]

end

section

variable {α β γ : Type} {g g' : α → β} {k k' : α → γ}

theorem map_eq_map_iff (h : ∀ a, g a = g' a ↔ k a = k' a) (as : List α) :
    as.map g = as.map g' ↔ as.map k = as.map k' := by
  rw [List.map_inj_left, List.map_inj_left]
  exact forall₂_congr fun a _ => h a

theorem map_map_eq_map_map_iff (h : ∀ a, g a = g' a ↔ k a = k' a) (o : Option (List α)) :
    o.map (·.map g) = o.map (·.map g') ↔ o.map (·.map k) = o.map (·.map k') := by
  rcases o with _ | as
  · exact iff_of_true rfl rfl
  · simp only [Option.map_some, Option.some.injEq]
    exact map_eq_map_iff h as

end

theorem Literal.canonical_mapNumbers_iff (l : Literal) :
    (l.mapNumbers f).canonical = l.canonical ↔
      l.mapNumbers (fun n => (f n).canonical) = l.mapNumbers Number.canonical := by
  cases l <;> exact Iff.rfl

/-- Named collections with the same names in the same order have one canonical form only when the
canonical forms of their arguments are the same. -/
theorem Arguments.canonical_named_eq_iff {as bs : List (String × Argument)}
    (h : as.map (·.1) = bs.map (·.1)) :
    (named as).canonical = (named bs).canonical ↔ canonicalNamed as = canonicalNamed bs := by
  rcases as with _ | ⟨e, as⟩
  · rw [List.map_nil, eq_comm, List.map_eq_nil_iff] at h
    rw [h]
    exact iff_of_true rfl rfl
  · rcases bs with _ | ⟨e', bs⟩
    · contradiction
    · have names : (canonicalNamed (e :: as)).map (·.1) =
          (canonicalNamed (e' :: bs)).map (·.1) := by
        rw [names_canonicalNamed, names_canonicalNamed, h]
      rw [canonical_named, canonical_named, if_neg (List.cons_ne_nil _ _),
        if_neg (List.cons_ne_nil _ _), named.injEq]
      exact ⟨sortByName_inj names, congrArg sortByName⟩

mutual

theorem Argument.canonical_mapNumbers_iff : ∀ a : Argument,
    (a.mapNumbers f).canonical = a.canonical ↔
      a.mapNumbers (fun n => (f n).canonical) = a.mapNumbers Number.canonical
  | .literal l => by
    simp only [Argument.mapNumbers, Argument.canonical, Argument.literal.injEq]
    exact l.canonical_mapNumbers_iff
  | .symbol _ => Iff.rfl
  | .group a => by
    simp only [Argument.mapNumbers, Argument.canonical, Argument.group.injEq]
    exact Arguments.canonical_mapNumbers_iff a

theorem Arguments.canonical_mapNumbers_iff : ∀ a : Arguments,
    (a.mapNumbers f).canonical = a.canonical ↔
      a.mapNumbers (fun n => (f n).canonical) = a.mapNumbers Number.canonical
  | .positional as => by
    simp only [Arguments.mapNumbers, Arguments.canonical, Arguments.positional.injEq]
    exact Arguments.canonicalItems_mapNumbers_iff as
  | .named as => by
    simp only [Arguments.mapNumbers, Arguments.named.injEq]
    rw [Arguments.canonical_named_eq_iff (Arguments.names_mapNumbersNamed as)]
    exact Arguments.canonicalNamed_mapNumbers_iff as

theorem Arguments.canonicalItems_mapNumbers_iff : ∀ as : List Argument,
    Arguments.canonicalItems (Arguments.mapNumbersItems f as) = Arguments.canonicalItems as ↔
      Arguments.mapNumbersItems (fun n => (f n).canonical) as =
        Arguments.mapNumbersItems Number.canonical as
  | [] => iff_of_true rfl rfl
  | a :: as => by
    simp only [Arguments.mapNumbersItems, Arguments.canonicalItems, List.cons.injEq]
    exact and_congr (Argument.canonical_mapNumbers_iff a)
      (Arguments.canonicalItems_mapNumbers_iff as)

theorem Arguments.canonicalNamed_mapNumbers_iff : ∀ as : List (String × Argument),
    Arguments.canonicalNamed (Arguments.mapNumbersNamed f as) = Arguments.canonicalNamed as ↔
      Arguments.mapNumbersNamed (fun n => (f n).canonical) as =
        Arguments.mapNumbersNamed Number.canonical as
  | [] => iff_of_true rfl rfl
  | (_, a) :: as => by
    simp only [Arguments.mapNumbersNamed, Arguments.canonicalNamed, List.cons.injEq, Prod.mk.injEq,
      true_and]
    exact and_congr (Argument.canonical_mapNumbers_iff a)
      (Arguments.canonicalNamed_mapNumbers_iff as)

end

theorem AllowableRange.canonical_mapNumbers_iff (r : AllowableRange) :
    (r.mapNumbers f).canonical = r.canonical ↔
      r.mapNumbers (fun n => (f n).canonical) = r.mapNumbers Number.canonical :=
  Iff.rfl

theorem AllowableValue.canonical_mapNumbers_iff (v : AllowableValue) :
    (v.mapNumbers f).canonical = v.canonical ↔
      v.mapNumbers (fun n => (f n).canonical) = v.mapNumbers Number.canonical := by
  cases v <;> exact Iff.rfl

theorem VariableOptions.canonical_mapNumbers_iff (o : VariableOptions) :
    (o.mapNumbers f).canonical = o.canonical ↔
      o.mapNumbers (fun n => (f n).canonical) = o.mapNumbers Number.canonical := by
  obtain ⟨ranges, values, scName⟩ := o
  simp only [mapNumbers, canonical, mk.injEq, and_true, Option.map_map, Function.comp_def,
    List.map_map]
  exact and_congr
    (map_map_eq_map_map_iff (fun r => AllowableRange.canonical_mapNumbers_iff r) ranges)
    (map_map_eq_map_map_iff (fun v => AllowableValue.canonical_mapNumbers_iff v) values)

theorem Variable.canonical_mapNumbers_iff (v : Variable) :
    (v.mapNumbers f).canonical = v.canonical ↔
      v.mapNumbers (fun n => (f n).canonical) = v.mapNumbers Number.canonical := by
  simp only [mapNumbers, canonical, mk.injEq, true_and]
  exact v.options.canonical_mapNumbers_iff

theorem Members.canonical_mapNumbers_iff (ms : Members) :
    Members.canonical (Json.mapNumbersMembers f ms) = ms.canonical ↔
      Json.mapNumbersMembers (fun n => (f n).canonical) ms =
        Json.mapNumbersMembers Number.canonical ms := by
  rw [Members.canonical, Members.canonical, Json.canonicalMembers_eq_mapNumbers,
    Json.canonicalMembers_eq_mapNumbers, Json.mapNumbersMembers_mapNumbersMembers]

theorem Annotations.canonical_mapNumbers_iff (a : Annotations) :
    (a.mapNumbers f).canonical = a.canonical ↔
      a.mapNumbers (fun n => (f n).canonical) = a.mapNumbers Number.canonical := by
  simp only [mapNumbers, canonical, mk.injEq, true_and]
  exact Members.canonical_mapNumbers_iff a.metadata

theorem ModelAssignment.canonical_mapNumbers_iff (m : ModelAssignment) :
    (m.mapNumbers f).canonical = m.canonical ↔
      m.mapNumbers (fun n => (f n).canonical) = m.mapNumbers Number.canonical := by
  simp only [mapNumbers, canonical, mk.injEq, true_and, and_true]
  exact m.value.canonical_mapNumbers_iff

theorem SequenceCall.canonical_mapNumbers_iff (s : SequenceCall) :
    (s.mapNumbers f).canonical = s.canonical ↔
      s.mapNumbers (fun n => (f n).canonical) = s.mapNumbers Number.canonical := by
  simp only [mapNumbers, canonical, mk.injEq, true_and, List.map_map, Function.comp_def]
  exact and_congr (Arguments.canonical_mapNumbers_iff _) (and_congr
    (Annotations.canonical_mapNumbers_iff _)
    (map_eq_map_iff (fun m => ModelAssignment.canonical_mapNumbers_iff m) _))

theorem Step.canonical_mapNumbers_iff (x : Step) :
    (x.mapNumbers f).canonical = x.canonical ↔
      x.mapNumbers (fun n => (f n).canonical) = x.mapNumbers Number.canonical := by
  rcases x with c | g | g | s | s
  · simp only [mapNumbers, canonical, command.injEq, Command.mk.injEq, true_and]
    exact and_congr (Arguments.canonical_mapNumbers_iff _) (Annotations.canonical_mapNumbers_iff _)
  · simp only [mapNumbers, canonical, groundEvent.injEq, GroundEvent.mk.injEq, true_and]
    exact and_congr (Arguments.canonical_mapNumbers_iff _) (Annotations.canonical_mapNumbers_iff _)
  · simp only [mapNumbers, canonical, groundBlock.injEq, GroundBlock.mk.injEq, true_and]
    exact and_congr (Arguments.canonical_mapNumbers_iff _) (Annotations.canonical_mapNumbers_iff _)
  · simp only [mapNumbers, canonical, activate.injEq]
    exact s.canonical_mapNumbers_iff
  · simp only [mapNumbers, canonical, load.injEq]
    exact s.canonical_mapNumbers_iff

theorem HardwareCommand.canonical_mapNumbers_iff (c : HardwareCommand) :
    (c.mapNumbers f).canonical = c.canonical ↔
      c.mapNumbers (fun n => (f n).canonical) = c.mapNumbers Number.canonical := by
  simp only [mapNumbers, canonical, mk.injEq, true_and]
  exact c.annotations.canonical_mapNumbers_iff

theorem ImmediateCommand.canonical_mapNumbers_iff (c : ImmediateCommand) :
    (c.mapNumbers f).canonical = c.canonical ↔
      c.mapNumbers (fun n => (f n).canonical) = c.mapNumbers Number.canonical := by
  simp only [mapNumbers, canonical, mk.injEq, true_and]
  exact and_congr (Arguments.canonical_mapNumbers_iff _) c.annotations.canonical_mapNumbers_iff

theorem Request.canonical_mapNumbers_iff (r : Request) :
    (r.mapNumbers f).canonical = r.canonical ↔
      r.mapNumbers (fun n => (f n).canonical) = r.mapNumbers Number.canonical := by
  simp only [mapNumbers, canonical, mk.injEq, true_and, List.map_map, Function.comp_def]
  exact and_congr (map_eq_map_iff (fun x => Step.canonical_mapNumbers_iff x) _)
    r.annotations.canonical_mapNumbers_iff

/-- A function keeps a sequence the same up to equivalence exactly when it keeps the canonical form
of every number of it. -/
theorem Sequence.canonical_mapNumbers_iff (s : Sequence) :
    (s.mapNumbers f).canonical = s.canonical ↔
      s.mapNumbers (fun n => (f n).canonical) = s.mapNumbers Number.canonical := by
  obtain ⟨id, metadata, locals, parameters, hardware, immediate, steps, requests⟩ := s
  simp only [mapNumbers, canonical, mk.injEq, true_and, Option.map_map, Function.comp_def,
    List.map_map]
  exact and_congr (Members.canonical_mapNumbers_iff _) (and_congr
    (map_map_eq_map_map_iff (fun v => Variable.canonical_mapNumbers_iff v) _) (and_congr
    (map_map_eq_map_map_iff (fun v => Variable.canonical_mapNumbers_iff v) _) (and_congr
    (map_map_eq_map_map_iff (fun c => HardwareCommand.canonical_mapNumbers_iff c) _) (and_congr
    (map_map_eq_map_map_iff (fun c => ImmediateCommand.canonical_mapNumbers_iff c) _) (and_congr
    (map_map_eq_map_map_iff (fun x => Step.canonical_mapNumbers_iff x) _)
    (map_map_eq_map_map_iff (fun r => Request.canonical_mapNumbers_iff r) _))))))

end SeqScript
