import SeqScript.Proofs.Document.RoundTrip

/-!
# Sequences that are read

The checks of the reader are spread over lists, groups and times, yet together they come to a few
invariants (`Sequence.IsRegular`).  Every sequence that is read has them, and every sequence that
has them is read from some document (`exists_read_iff_isRegular`), so that the reader promises
nothing more.
-/

namespace SeqScript

variable {p q : Arguments → Prop}

/-! ### Collections at every depth -/

mutual

theorem Argument.Everywhere.and :
    ∀ a : Argument, a.Everywhere p → a.Everywhere q → a.Everywhere fun b => p b ∧ q b
  | .literal _, _, _ => trivial
  | .symbol _, _, _ => trivial
  | .group a, ha, hb => Arguments.Everywhere.and a ha hb

theorem Arguments.Everywhere.and :
    ∀ a : Arguments, a.Everywhere p → a.Everywhere q → a.Everywhere fun b => p b ∧ q b
  | .positional items, ha, hb => ⟨⟨ha.1, hb.1⟩, Arguments.EverywhereItems.and items ha.2 hb.2⟩
  | .named items, ha, hb => ⟨⟨ha.1, hb.1⟩, Arguments.EverywhereNamed.and items ha.2 hb.2⟩

theorem Arguments.EverywhereItems.and : ∀ as : List Argument, Arguments.EverywhereItems p as →
    Arguments.EverywhereItems q as → Arguments.EverywhereItems (fun b => p b ∧ q b) as
  | [], _, _ => trivial
  | a :: as, ha, hb =>
    ⟨Argument.Everywhere.and a ha.1 hb.1, Arguments.EverywhereItems.and as ha.2 hb.2⟩

theorem Arguments.EverywhereNamed.and : ∀ as : List (String × Argument),
    Arguments.EverywhereNamed p as → Arguments.EverywhereNamed q as →
      Arguments.EverywhereNamed (fun b => p b ∧ q b) as
  | [], _, _ => trivial
  | (_, a) :: as, ha, hb =>
    ⟨Argument.Everywhere.and a ha.1 hb.1, Arguments.EverywhereNamed.and as ha.2 hb.2⟩

end

/-- Items in order, or at least one item with names of which none is repeated. -/
def Arguments.IsOrderedOrNamed : Arguments → Prop
  | .positional _ => True
  | .named items => items ≠ [] ∧ (items.map (·.1)).Nodup

theorem Arguments.everywhere_isOrderedOrNamed_iff (a : Arguments) :
    a.Everywhere IsOrderedOrNamed ↔ a.NamesDistinct ∧ a.IsSettled := by
  -- Level by level the two conditions are one.
  have parts (b : Arguments) : b.IsOrderedOrNamed ↔ b.names.Nodup ∧ b ≠ named [] := by
    cases b with
    | positional items => exact iff_of_true trivial ⟨List.nodup_nil, nofun⟩
    | named items =>
      rw [Ne, named.injEq]
      exact and_comm
  constructor
  · intro h
    exact ⟨Everywhere.mono (fun b hb => ((parts b).1 hb).1) a h,
      Everywhere.mono (fun b hb => ((parts b).1 hb).2) a h⟩
  · rintro ⟨distinct, settled⟩
    exact Everywhere.mono (fun b => (parts b).2) a (Everywhere.and a distinct settled)

/-! ### Parts of a sequence -/

namespace Sequence

/-- The steps of the sequence and of its requests. -/
def allSteps (s : Sequence) : List Step :=
  s.steps.getD [] ++ (s.requests.getD []).flatMap (·.steps)

/-- The collections of arguments of immediate commands and steps. -/
def collections (s : Sequence) : List Arguments :=
  (s.immediateCommands.getD []).map (·.arguments) ++ s.allSteps.map (·.arguments)

end Sequence

theorem forall_mem_getD {α : Type} {o : Option (List α)} {r : α → Prop} :
    (∀ a ∈ o.getD [], r a) ↔ ∀ as ∈ o, ∀ a ∈ as, r a := by
  cases o <;> simp

namespace Sequence

theorem forall_mem_allSteps {s : Sequence} {r : Step → Prop} :
    (∀ x ∈ s.allSteps, r x) ↔ (∀ xs ∈ s.steps, ∀ x ∈ xs, r x) ∧
      ∀ rs ∈ s.requests, ∀ t ∈ rs, ∀ x ∈ t.steps, r x := by
  rw [allSteps, List.forall_mem_append, forall_mem_getD, List.forall_mem_flatMap, forall_mem_getD]

theorem forall_mem_collections {s : Sequence} {r : Arguments → Prop} :
    (∀ a ∈ s.collections, r a) ↔ (∀ c ∈ s.immediateCommands.getD [], r c.arguments) ∧
      ∀ x ∈ s.allSteps, r x.arguments := by
  rw [collections, List.forall_mem_append, List.forall_mem_map, List.forall_mem_map]

/-- The invariants of a sequence that was read.  An instant lies between the first millisecond of
the year 0000 and the last of the year 9999, and no duration is longer than
`999999:59:59.999`. -/
structure IsRegular (s : Sequence) : Prop where
  localNames : ((s.locals.getD []).map (·.name)).Nodup
  localKinds : ∀ v ∈ s.locals.getD [], v.kind = some .locals
  parameterNames : ((s.parameters.getD []).map (·.name)).Nodup
  parameterKinds : ∀ v ∈ s.parameters.getD [], v.kind = some .parameters
  collections : ∀ a ∈ s.collections, a.Everywhere Arguments.IsOrderedOrNamed
  immediateCommands : ∀ c ∈ s.immediateCommands.getD [],
    c.arguments.isEmpty ∨ c.arguments.isNamed
  instants : ∀ x ∈ s.allSteps, ∀ i, x.timing? = some (.absolute i) →
    -62167219200000 ≤ i.millis.toInt ∧ i.millis.toInt ≤ 253402300799999
  relatives : ∀ x ∈ s.allSteps, ∀ d, x.timing? = some (.relative d) →
    d.millis.toInt.natAbs ≤ 3599999999999
  epochs : ∀ x ∈ s.allSteps, ∀ d, x.timing? = some (.epoch d) →
    d.millis.toInt.natAbs ≤ 3599999999999
  offsets : ∀ x ∈ s.allSteps, ∀ m ∈ x.models, m.offset.millis.toInt.natAbs ≤ 3599999999999

end Sequence

/-! ### Times -/

namespace Step

theorem forall_inRange_iff (x : Step) : (∀ t ∈ x.timing?, t.InRange) ↔
    (∀ i, x.timing? = some (.absolute i) → i.HasFourDigitYear) ∧
    (∀ d, x.timing? = some (.relative d) → d.HasSixDigitHours) ∧
    ∀ d, x.timing? = some (.epoch d) → d.HasSixDigitHours := by
  constructor
  · intro h
    exact ⟨fun i mem => h _ mem, fun d mem => h _ mem, fun d mem => h _ mem⟩
  · rintro ⟨instants, relatives, epochs⟩ t mem
    cases t with
    | absolute i => exact instants i mem
    | relative d => exact relatives d mem
    | epoch d => exact epochs d mem
    | commandComplete => trivial

theorem wellFormed_iff (x : Step) : x.WellFormed ↔ x.arguments.NamesDistinct ∧
    (∀ i, x.timing? = some (.absolute i) →
      -62167219200000 ≤ i.millis.toInt ∧ i.millis.toInt ≤ 253402300799999) ∧
    (∀ d, x.timing? = some (.relative d) → d.millis.toInt.natAbs ≤ 3599999999999) ∧
    (∀ d, x.timing? = some (.epoch d) → d.millis.toInt.natAbs ≤ 3599999999999) ∧
    ∀ m ∈ x.models, m.offset.millis.toInt.natAbs ≤ 3599999999999 := by
  simp only [← Instant.hasFourDigitYear_iff, ← Duration.hasSixDigitHours_iff]
  constructor
  · intro h
    obtain ⟨instants, relatives, epochs⟩ := x.forall_inRange_iff.1 h.timing
    exact ⟨h.arguments, instants, relatives, epochs, h.offsets⟩
  · rintro ⟨arguments, instants, relatives, epochs, offsets⟩
    exact { arguments, offsets, timing := x.forall_inRange_iff.2 ⟨instants, relatives, epochs⟩ }

end Step

/-! ### Sequences -/

theorem declared_iff {kind : VariableKind} (o : Option (List Variable)) :
    (∀ vs ∈ o, Declared kind vs) ↔
      ((o.getD []).map (·.name)).Nodup ∧ ∀ v ∈ o.getD [], v.kind = some kind := by
  rcases o with _ | vs
  · exact iff_of_true nofun ⟨List.nodup_nil, nofun⟩
  · simp only [Option.mem_def, Option.some.injEq, forall_eq', Option.getD_some]
    exact ⟨fun h => ⟨h.names, h.kinds⟩, fun h => ⟨h.1, h.2⟩⟩

namespace Sequence

theorem wellFormed_iff (s : Sequence) : s.WellFormed ↔
    (((s.locals.getD []).map (·.name)).Nodup ∧ ∀ v ∈ s.locals.getD [], v.kind = some .locals) ∧
    (((s.parameters.getD []).map (·.name)).Nodup ∧
      ∀ v ∈ s.parameters.getD [], v.kind = some .parameters) ∧
    (∀ c ∈ s.immediateCommands.getD [], c.WellFormed) ∧ ∀ x ∈ s.allSteps, x.WellFormed := by
  rw [← declared_iff, ← declared_iff, forall_mem_getD, forall_mem_allSteps]
  constructor
  · intro h
    exact ⟨h.locals, h.parameters, h.immediateCommands, h.steps, h.requests⟩
  · rintro ⟨locals, parameters, immediateCommands, steps, requests⟩
    exact { locals, parameters, immediateCommands, steps, requests }

theorem isSettled_iff (s : Sequence) : s.IsSettled ↔ ∀ a ∈ s.collections, a.IsSettled := by
  rw [forall_mem_collections, forall_mem_getD, forall_mem_allSteps]
  constructor
  · intro h
    exact ⟨h.immediateCommands, h.steps, h.requests⟩
  · rintro ⟨immediateCommands, steps, requests⟩
    exact { immediateCommands, steps, requests }

theorem isRegular_iff (s : Sequence) : s.IsRegular ↔ s.WellFormed ∧ s.IsSettled := by
  rw [wellFormed_iff, isSettled_iff]
  constructor
  · intro h
    have tidy : ∀ a ∈ s.collections, a.NamesDistinct ∧ a.IsSettled := fun a mem =>
      a.everywhere_isOrderedOrNamed_iff.1 (h.collections a mem)
    obtain ⟨immediate, steps⟩ := forall_mem_collections.1 fun a mem => (tidy a mem).1
    exact ⟨⟨⟨h.localNames, h.localKinds⟩, ⟨h.parameterNames, h.parameterKinds⟩,
      fun c mem => ⟨immediate c mem, h.immediateCommands c mem⟩,
      fun x mem => x.wellFormed_iff.2 ⟨steps x mem, h.instants x mem, h.relatives x mem,
        h.epochs x mem, h.offsets x mem⟩⟩, fun a mem => (tidy a mem).2⟩
  · rintro ⟨⟨⟨localNames, localKinds⟩, ⟨parameterNames, parameterKinds⟩, immediate, steps⟩, settled⟩
    have distinct : ∀ a ∈ s.collections, a.NamesDistinct := forall_mem_collections.2
      ⟨fun c mem => (immediate c mem).arguments, fun x mem => (steps x mem).arguments⟩
    have times (x : Step) (mem : x ∈ s.allSteps) := (x.wellFormed_iff.1 (steps x mem)).2
    exact {
      localNames, localKinds, parameterNames, parameterKinds
      collections := fun a mem =>
        a.everywhere_isOrderedOrNamed_iff.2 ⟨distinct a mem, settled a mem⟩
      immediateCommands := fun c mem => (immediate c mem).named
      instants := fun x mem => (times x mem).1
      relatives := fun x mem => (times x mem).2.1
      epochs := fun x mem => (times x mem).2.2.1
      offsets := fun x mem => (times x mem).2.2.2 }

end Sequence

/-- The sequences that are read, from documents of whatever spelling, are those with the
invariants. -/
theorem Document.exists_read_iff_isRegular (s : Sequence) :
    (∃ doc, (read doc).value = .ok s) ↔ s.IsRegular := by
  rw [s.isRegular_iff]
  constructor
  · rintro ⟨doc, h⟩
    exact read_spec h
  · rintro ⟨wellFormed, settled⟩
    refine ⟨write s, ?_⟩
    rw [read_write wellFormed, Sequence.settle_eq_self settled]

end SeqScript
