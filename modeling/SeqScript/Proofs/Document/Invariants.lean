import Mathlib.Data.List.Nodup
import SeqScript.Proofs.Document.Stages

/-!
# What is read is well formed

Every check of the reader leaves its mark on the sequence: the names that were seen stay distinct,
the times were read from texts, and an empty collection of arguments is positional.  So every
sequence that is read is well formed and settled (`wellFormed_of_read`, `isSettled_of_read`).
-/

namespace SeqScript.Document

open Checked

variable {α : Type}

/-! ### Arguments -/

/-- A collection as the reader makes them. -/
def IsTidy (a : Arguments) : Prop := a.names.Nodup ∧ a ≠ .named []

namespace Gathered

/-- The names so far are distinct and the items so far are tidy inside. -/
structure IsTidy (g : Gathered) : Prop where
  names : (g.named.map (·.1)).Nodup
  positional : ∀ a ∈ g.positional, a.Everywhere Document.IsTidy
  named : ∀ e ∈ g.named, e.2.Everywhere Document.IsTidy

theorem isTidy_empty : IsTidy {} := ⟨List.nodup_nil, nofun, nofun⟩

theorem isTidy_add {g g' : Gathered} {item : Option String × Argument} (hg : g.IsTidy)
    (hi : item.2.Everywhere Document.IsTidy) (h : g.add item = .ok g') : g'.IsTidy := by
  obtain ⟨name?, a⟩ := item
  rcases name? with _ | name
  · obtain ⟨-, rfl⟩ := add_none_eq_ok.1 h
    exact ⟨hg.names, List.forall_mem_cons.2 ⟨hi, hg.positional⟩, hg.named⟩
  · obtain ⟨fresh, -, rfl⟩ := add_some_eq_ok.1 h
    exact ⟨List.nodup_cons.2 ⟨fresh, hg.names⟩, hg.positional,
      List.forall_mem_cons.2 ⟨hi, hg.named⟩⟩

theorem isTidy_arguments {g : Gathered} (h : g.IsTidy) :
    g.arguments.Everywhere Document.IsTidy := by
  unfold arguments
  split_ifs with empty
  · refine ⟨⟨List.nodup_nil, nofun⟩, Arguments.everywhereItems_iff.2 fun a ha => ?_⟩
    exact h.positional a (List.mem_reverse.1 ha)
  · refine ⟨⟨?_, ?_⟩, Arguments.everywhereNamed_iff.2 fun e he => ?_⟩
    · show (g.named.reverse.map (·.1)).Nodup
      rw [List.map_reverse, List.nodup_reverse]
      exact h.names
    · intro none
      have reversed := Arguments.named.inj none
      rw [List.reverse_eq_nil_iff] at reversed
      exact empty (List.isEmpty_iff.2 reversed)
    · exact h.named e (List.mem_reverse.1 he)

end Gathered

theorem everywhere_leafArgument? {p : Arguments → Prop} {type : ArgumentType} {v : Json}
    {a : Argument} (h : leafArgument? type v = some a) : a.Everywhere p := by
  unfold leafArgument? at h
  split at h
  · obtain rfl := Option.some.inj h
    trivial
  · obtain rfl := Option.some.inj h
    trivial
  · obtain rfl := Option.some.inj h
    trivial
  · obtain rfl := Option.some.inj h
    trivial
  · contradiction

theorem everywhere_typedArgument {p : Arguments → Prop} {ms : Members}
    {group? : Unit → Option (Checked Arguments)} {a : Argument}
    (hg : ∀ group, group? () = some (.ok group) → group.Everywhere p)
    (h : typedArgument ms group? = .ok a) : a.Everywhere p := by
  unfold typedArgument at h
  obtain ⟨name, -, h⟩ := bind_eq_ok.1 h
  obtain ⟨value, -, h⟩ := bind_eq_ok.1 h
  split at h
  · exact absurd h failIn_ne_ok
  · split at h
    · rename_i group found
      obtain ⟨inner, read, rfl⟩ := map_eq_ok.1 h
      rw [under_eq_ok.1 read] at found
      exact hg inner found
    · exact absurd h failIn_ne_ok
  · split at h
    · rename_i leaf
      obtain rfl := Except.ok.inj h
      exact everywhere_leafArgument? leaf
    · exact absurd h failIn_ne_ok

mutual

theorem everywhere_readItem : ∀ (v : Json) {item : Option String × Argument},
    readItem v = .ok item → item.2.Everywhere IsTidy
  | .object ms, item, h =>
    everywhere_typedArgument (fun _ => everywhere_readValueMember ms) (readItem_object.1 h).2.1
  | .array items, item, h => by
    unfold readItem at h
    obtain ⟨g, read, h⟩ := bind_eq_ok.1 h
    obtain rfl := Except.ok.inj h
    exact Gathered.isTidy_arguments (isTidy_readItems items Gathered.isTidy_empty read)
  | .string s, item, h => by
    obtain rfl := Except.ok.inj h
    trivial
  | .number n, item, h => by
    obtain rfl := Except.ok.inj h
    trivial
  | .bool b, item, h => by
    obtain rfl := Except.ok.inj h
    trivial
  | .null, item, h => absurd h fail_ne_ok

theorem isTidy_readItems : ∀ (vs : List Json) {i : Nat} {g g' : Gathered},
    g.IsTidy → readItems i g vs = .ok g' → g'.IsTidy
  | [], i, g, g', hg, h => by
    obtain rfl := Except.ok.inj h
    exact hg
  | v :: vs, i, g, g', hg, h => by
    obtain ⟨item, next, read, added, rest⟩ := readItems_cons_eq_ok.1 h
    exact isTidy_readItems vs (Gathered.isTidy_add hg (everywhere_readItem v read) added) rest

theorem everywhere_readValueMember : ∀ (ms : List (String × Json)) {group : Arguments},
    readValueMember ms = some (.ok group) → group.Everywhere IsTidy
  | [], group, h => nomatch h
  | (key, v) :: ms, group, h => by
    unfold readValueMember at h
    split_ifs at h
    · exact everywhere_readGroup? v h
    · exact everywhere_readValueMember ms h

theorem everywhere_readGroup? : ∀ (v : Json) {group : Arguments},
    readGroup? v = some (.ok group) → group.Everywhere IsTidy
  | .array items, group, h => by
    unfold readGroup? at h
    obtain ⟨g, read, rfl⟩ := map_eq_ok.1 (Option.some.inj h)
    exact Gathered.isTidy_arguments (isTidy_readItems items Gathered.isTidy_empty read)
  | .object _, group, h => nomatch h
  | .string _, group, h => nomatch h
  | .number _, group, h => nomatch h
  | .bool _, group, h => nomatch h
  | .null, group, h => nomatch h

end

theorem everywhere_readArguments {items : List Json} {a : Arguments}
    (h : readArguments items = .ok a) : a.Everywhere IsTidy := by
  obtain ⟨g, read, rfl⟩ := map_eq_ok.1 h
  exact Gathered.isTidy_arguments (isTidy_readItems items Gathered.isTidy_empty read)

/-- Names of arguments are read distinct, and empty collections positional. -/
theorem argumentsOf_spec {items : List Json} {a : Arguments} (h : argumentsOf items = .ok a) :
    a.NamesDistinct ∧ a.IsSettled := by
  have tidy := everywhere_readArguments (under_eq_ok.1 h)
  exact ⟨Arguments.Everywhere.mono (fun _ h => h.1) a tidy,
    Arguments.Everywhere.mono (fun _ h => h.2) a tidy⟩

/-! ### Times -/

theorem inRange_timing {raw : Shape.Time} {t : Timing} (h : timing raw = .ok t) : t.InRange := by
  unfold timing at h
  split at h
  · obtain ⟨i, read, rfl⟩ := map_eq_ok.1 h
    obtain ⟨tag, -, read⟩ := tagged_eq_ok.1 read
    exact Instant.hasFourDigitYear_of_read read
  · obtain ⟨d, read, rfl⟩ := map_eq_ok.1 h
    obtain ⟨tag, -, read⟩ := tagged_eq_ok.1 read
    exact Duration.hasSixDigitHours_of_read read
  · obtain ⟨d, read, rfl⟩ := map_eq_ok.1 h
    obtain ⟨tag, -, read⟩ := tagged_eq_ok.1 read
    exact Duration.hasSixDigitHours_of_read read
  · obtain rfl := Except.ok.inj h
    trivial
  · exact absurd h failIn_ne_ok

theorem inRange_timingOf {raw : Option Shape.Time} {t : Timing} (h : timingOf raw = .ok t) :
    t.InRange := by
  rcases raw with _ | raw
  · obtain rfl := Except.ok.inj h
    trivial
  · exact inRange_timing (under_eq_ok.1 h)

theorem offset_modelsFrom {raws : List Shape.Model} {i : Nat} {ms : List ModelAssignment}
    (h : modelsFrom i raws = .ok ms) : ∀ m ∈ ms, m.offset.HasSixDigitHours := by
  induction raws generalizing i ms with
  | nil =>
    obtain rfl := Except.ok.inj h
    exact List.forall_mem_nil _
  | cons raw raws ih =>
    obtain ⟨m, rest, first, later, rfl⟩ := modelsFrom_cons_eq_ok.1 h
    have offset := Duration.hasSixDigitHours_of_read (modelOf_eq_ok.1 first).1
    exact List.forall_mem_cons.2 ⟨offset, ih later⟩

/-! ### Steps -/

theorem stepOf_spec {raw : Shape.Step} {x : Step} (h : stepOf raw = .ok x) :
    x.WellFormed ∧ x.arguments.IsSettled := by
  have parts := stepParts_of_stepOf h
  obtain ⟨distinct, settled⟩ := argumentsOf_spec parts.arguments
  refine ⟨⟨distinct, fun t mem => ?_, offset_modelsFrom parts.models⟩, settled⟩
  obtain ⟨time, -, read⟩ := readOptional_eq_some (mem ▸ parts.timing)
  exact inRange_timingOf read

theorem readStep_spec {v : Json} {x : Step} (h : readStep v = .ok x) :
    x.WellFormed ∧ x.arguments.IsSettled := by
  obtain ⟨raw, -, read⟩ := bind_eq_ok.1 h
  exact stepOf_spec read

/-! ### Lists -/

/-- What every item that is read satisfies, the items of a list do. -/
theorem readFrom_forall {read : Json → Checked α} {p : α → Prop} {vs : List Json} {i : Nat}
    {as : List α} (h : ∀ v ∈ vs, ∀ a, read v = .ok a → p a)
    (items : readFrom read i vs = .ok as) : ∀ a ∈ as, p a := by
  induction vs generalizing i as with
  | nil =>
    obtain rfl := Except.ok.inj items
    exact nofun
  | cons v vs ih =>
    obtain ⟨a, rest, first, later, rfl⟩ := readFrom_cons_eq_ok.1 items
    obtain ⟨own, others⟩ := List.forall_mem_cons.1 h
    exact List.forall_mem_cons.2 ⟨own a first, ih others later⟩

theorem readOptional_forall {read : Json → Checked α} {p : α → Prop} {name : String}
    {o : Option (List Json)} {r : Option (List α)}
    (h : ∀ vs ∈ o, ∀ v ∈ vs, ∀ a, read v = .ok a → p a)
    (items : readOptional (readList name read) o = .ok r) : ∀ as ∈ r, ∀ a ∈ as, p a := by
  rintro as rfl
  obtain ⟨vs, given, found⟩ := readOptional_eq_some items
  exact readFrom_forall (h vs given) (under_eq_ok.1 found)

theorem readImmediate_spec {v : Json} {c : ImmediateCommand} (h : readImmediate v = .ok c) :
    c.WellFormed ∧ c.arguments.IsSettled := by
  obtain ⟨raw, -, args, form, -⟩ := readImmediate_eq_ok.1 h
  obtain ⟨distinct, settled⟩ := argumentsOf_spec args
  exact ⟨⟨distinct, form⟩, settled⟩

theorem readRequest_spec {v : Json} {r : Request} (h : readRequest v = .ok r) :
    ∀ x ∈ r.steps, x.WellFormed ∧ x.arguments.IsSettled := by
  obtain ⟨raw, -, -, items, -⟩ := readRequest_eq_ok.1 h
  exact readFrom_forall (fun _ _ _ => readStep_spec) items

/-! ### Declarations -/

theorem readVariable_spec {kind : VariableKind} {seen : List String} {v : Json} {x : Variable}
    (h : readVariable kind seen v = .ok x) : x.name ∉ seen ∧ x.kind = some kind := by
  obtain ⟨raw, -, fresh, -, made⟩ := readVariable_eq_ok.1 h
  rw [← made]
  exact ⟨fresh, rfl⟩

theorem readVariablesFrom_spec {kind : VariableKind} {vs : List Json} {i : Nat}
    {seen : List String} {xs : List Variable} (h : readVariablesFrom kind i seen vs = .ok xs) :
    Declared kind xs ∧ ∀ x ∈ xs, x.name ∉ seen := by
  induction vs generalizing i seen xs with
  | nil =>
    obtain rfl := Except.ok.inj h
    exact ⟨⟨List.nodup_nil, nofun⟩, nofun⟩
  | cons v vs ih =>
    obtain ⟨x, rest, first, later, rfl⟩ := readVariablesFrom_cons_eq_ok.1 h
    obtain ⟨fresh, kinded⟩ := readVariable_spec first
    obtain ⟨declared, others⟩ := ih later
    refine ⟨⟨List.nodup_cons.2 ⟨?_, declared.names⟩,
      List.forall_mem_cons.2 ⟨kinded, declared.kinds⟩⟩, List.forall_mem_cons.2 ⟨fresh, ?_⟩⟩
    · intro again
      obtain ⟨y, hy, same⟩ := List.mem_map.1 again
      exact others y hy (same ▸ List.mem_cons_self)
    · intro y hy mem
      exact others y hy (List.mem_cons_of_mem _ mem)

theorem declared_readVariables {kind : VariableKind} {o : Option (List Json)}
    {r : Option (List Variable)} (h : readOptional (readVariables kind) o = .ok r) :
    ∀ xs ∈ r, Declared kind xs := by
  rintro xs rfl
  obtain ⟨vs, -, found⟩ := readOptional_eq_some h
  exact (readVariablesFrom_spec (under_eq_ok.1 found)).1

/-! ### Sequences -/

theorem read_spec {doc : Json} {s : Sequence} (h : (read doc).value = .ok s) :
    s.WellFormed ∧ s.IsSettled := by
  obtain ⟨raw, -, parts⟩ := value_read_eq_ok.1 h
  have immediates :=
    readOptional_forall (fun _ _ _ _ _ => readImmediate_spec) parts.immediateCommands
  have stepped := readOptional_forall (fun _ _ _ _ _ => readStep_spec) parts.steps
  have requested := readOptional_forall (fun _ _ _ _ _ => readRequest_spec) parts.requests
  constructor
  · exact {
      locals := declared_readVariables parts.locals
      parameters := declared_readVariables parts.parameters
      immediateCommands := fun cs hcs c hc => (immediates cs hcs c hc).1
      steps := fun xs hxs x hx => (stepped xs hxs x hx).1
      requests := fun rs hrs r hr x hx => (requested rs hrs r hr x hx).1 }
  · exact {
      immediateCommands := fun cs hcs c hc => (immediates cs hcs c hc).2
      steps := fun xs hxs x hx => (stepped xs hxs x hx).2
      requests := fun rs hrs r hr x hx => (requested rs hrs r hr x hx).2 }

/-- Every sequence that is read is well formed. -/
theorem wellFormed_of_read {doc : Json} {s : Sequence} (h : (read doc).value = .ok s) :
    s.WellFormed := (read_spec h).1

/-- Every sequence that is read has its empty collections of arguments positional. -/
theorem isSettled_of_read {doc : Json} {s : Sequence} (h : (read doc).value = .ok s) :
    s.IsSettled := (read_spec h).2

end SeqScript.Document
