import SeqScript.Proofs.Document.Accepted
import SeqScript.Proofs.Document.ArgumentOrder
import SeqScript.Proofs.Document.Faults
import SeqScript.Proofs.Script.Alike

/-!
# The items of a list of arguments

An object is read as an argument when its keys are known, its name if any is a string, and its value
states an argument of its type (`readItem_object_eq_ok`).  Items are gathered one by one, all of one
form (`Gathered.Holds`), so a list is read exactly when every item is for itself and the names are
uniform (`exists_readArguments_iff`), and its members are the items in their order
(`members_of_readArguments`).
-/

namespace SeqScript.Document

open Checked

/-! ### Names -/

/-- No item has a name, or every item has one and they are distinct. -/
def Uniform (names : List (Option String)) : Prop :=
  (∀ n ∈ names, n = none) ∨ (∀ n ∈ names, n.isSome) ∧ names.Nodup

theorem uniform_nil : Uniform [] := .inl (List.forall_mem_nil _)

theorem Uniform.of_append {names more : List (Option String)} (h : Uniform (names ++ more)) :
    Uniform names := by
  rcases h with unnamed | ⟨named, distinct⟩
  · exact .inl fun n hn => unnamed n (List.mem_append_left _ hn)
  · exact .inr ⟨fun n hn => named n (List.mem_append_left _ hn), distinct.of_append_left⟩

theorem uniform_append_none {names : List (Option String)} :
    Uniform (names ++ [none]) ↔ ∀ n ∈ names, n = none := by
  constructor
  · rintro (unnamed | ⟨named, -⟩)
    · exact fun n hn => unnamed n (List.mem_append_left _ hn)
    · exact absurd (named none (by simp)) (by decide)
  · intro unnamed
    refine .inl fun n hn => ?_
    rcases List.mem_append.1 hn with hn | hn
    · exact unnamed n hn
    · exact List.mem_singleton.1 hn

theorem uniform_append_some {names : List (Option String)} {name : String} :
    Uniform (names ++ [some name]) ↔
      (∀ n ∈ names, n.isSome) ∧ names.Nodup ∧ some name ∉ names := by
  have distinct : (names ++ [some name]).Nodup ↔ names.Nodup ∧ some name ∉ names := by
    rw [List.nodup_append_comm, List.singleton_append, List.nodup_cons, and_comm]
  constructor
  · rintro (unnamed | ⟨named, rest⟩)
    · exact absurd (unnamed (some name) (by simp)) nofun
    · exact ⟨fun n hn => named n (List.mem_append_left _ hn), distinct.1 rest⟩
  · rintro ⟨named, rest⟩
    refine .inr ⟨fun n hn => ?_, distinct.2 rest⟩
    rcases List.mem_append.1 hn with hn | hn
    · exact named n hn
    · rw [List.mem_singleton.1 hn]
      rfl

/-! ### Gathering items -/

namespace Gathered

/-- The items so far are all positional or all named, and are these in their order. -/
structure Holds (g : Gathered) (ms : List (Option String × Argument)) : Prop where
  oneForm : g.positional = [] ∨ g.named = []
  members : g.arguments.members = ms
  uniform : Uniform (ms.map (·.1))

variable {g g' : Gathered} {ms : List (Option String × Argument)} {m : Option String × Argument}

theorem members_arguments (h : g.positional = [] ∨ g.named = []) :
    g.arguments.members =
      g.positional.reverse.map (none, ·) ++ g.named.reverse.map fun e => (some e.1, e.2) := by
  unfold arguments
  rcases g with ⟨as, es⟩
  rcases es with _ | ⟨e, es⟩
  · simp [Arguments.members]
  · obtain rfl : as = [] := h.resolve_right (List.cons_ne_nil e es)
    simp [Arguments.members]

theorem holds_empty : Holds {} [] := ⟨.inl rfl, rfl, uniform_nil⟩

theorem Holds.eq_append (h : g.Holds ms) :
    ms = g.positional.reverse.map (none, ·) ++ g.named.reverse.map fun e => (some e.1, e.2) :=
  h.members.symm.trans (members_arguments h.oneForm)

theorem Holds.unnamed_iff (h : g.Holds ms) :
    (∀ n ∈ ms.map (·.1), n = none) ↔ g.named = [] := by
  rw [h.eq_append, List.map_append, List.forall_mem_append, List.forall_mem_map,
    List.forall_mem_map, List.forall_mem_map, List.forall_mem_map]
  simp [List.eq_nil_iff_forall_not_mem]

theorem Holds.named_iff (h : g.Holds ms) :
    (∀ n ∈ ms.map (·.1), n.isSome) ↔ g.positional = [] := by
  rw [h.eq_append, List.map_append, List.forall_mem_append, List.forall_mem_map,
    List.forall_mem_map, List.forall_mem_map, List.forall_mem_map]
  simp [List.eq_nil_iff_forall_not_mem]

theorem Holds.mem_names_iff (h : g.Holds ms) {name : String} :
    some name ∈ ms.map (·.1) ↔ name ∈ g.named.map (·.1) := by
  rw [h.eq_append]
  simp

/-- An item that is added stands behind the others. -/
theorem Holds.add_eq_ok (h : g.Holds ms) (added : g.add m = .ok g') : g'.Holds (ms ++ [m]) := by
  obtain ⟨name?, a⟩ := m
  -- A positional item was added behind no names, and a new name behind no positional items.
  rcases name? with _ | name
  · obtain ⟨named, rfl⟩ := add_none_eq_ok.1 added
    refine ⟨.inr named, ?_, ?_⟩
    · rw [members_arguments]
      · simp [h.eq_append, named]
      · exact .inr named
    · rw [List.map_append]
      exact uniform_append_none.2 (h.unnamed_iff.2 named)
  · obtain ⟨fresh, positional, rfl⟩ := add_some_eq_ok.1 added
    have named := h.named_iff.2 positional
    refine ⟨.inl positional, ?_, ?_⟩
    · rw [members_arguments]
      · simp [h.eq_append, positional]
      · exact .inl positional
    · rw [List.map_append]
      refine uniform_append_some.2 ⟨named, ?_, mt h.mem_names_iff.1 fresh⟩
      rcases h.uniform with unnamed | ⟨-, distinct⟩
      · simp [h.eq_append, positional, h.unnamed_iff.1 unnamed]
      · exact distinct

/-- An item is refused only for its name. -/
theorem Holds.exists_add (h : g.Holds ms) (uniform : Uniform ((ms ++ [m]).map (·.1))) :
    ∃ g', g.add m = .ok g' := by
  obtain ⟨name?, a⟩ := m
  rw [List.map_append] at uniform
  rcases g with ⟨as, es⟩
  rcases name? with _ | name
  · obtain rfl : es = [] := h.unnamed_iff.1 (uniform_append_none.1 uniform)
    exact ⟨_, rfl⟩
  · obtain ⟨named, -, fresh⟩ := uniform_append_some.1 uniform
    obtain rfl : as = [] := h.named_iff.1 named
    exact ⟨_, add_named (mt h.mem_names_iff.2 fresh)⟩

end Gathered

/-! ### Lists of items -/

section

open Gathered

variable {g g' : Gathered} {ms : List (Option String × Argument)} {vs ws : List Json} {i : Nat}

/-- The items are gathered in their order, each as it is read for itself. -/
theorem Gathered.Holds.readItems_eq_ok (h : g.Holds ms) (read : readItems i g vs = .ok g') :
    ∃ items, List.Forall₂ (fun v m => readItem v = .ok m) vs items ∧ g'.Holds (ms ++ items) := by
  induction vs generalizing i g ms with
  | nil =>
    obtain rfl := Except.ok.inj read
    exact ⟨[], .nil, (List.append_nil ms).symm ▸ h⟩
  | cons v vs ih =>
    obtain ⟨m, next, first, added, rest⟩ := readItems_cons_eq_ok.1 read
    obtain ⟨items, each, held⟩ := ih (h.add_eq_ok added) rest
    rw [List.append_assoc] at held
    exact ⟨m :: items, .cons first each, held⟩

theorem Gathered.Holds.exists_readItems {items : List (Option String × Argument)}
    (h : g.Holds ms) (each : List.Forall₂ (fun v m => readItem v = .ok m) vs items)
    (uniform : Uniform ((ms ++ items).map (·.1))) : ∃ g', readItems i g vs = .ok g' := by
  induction each generalizing i g ms with
  | nil => exact ⟨g, rfl⟩
  | @cons v m vs items first _ ih =>
    rw [← List.singleton_append, ← List.append_assoc] at uniform
    have here : Uniform ((ms ++ [m]).map (·.1)) := by
      rw [List.map_append] at uniform
      exact uniform.of_append
    obtain ⟨next, added⟩ := h.exists_add here
    obtain ⟨g', read⟩ := ih (i := i + 1) (h.add_eq_ok added) uniform
    exact ⟨g', readItems_cons_eq_ok.2 ⟨m, next, first, added, read⟩⟩

/-- A list is refused at the first item up to which it is refused. -/
theorem readItems_eq_error {e : Located} (fault : readItems i g vs = .error e) :
    ∃ before v after rest, vs = before ++ v :: after ∧
      (∃ g', readItems i g before = .ok g') ∧
      readItems i g (before ++ [v]) = .error e ∧ e.path = .index (i + before.length) :: rest := by
  induction vs generalizing i g with
  | nil => contradiction
  | cons v vs ih =>
    rw [readItems] at fault
    rcases bind_eq_error.1 fault with first | ⟨m, first, fault⟩
    · obtain ⟨inner, -, rfl⟩ := under_eq_error.1 first
      refine ⟨[], v, vs, inner.path, rfl, ⟨g, rfl⟩, ?_, rfl⟩
      rw [List.nil_append, readItems, first]
      rfl
    · rcases bind_eq_error.1 fault with added | ⟨next, added, fault⟩
      · obtain ⟨inner, -, rfl⟩ := under_eq_error.1 added
        refine ⟨[], v, vs, inner.path, rfl, ⟨g, rfl⟩, ?_, rfl⟩
        rw [List.nil_append, readItems, first, ok_bind, added]
        rfl
      · obtain ⟨before, w, after, rest, rfl, ⟨g', good⟩, bad, path⟩ := ih fault
        refine ⟨v :: before, w, after, rest, rfl, ⟨g', ?_⟩, ?_, ?_⟩
        · rw [readItems, first, ok_bind, added, ok_bind, good]
        · rw [List.cons_append, readItems, first, ok_bind, added, ok_bind, bad]
        · rw [path, List.length_cons, Nat.add_right_comm, Nat.add_assoc]

end

/-! ### Single items -/

theorem checkKeys_eq_ok {ms : Members} :
    checkKeys ms = .ok () ↔ ∀ m ∈ ms, m.1 ∈ argumentKeys := by
  unfold checkKeys
  split
  · rename_i m found
    refine iff_of_false fail_ne_ok fun known => ?_
    have unknown := List.find?_some found
    simp [known _ (List.mem_of_find?_eq_some found)] at unknown
  · rename_i none
    refine iff_of_true rfl fun m hm => ?_
    simpa using List.find?_eq_none.1 none m hm

theorem argumentName_eq_ok {ms : Members} {name : Option String} :
    argumentName ms = .ok name ↔ ms.get? "name" = name.map .string := by
  unfold argumentName
  split
  · rename_i found
    cases name <;> simp [found]
  · rename_i v text found
    refine iff_of_false failIn_ne_ok fun same => ?_
    rw [found] at same
    obtain ⟨s, -, rfl⟩ := Option.map_eq_some_iff.1 same.symm
    exact text s rfl
  · rename_i found
    cases name <;> simp [found]

theorem itemName?_object {ms : Members} {name : Option String}
    (hasName : ms.get? "name" = name.map .string) : itemName? (.object ms) = name := by
  unfold itemName?
  cases name <;> simp [hasName]

theorem name_eq_of_ofName? {name : String} {type : ArgumentType}
    (found : ArgumentType.ofName? name = some type) : name = type.name := by
  have same := List.find?_some (p := fun t : ArgumentType => t.name == name) found
  exact (eq_of_beq same).symm

/-- The value states an argument: itself, or a list that is read as the arguments of a group. -/
def StatesArgument (v : Json) : Argument → Prop
  | .group inner => ∃ items, v = .array items ∧ readArguments items = .ok inner
  | a => v = writeArgument a

theorem StatesArgument.eq_of_leaf {v : Json} {a : Argument} (h : StatesArgument v a)
    (leaf : a.type ≠ .group) : v = writeArgument a := by
  cases a with
  | literal l => exact h
  | symbol name => exact h
  | group inner => exact absurd rfl leaf

theorem leafArgument?_eq_some {type : ArgumentType} {v : Json} {a : Argument} :
    leafArgument? type v = some a ↔ type = a.type ∧ type ≠ .group ∧ StatesArgument v a := by
  constructor
  · intro found
    unfold leafArgument? at found
    split at found
    · exact Option.some.inj found ▸ ⟨rfl, nofun, rfl⟩
    · exact Option.some.inj found ▸ ⟨rfl, nofun, rfl⟩
    · exact Option.some.inj found ▸ ⟨rfl, nofun, rfl⟩
    · exact Option.some.inj found ▸ ⟨rfl, nofun, rfl⟩
    · contradiction
  · rintro ⟨rfl, single, states⟩
    cases a with
    | literal l =>
      obtain rfl : v = writeLiteral l := states
      exact leafArgument?_literal l
    | symbol name =>
      obtain rfl : v = .string name := states
      rfl
    | group inner => exact absurd rfl single

theorem readValueMember_eq (ms : Members) :
    readValueMember ms = (ms.get? "value").bind readGroup? := by
  induction ms with
  | nil => rfl
  | cons m ms ih =>
    obtain ⟨key, v⟩ := m
    rw [readValueMember, Members.get?, List.lookup_cons]
    split_ifs with isValue
    · rw [isValue]
      rfl
    · rw [beq_false_of_ne (Ne.symm isValue)]
      exact ih

theorem typeName_eq_ok {ms : Members} {name : String} :
    typeName ms = .ok name ↔ ms.get? "type" = some (.string name) := by
  unfold typeName
  split
  · rename_i found
    simp [found]
  · rename_i v text found
    exact iff_of_false failIn_ne_ok fun same =>
      text name (Option.some.inj (found.symm.trans same))
  · rename_i found
    exact iff_of_false failIn_ne_ok fun same => nomatch found.symm.trans same

theorem argumentValue_eq_ok {ms : Members} {v : Json} :
    argumentValue ms = .ok v ↔ ms.get? "value" = some v := by
  unfold argumentValue
  split
  · rename_i found
    simp [found]
  · rename_i found
    exact iff_of_false failIn_ne_ok fun same => nomatch found.symm.trans same

theorem readGroup?_eq_some {v : Json} {inner : Arguments} :
    readGroup? v = some (.ok inner) ↔ StatesArgument v (.group inner) := by
  constructor
  · intro read
    unfold readGroup? at read
    split at read
    · exact ⟨_, rfl, Option.some.inj read⟩
    · contradiction
  · rintro ⟨items, rfl, read⟩
    exact congrArg some read

theorem eq_group_of_type {a : Argument} (h : a.type = .group) : ∃ inner, a = .group inner := by
  cases a with
  | literal l => cases l <;> contradiction
  | symbol name => contradiction
  | group inner => exact ⟨inner, rfl⟩

theorem typedArgument_eq_ok {ms : Members} {a : Argument} :
    typedArgument ms (fun _ => readValueMember ms) = .ok a ↔
      ms.get? "type" = some (.string a.type.name) ∧
        ∃ v, ms.get? "value" = some v ∧ StatesArgument v a := by
  constructor
  · intro read
    unfold typedArgument at read
    obtain ⟨name, hasType, read⟩ := bind_eq_ok.1 read
    obtain ⟨v, hasValue, read⟩ := bind_eq_ok.1 read
    rw [typeName_eq_ok] at hasType
    rw [argumentValue_eq_ok] at hasValue
    split at read
    · exact absurd read failIn_ne_ok
    · rename_i found
      rw [readValueMember_eq, hasValue] at read
      split at read
      · rename_i group made
        obtain ⟨inner, ok, rfl⟩ := map_eq_ok.1 read
        rw [under_eq_ok.1 ok] at made
        exact ⟨name_eq_of_ofName? found ▸ hasType, v, hasValue, readGroup?_eq_some.1 made⟩
      · exact absurd read failIn_ne_ok
    · rename_i type _ found
      split at read
      · rename_i leaf
        obtain rfl := Except.ok.inj read
        obtain ⟨rfl, -, states⟩ := leafArgument?_eq_some.1 leaf
        exact ⟨name_eq_of_ofName? found ▸ hasType, v, hasValue, states⟩
      · exact absurd read failIn_ne_ok
  · rintro ⟨hasType, v, hasValue, states⟩
    by_cases group : a.type = .group
    · obtain ⟨inner, rfl⟩ := eq_group_of_type group
      refine typedArgument_group hasType hasValue ?_
      rw [readValueMember_eq, hasValue]
      exact readGroup?_eq_some.2 states
    · have leaf := leafArgument?_eq_some.2 ⟨rfl, group, states⟩
      exact typedArgument_leaf hasType hasValue leaf group

/-- What makes an object an item. -/
theorem readItem_object_eq_ok {ms : Members} {name : Option String} {a : Argument} :
    readItem (.object ms) = .ok (name, a) ↔
      (∀ m ∈ ms, m.1 ∈ argumentKeys) ∧ ms.get? "name" = name.map .string ∧
        ms.get? "type" = some (.string a.type.name) ∧
          ∃ v, ms.get? "value" = some v ∧ StatesArgument v a := by
  rw [← checkKeys_eq_ok, ← argumentName_eq_ok, ← typedArgument_eq_ok, readItem_object,
    and_comm (a := argumentName ms = _)]

theorem readItem_array_eq_ok {items : List Json} {m : Option String × Argument} :
    readItem (.array items) = .ok m ↔
      ∃ inner, readArguments items = .ok inner ∧ m = (none, .group inner) := by
  constructor
  · intro read
    unfold readItem at read
    obtain ⟨g, gathered, made⟩ := bind_eq_ok.1 read
    exact ⟨g.arguments, map_eq_ok.2 ⟨g, gathered, rfl⟩, (Except.ok.inj made).symm⟩
  · rintro ⟨inner, read, rfl⟩
    obtain ⟨g, gathered, rfl⟩ := map_eq_ok.1 read
    rw [readItem, gathered]
    rfl

/-- An item has the name that it carries. -/
theorem name_of_readItem {v : Json} {m : Option String × Argument} (read : readItem v = .ok m) :
    m.1 = itemName? v := by
  cases v with
  | object ms => exact (itemName?_object (readItem_object_eq_ok.1 read).2.1).symm
  | array items =>
    obtain ⟨inner, -, rfl⟩ := readItem_array_eq_ok.1 read
    rfl
  | string s => exact Except.ok.inj read ▸ rfl
  | number n => exact Except.ok.inj read ▸ rfl
  | bool b => exact Except.ok.inj read ▸ rfl
  | null => exact absurd read fail_ne_ok

theorem names_of_readItem {vs : List Json} {items : List (Option String × Argument)}
    (each : List.Forall₂ (fun v m => readItem v = .ok m) vs items) :
    items.map (·.1) = vs.map itemName? := by
  induction each with
  | nil => rfl
  | cons first _ ih => rw [List.map_cons, List.map_cons, name_of_readItem first, ih]

/-! ### Whole lists -/

/-- The members of a list that is read are its items, each read for itself. -/
theorem members_of_readArguments {items : List Json} {a : Arguments}
    (read : readArguments items = .ok a) :
    List.Forall₂ (fun v m => readItem v = .ok m) items a.members ∧
      Uniform (items.map itemName?) := by
  obtain ⟨g, gathered, rfl⟩ := map_eq_ok.1 read
  obtain ⟨ms, each, held⟩ := Gathered.holds_empty.readItems_eq_ok gathered
  rw [List.nil_append] at held
  rw [held.members, ← names_of_readItem each]
  exact ⟨each, held.uniform⟩

theorem exists_forall₂_iff {α β : Type} {R : α → β → Prop} {as : List α} :
    (∃ bs, List.Forall₂ R as bs) ↔ ∀ a ∈ as, ∃ b, R a b := by
  induction as with
  | nil => exact iff_of_true ⟨[], .nil⟩ (List.forall_mem_nil _)
  | cons a as ih =>
    rw [List.forall_mem_cons, ← ih]
    constructor
    · rintro ⟨_, _ | ⟨first, rest⟩⟩
      exact ⟨⟨_, first⟩, _, rest⟩
    · rintro ⟨⟨b, first⟩, bs, rest⟩
      exact ⟨b :: bs, .cons first rest⟩

theorem exists_readArguments_iff {items : List Json} : (∃ a, readArguments items = .ok a) ↔
    (∀ v ∈ items, ∃ m, readItem v = .ok m) ∧ Uniform (items.map itemName?) := by
  constructor
  · rintro ⟨a, read⟩
    obtain ⟨each, uniform⟩ := members_of_readArguments read
    exact ⟨exists_forall₂_iff.1 ⟨_, each⟩, uniform⟩
  · rintro ⟨each, uniform⟩
    obtain ⟨ms, read⟩ := exists_forall₂_iff.2 each
    rw [← names_of_readItem read] at uniform
    obtain ⟨g, gathered⟩ := Gathered.holds_empty.exists_readItems read uniform
    exact ⟨g.arguments, map_eq_ok.2 ⟨g, gathered, rfl⟩⟩

end SeqScript.Document
