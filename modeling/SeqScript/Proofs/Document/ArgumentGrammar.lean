import Mathlib.Order.Bounds.Defs
import SeqScript.Proofs.Document.ArgumentItems

/-!
# The grammar of arguments

A list of arguments is accepted exactly when every item is of an acceptable shape (`IsItem`), inside
groups as well, and the names are uniform.  The accepted list is written with every bare item
spelled out as an object (`spelled`), and a refused list is refused at the last item of its shortest
prefix that is not accepted.
-/

namespace SeqScript

theorem Arguments.Everywhere.root {p : Arguments → Prop} {a : Arguments} (h : a.Everywhere p) :
    p a := by
  cases a with
  | positional as => exact h.1
  | named es => exact h.1

namespace Document

open Checked

/-! ### The grammar -/

mutual

/-- A value that may stand in a list of arguments. -/
inductive IsItem : Json → Prop
  | string (s : String) : IsItem (.string s)
  | number (n : Number) : IsItem (.number n)
  | bool (b : Bool) : IsItem (.bool b)
  | array {items : List Json} (list : IsArgumentList items) : IsItem (.array items)
  | object {ms : Members} {name : Option String} {type : ArgumentType} {value : Json}
      (keys : ∀ m ∈ ms, m.1 ∈ argumentKeys)
      (hasName : ms.get? "name" = name.map .string)
      (hasType : ms.get? "type" = some (.string type.name))
      (hasValue : ms.get? "value" = some value) (matching : IsValueOf type value) :
      IsItem (.object ms)

/-- A value of the kind that an argument type asks for. -/
inductive IsValueOf : ArgumentType → Json → Prop
  | string (s : String) : IsValueOf .string (.string s)
  | number (n : Number) : IsValueOf .number (.number n)
  | boolean (b : Bool) : IsValueOf .boolean (.bool b)
  | symbol (name : String) : IsValueOf .symbol (.string name)
  | group {items : List Json} (list : IsArgumentList items) : IsValueOf .group (.array items)

inductive IsArgumentList : List Json → Prop
  | intro {items : List Json} (each : ∀ v ∈ items, IsItem v)
      (uniform : Uniform (items.map itemName?)) : IsArgumentList items

end

/-- The object that states a value and its type. -/
def typedObject (type : ArgumentType) (value : Json) : Json :=
  .object [("type", .string type.name), ("value", value)]

mutual

/-- An item with every bare item, itself or inside its groups, written as an object. -/
def spelled : Json → Json
  | .string s => typedObject .string (.string s)
  | .number n => typedObject .number (.number n)
  | .bool b => typedObject .boolean (.bool b)
  | .array items => typedObject .group (.array (spelledItems items))
  | .object ms => .object (spelledMembers (isGroup ms) ms)
  | .null => .null

def spelledItems : List Json → List Json
  | [] => []
  | v :: vs => spelled v :: spelledItems vs

def spelledMembers (group : Bool) : List (String × Json) → List (String × Json)
  | [] => []
  | (key, v) :: ms =>
    (key, if group ∧ key = "value" then spelledValue v else v) :: spelledMembers group ms

def spelledValue : Json → Json
  | .array items => .array (spelledItems items)
  | v => v

end

theorem spelledItems_eq_map (items : List Json) : spelledItems items = items.map spelled := by
  induction items with
  | nil => rfl
  | cons v items ih => rw [spelledItems, ih, List.map_cons]

/-! ### Acceptance -/

theorem isArgumentList_iff {items : List Json} :
    IsArgumentList items ↔ (∀ v ∈ items, IsItem v) ∧ Uniform (items.map itemName?) :=
  ⟨fun ⟨each, uniform⟩ => ⟨each, uniform⟩, fun h => ⟨h.1, h.2⟩⟩

theorem IsArgumentList.of_append {items more : List Json} (h : IsArgumentList (items ++ more)) :
    IsArgumentList items := by
  obtain ⟨each, uniform⟩ := isArgumentList_iff.1 h
  rw [List.map_append] at uniform
  exact ⟨fun v hv => each v (List.mem_append_left _ hv), uniform.of_append⟩

/-- A list is accepted if its items are those of the grammar. -/
theorem exists_readArguments_iff_of_items {items : List Json}
    (each : ∀ v ∈ items, (∃ m, readItem v = .ok m) ↔ IsItem v) :
    (∃ a, readArguments items = .ok a) ↔ IsArgumentList items := by
  rw [exists_readArguments_iff, isArgumentList_iff, forall₂_congr each]

theorem isItem_array_iff {items : List Json} : IsItem (.array items) ↔ IsArgumentList items :=
  ⟨fun | .array list => list, .array⟩

theorem exists_readItem_array_iff {items : List Json} :
    (∃ m, readItem (.array items) = .ok m) ↔ ∃ a, readArguments items = .ok a := by
  constructor
  · rintro ⟨m, read⟩
    obtain ⟨inner, read, -⟩ := readItem_array_eq_ok.1 read
    exact ⟨inner, read⟩
  · rintro ⟨inner, read⟩
    exact ⟨_, readItem_array_eq_ok.2 ⟨inner, read, rfl⟩⟩

/-- A value of a type states an argument of that type. -/
theorem isValueOf_iff {type : ArgumentType} {v : Json}
    (item : (∃ m, readItem v = .ok m) ↔ IsItem v) :
    IsValueOf type v ↔ ∃ a : Argument, a.type = type ∧ StatesArgument v a := by
  constructor
  · intro matching
    cases matching with
    | string s => exact ⟨.literal (.string s), rfl, rfl⟩
    | number n => exact ⟨.literal (.number n), rfl, rfl⟩
    | boolean b => exact ⟨.literal (.boolean b), rfl, rfl⟩
    | symbol name => exact ⟨.symbol name, rfl, rfl⟩
    | @group items list =>
      obtain ⟨inner, read⟩ := exists_readItem_array_iff.1 (item.2 (.array list))
      exact ⟨.group inner, rfl, items, rfl, read⟩
  · rintro ⟨a, rfl, states⟩
    cases a with
    | literal l =>
      obtain rfl : v = writeLiteral l := states
      cases l with
      | string s => exact .string s
      | number n => exact .number n
      | boolean b => exact .boolean b
    | symbol name =>
      obtain rfl : v = .string name := states
      exact .symbol name
    | group inner =>
      obtain ⟨items, rfl, read⟩ := states
      exact .group (isItem_array_iff.1 (item.1 (exists_readItem_array_iff.2 ⟨inner, read⟩)))

/-- The items that are accepted are those of the grammar. -/
theorem exists_readItem_iff (v : Json) : (∃ m, readItem v = .ok m) ↔ IsItem v := by
  induction v using Json.treeInduction with
  | null => exact iff_of_false (fun ⟨_, read⟩ => fail_ne_ok read) nofun
  | bool b => exact iff_of_true ⟨_, rfl⟩ (.bool b)
  | number n => exact iff_of_true ⟨_, rfl⟩ (.number n)
  | string s => exact iff_of_true ⟨_, rfl⟩ (.string s)
  | array items ih =>
    rw [exists_readItem_array_iff, exists_readArguments_iff_of_items ih, isItem_array_iff]
  | object ms ih =>
    -- A group's value is an array, which is an item itself: this is what the induction knows of it.
    have ofValue : ∀ {type v}, Members.get? ms "value" = some v →
        (IsValueOf type v ↔ ∃ a : Argument, a.type = type ∧ StatesArgument v a) :=
      fun found => isValueOf_iff (ih _ (mem_of_lookup_eq_some found))
    constructor
    · rintro ⟨⟨name, a⟩, read⟩
      obtain ⟨keys, hasName, hasType, v, hasValue, states⟩ := readItem_object_eq_ok.1 read
      exact .object keys hasName hasType hasValue ((ofValue hasValue).2 ⟨a, rfl, states⟩)
    · intro item
      cases item with
      | @object _ name type v keys hasName hasType hasValue matching =>
        obtain ⟨a, rfl, states⟩ := (ofValue hasValue).1 matching
        exact ⟨(name, a), readItem_object_eq_ok.2 ⟨keys, hasName, hasType, v, hasValue, states⟩⟩

theorem isOk_readArguments_iff (items : List Json) :
    (∃ a, readArguments items = .ok a) ↔ IsArgumentList items :=
  exists_readArguments_iff_of_items fun v _ => exists_readItem_iff v

/-! ### What is written -/

/-- An item as it is written. -/
def writeItem : Option String × Argument → Json
  | (none, a) => typedObject a.type (writeArgument a)
  | (some name, a) => writeNamedItem (name, a)

theorem writeArguments_eq_map (a : Arguments) : writeArguments a = a.members.map writeItem := by
  cases a with
  | positional as =>
    rw [writeArguments, Arguments.members, List.map_map]
    induction as with
    | nil => rfl
    | cons a as ih => exact congrArg (typedObject a.type (writeArgument a) :: ·) ih
  | named es =>
    rw [writeArguments, writeNamed_eq_map, Arguments.members, List.map_map]
    rfl

theorem mem_iff_lookup {ms : Members} (sorted : (ms.map (·.1)).Pairwise (· < ·)) {key : String}
    {v : Json} : (key, v) ∈ ms ↔ ms.get? key = some v :=
  (lookup_eq_some_iff_mem (sorted.imp String.ne_of_lt)).symm

/-- Members in increasing order are determined by what is found among them. -/
theorem members_eq_of_lookup {ms ns : Members} (hm : (ms.map (·.1)).Pairwise (· < ·))
    (hn : (ns.map (·.1)).Pairwise (· < ·)) (same : ∀ key, ms.get? key = ns.get? key) :
    ms = ns := by
  have order : ∀ {ms : Members}, (ms.map (·.1)).Pairwise (· < ·) →
      ms.Pairwise fun m n => m.1 < n.1 := List.pairwise_map.1
  have distinct : ∀ {ms : Members}, (ms.map (·.1)).Pairwise (· < ·) → ms.Nodup :=
    fun sorted => List.Nodup.of_map _ (sorted.imp String.ne_of_lt)
  refine List.Perm.eq_of_pairwise (fun _ _ _ _ lt gt => absurd gt (String.lt_asymm lt))
    (order hm) (order hn) ?_
  refine (List.perm_ext_iff_of_nodup (distinct hm) (distinct hn)).2 fun ⟨key, v⟩ => ?_
  rw [mem_iff_lookup hm, mem_iff_lookup hn, same]

theorem get?_eq_none_of_keys {keys : List String} {ms : Members} (h : ∀ m ∈ ms, m.1 ∈ keys)
    {key : String} (other : key ∉ keys) : ms.get? key = none := by
  refine List.lookup_eq_none_iff.2 fun m hm => bne_iff_ne.2 ?_
  rintro rfl
  exact other (h m hm)

/-- The members of an object in increasing order are its name, its type and its value. -/
theorem members_eq {ms : Members} {name : Option String} {type v : Json}
    (sorted : (ms.map (·.1)).Pairwise (· < ·)) (keys : ∀ m ∈ ms, m.1 ∈ argumentKeys)
    (hasName : ms.get? "name" = name.map .string) (hasType : ms.get? "type" = some type)
    (hasValue : ms.get? "value" = some v) :
    ms = (name.map fun s => ("name", Json.string s)).toList ++ [("type", type), ("value", v)] := by
  have increasing : ["name", "type", "value"].Pairwise (· < ·) := by decide
  refine members_eq_of_lookup sorted ?_ fun key => ?_
  · cases name with
    | none => exact increasing.of_cons
    | some name => exact increasing
  · by_cases known : key ∈ argumentKeys
    · simp only [argumentKeys, List.mem_cons, List.not_mem_nil, or_false] at known
      rcases known with rfl | rfl | rfl
      · rw [hasName]
        cases name <;> rfl
      · rw [hasType]
        cases name <;> rfl
      · rw [hasValue]
        cases name <;> rfl
    · rw [get?_eq_none_of_keys keys known, get?_eq_none_of_keys ?_ known]
      cases name <;> simp [argumentKeys]

/-- A list is written from its items as they are spelled. -/
theorem writeArguments_of_items {items : List Json} {a : Arguments}
    (read : readArguments items = .ok a)
    (each : ∀ v ∈ items, ∀ m, readItem v = .ok m → writeItem m = spelled v) :
    writeArguments a = items.map spelled := by
  rw [writeArguments_eq_map]
  have members := (members_of_readArguments read).1
  generalize a.members = ms at members ⊢
  clear read
  induction members with
  | nil => rfl
  | cons first _ ih =>
    obtain ⟨here, rest⟩ := List.forall_mem_cons.1 each
    rw [List.map_cons, List.map_cons, here _ first, ih rest]

theorem isGroup_iff {ms : Members} {type : ArgumentType}
    (hasType : ms.get? "type" = some (.string type.name)) : isGroup ms ↔ type = .group := by
  have same : type.name = "repeat" ↔ type = .group :=
    (injective_of_lookup ArgumentType.ofName?_name).eq_iff (b := .group)
  simp [isGroup, hasType, same]

/-- An item of an ordered document is written as it is spelled. -/
theorem writeItem_of_readItem (v : Json) (sorted : v.KeysSorted) :
    ∀ m, readItem v = .ok m → writeItem m = spelled v := by
  induction v using Json.treeInduction with
  | null => exact fun _ read => absurd read fail_ne_ok
  | bool b => exact fun _ read => Except.ok.inj read ▸ rfl
  | number n => exact fun _ read => Except.ok.inj read ▸ rfl
  | string s => exact fun _ read => Except.ok.inj read ▸ rfl
  | array items ih =>
    intro m read
    obtain ⟨inner, list, rfl⟩ := readItem_array_eq_ok.1 read
    have written := writeArguments_of_items list fun v hv =>
      ih v hv (Json.keysSortedItems_iff.1 sorted v hv)
    rw [writeItem, spelled, spelledItems_eq_map, ← written]
    rfl
  | object ms ih =>
    rintro ⟨name, a⟩ read
    obtain ⟨keys, hasName, hasType, v, hasValue, states⟩ := readItem_object_eq_ok.1 read
    have value : (if isGroup ms then spelledValue v else v) = writeArgument a := by
      by_cases group : a.type = .group
      · obtain ⟨inner, rfl⟩ := eq_group_of_type group
        obtain ⟨items, rfl, list⟩ := states
        have mem : ("value", Json.array items) ∈ ms := mem_of_lookup_eq_some hasValue
        have written := ih _ mem (Json.keysSortedMembers_iff.1 sorted.2 _ mem) _
          (readItem_array_eq_ok.2 ⟨inner, list, rfl⟩)
        have same : writeArgument (.group inner) = .array (spelledItems items) := by
          simpa [writeItem, spelled, typedObject, Argument.type] using written
        rw [if_pos ((isGroup_iff hasType).2 rfl), same, spelledValue]
      · rw [if_neg (mt (isGroup_iff hasType).1 group), states.eq_of_leaf group]
    -- In increasing order the keys leave only one list of members.
    have explicit := members_eq sorted.1 keys hasName hasType hasValue
    rw [spelled]
    generalize isGroup ms = group at value ⊢
    subst explicit
    cases name with
    | none => simp [spelledMembers, value, writeItem, typedObject]
    | some name => simp [spelledMembers, value, writeItem, writeNamedItem]

theorem isNamed_iff_members {a : Arguments} (h : a ≠ .named []) :
    a.isNamed ↔ a.members ≠ [] ∧ ∀ n ∈ a.members.map (·.1), n.isSome := by
  rcases a with (_ | ⟨a, as⟩) | (_ | ⟨e, es⟩)
  · exact iff_of_false Bool.false_ne_true fun some => some.1 rfl
  · refine iff_of_false Bool.false_ne_true fun some => ?_
    exact Bool.false_ne_true (some.2 none List.mem_cons_self)
  · exact absurd rfl h
  · rw [Arguments.members, List.forall_mem_map, List.forall_mem_map]
    exact iff_of_true rfl ⟨List.cons_ne_nil _ _, fun _ _ => rfl⟩

theorem isNamed_of_readArguments {items : List Json} {a : Arguments}
    (read : readArguments items = .ok a) :
    a.isNamed ↔ items ≠ [] ∧ ∀ v ∈ items, (itemName? v).isSome := by
  have each := (members_of_readArguments read).1
  have nonempty : a.members ≠ [] ↔ items ≠ [] := by
    rw [ne_eq, ne_eq, ← List.length_eq_zero_iff, ← each.length_eq, List.length_eq_zero_iff]
  rw [isNamed_iff_members (everywhere_readArguments read).root.2, names_of_readItem each,
    List.forall_mem_map, nonempty]

theorem writeArguments_of_readArguments {items : List Json} {a : Arguments}
    (sorted : ∀ v ∈ items, v.KeysSorted) (read : readArguments items = .ok a) :
    writeArguments a = items.map spelled :=
  writeArguments_of_items read fun v hv => writeItem_of_readItem v (sorted v hv)

/-! ### Faults -/

theorem Path.continuation_append (p q : Path) :
    continuation (p ++ q) = continuation p ++ continuation q := by
  induction p with
  | nil => simp [continuation]
  | cons segment p ih =>
    cases segment with
    | field name => simp [continuation, ih, String.append_assoc]
    | index i => simp [continuation, ih, String.append_assoc]

theorem Path.text_append_index (p : Path) (i : Nat) (rest : Path) :
    text (p ++ .index i :: rest) = text p ++ "[" ++ toString i ++ "]" ++ continuation rest := by
  rcases p with _ | ⟨name | j, p⟩
  · simp [text, continuation]
  · simp [text, continuation, continuation_append, String.append_assoc]
  · simp [text, continuation, continuation_append, String.append_assoc]

/-- A list is refused at the last item of its shortest prefix that is not accepted. -/
theorem path_of_readArguments {items : List Json} {e : Located}
    (fault : readArguments items = .error e) :
    ∃ i rest, e.path = .index i :: rest ∧
      IsLeast {k | ¬ IsArgumentList (items.take (k + 1))} i := by
  obtain ⟨before, v, after, rest, rfl, ⟨g, good⟩, bad, path⟩ :=
    readItems_eq_error (map_eq_error.1 fault)
  rw [Nat.zero_add] at path
  have accepted : IsArgumentList before :=
    (isOk_readArguments_iff before).1 ⟨g.arguments, map_eq_ok.2 ⟨g, good, rfl⟩⟩
  refine ⟨before.length, rest, path, fun list => ?_, fun k refused => ?_⟩
  · rw [List.take_length_add_append, List.take_succ_cons, List.take_zero] at list
    obtain ⟨a, read⟩ := (isOk_readArguments_iff _).2 list
    rw [readArguments, bad] at read
    contradiction
  -- A shorter prefix lies within the items before the refused one, which are accepted.
  · by_contra shorter
    have inside : k + 1 ≤ before.length := by omega
    refine refused ?_
    rw [List.take_append_of_le_length inside]
    rw [← List.take_append_drop (k + 1) before] at accepted
    exact accepted.of_append

/-- A list is accepted exactly if it is in the grammar.  Its members are then its items in their
order, written as they are spelled; and a list that is refused is refused at the last item of its
shortest prefix that is not in the grammar, under whatever path it stands. -/
theorem readArguments_outcome (items : List Json) :
    ((∃ a, readArguments items = .ok a) ↔ IsArgumentList items) ∧
    (∀ a, readArguments items = .ok a →
      List.Forall₂ (fun v m => readItem v = .ok m) items a.members ∧
      a.members.map (·.1) = items.map itemName? ∧
      (a.isNamed ↔ items ≠ [] ∧ ∀ v ∈ items, (itemName? v).isSome) ∧
      ((∀ v ∈ items, v.KeysSorted) → writeArguments a = items.map spelled)) ∧
    ∀ e, readArguments items = .error e → ∃ i rest, e.path = .index i :: rest ∧
      IsLeast {k | ¬ IsArgumentList (items.take (k + 1))} i ∧
      ∀ path : Path, (path ++ e.path).text =
        path.text ++ "[" ++ toString i ++ "]" ++ Path.continuation rest := by
  refine ⟨isOk_readArguments_iff items, fun a read => ?_, fun e fault => ?_⟩
  · have each := (members_of_readArguments read).1
    exact ⟨each, names_of_readItem each, isNamed_of_readArguments read,
      fun sorted => writeArguments_of_readArguments sorted read⟩
  · obtain ⟨i, rest, path, least⟩ := path_of_readArguments fault
    refine ⟨i, rest, path, least, fun p => ?_⟩
    rw [path, Path.text_append_index]

/-- A group without types. -/
def bareGroup : Json := .array [.string "low", .array [.bool true]]

def namedSymbol : Json :=
  .object [("name", .string "to"), ("type", .string "symbol"), ("value", .string "low")]

/-- A bare group is spelled out at every depth, and a name behind it is refused. -/
theorem readArguments_outcome_group :
    (∃ a, readArguments [bareGroup] = .ok a ∧
      writeArguments a = [typedObject .group (.array [typedObject .string (.string "low"),
        typedObject .group (.array [typedObject .boolean (.bool true)])])]) ∧
    ∃ e rest, readArguments [bareGroup, namedSymbol] = .error e ∧ e.path = .index 1 :: rest ∧
      IsLeast {k | ¬ IsArgumentList ([bareGroup, namedSymbol].take (k + 1))} 1 := by
  constructor
  · have sorted : ∀ v ∈ [bareGroup], v.KeysSorted := by
      simp [bareGroup, Json.KeysSorted, Json.KeysSortedItems]
    exact ⟨_, rfl, ((readArguments_outcome [bareGroup]).2.1 _ rfl).2.2.2 sorted⟩
  · obtain ⟨i, rest, path, least, -⟩ := (readArguments_outcome [bareGroup, namedSymbol]).2.2 _ rfl
    obtain ⟨rfl, rfl⟩ : 1 = i ∧ [] = rest := by simpa using path
    exact ⟨_, [], rfl, rfl, least⟩

end Document

end SeqScript
