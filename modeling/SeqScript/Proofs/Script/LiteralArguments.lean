import SeqScript.Proofs.Document.ArgumentGrammar
import SeqScript.Proofs.Script.Arguments

/-!
# Literal arguments as an attribute and in a document

The arguments that are chained to a construct are laid out as a list of objects of their names,
types and values.  As long as they are literals, this list is the JSON literal of the list that
they are written as in a document (`argumentsAttribute_eq_json`): a symbol is a path here and a
string there, and a group is untyped here and typed there.
-/

namespace SeqScript

namespace Logged

variable {α β : Type}

theorem each_eq_pure {f : α → Logged β} {g : α → β} {as : List α}
    (h : ∀ a ∈ as, f a = pure (g a)) : each f as = pure (as.map g) := by
  induction as with
  | nil => rfl
  | cons a as ih =>
    obtain ⟨first, rest⟩ := List.forall_mem_cons.1 h
    rw [each, first, ih rest]
    rfl

end Logged

namespace Script

open Context

/-! ### Members without diagnostics -/

section

variable (o p : Options) (level : Nat)

/-- The options only place diagnostics. -/
theorem array_plain {α : Type} (as : List α) (text : α → String) :
    array o level (as.map fun a => .plain (text a)) =
      array p level (as.map fun a => .plain (text a)) := by
  simp only [array, itemLines, List.map_map]
  rfl

theorem object_plain (entries : List (String × String)) :
    object o level (entries.map fun e => (e.1, .plain e.2)) =
      object p level (entries.map fun e => (e.1, .plain e.2)) := by
  simp only [object, memberLines, List.map_map]
  rfl

end

/-! ### Literals -/

theorem json_writeLiteral (level : Nat) (l : Literal) :
    json level (Document.writeLiteral l) = literal l := by
  cases l <;> rfl

/-- The members of a literal in a list of arguments. -/
def literalEntries (name : Option String) (l : Literal) : List (String × String) :=
  name.toList.map (fun n => ("name", quote n)) ++
    [("type", quote l.type.name), ("value", literal l)]

theorem typedArgument_literal (c : Context) (level : Nat) (name : Option String) (l : Literal) :
    c.typedArgument level name (.literal l) = pure (.plain (object c.options level
      ((literalEntries name l).map fun e => (e.1, .plain e.2)))) := by
  cases name <;> rfl

theorem json_writeItem (level : Nat) (name : Option String) (l : Literal) :
    json level (Document.writeItem (name, .literal l)) =
      object {} level ((literalEntries name l).map fun e => (e.1, .plain e.2)) := by
  cases name with
  | none =>
    simp only [Document.writeItem, Document.typedObject, json, jsonMembers, Document.writeArgument,
      json_writeLiteral]
    rfl
  | some name =>
    simp only [Document.writeItem, Document.writeNamedItem, json, jsonMembers,
      Document.writeArgument, json_writeLiteral]
    rfl

theorem typedArguments_literals (c : Context) (level : Nat) {a : Arguments}
    (literals : ∀ m ∈ a.members, ∃ l, m.2 = .literal l) :
    c.typedArguments level a =
      pure ((Document.writeArguments a).map fun v => .plain (json level v)) := by
  have item (m) (h : m ∈ a.members) : c.typedArgument level m.1 m.2 =
      pure (.plain (json level (Document.writeItem m))) := by
    obtain ⟨name, b⟩ := m
    obtain ⟨l, rfl⟩ := literals _ h
    rw [typedArgument_literal, object_plain c.options {}, json_writeItem]
  rw [Document.writeArguments_eq_map, List.map_map]
  cases a with
  | positional as =>
    rw [Arguments.members, List.map_map]
    exact Logged.each_eq_pure fun b hb => item _ (List.mem_map_of_mem hb)
  | named es =>
    rw [Arguments.members, List.map_map]
    exact Logged.each_eq_pure fun e he => item (some e.1, e.2) (List.mem_map_of_mem he)

theorem keysSorted_writeArguments {a : Arguments}
    (literals : ∀ m ∈ a.members, ∃ l, m.2 = .literal l) :
    (Json.array (Document.writeArguments a)).KeysSorted := by
  rw [Json.KeysSorted, Json.keysSortedItems_iff, Document.writeArguments_eq_map]
  refine List.forall_mem_map.2 fun m hm => ?_
  obtain ⟨name, b⟩ := m
  obtain ⟨l, rfl⟩ := literals _ hm
  have value : (Document.writeLiteral l).KeysSorted := by cases l <;> trivial
  cases name with
  | none =>
    have keys : ["type", "value"].Pairwise (· < ·) := by decide
    exact ⟨keys, trivial, value, trivial⟩
  | some name =>
    have keys : ["name", "type", "value"].Pairwise (· < ·) := by decide
    exact ⟨keys, trivial, trivial, value, trivial⟩

/-- Literal arguments are chained as the literal of the list that is written for them, in which the
keys of every object are in their order. -/
theorem argumentsAttribute_eq_json (c : Context) (level : Nat) {a : Arguments}
    (nonempty : 1 ≤ a.count) (literals : ∀ m ∈ a.members, ∃ l, m.2 = .literal l) :
    c.argumentsAttribute level a =
        pure [("ARGUMENTS", json level (.array (Document.writeArguments a)))] ∧
      (Json.array (Document.writeArguments a)).KeysSorted := by
  refine ⟨?_, keysSorted_writeArguments literals⟩
  have filled : ¬ a.isEmpty = true := by
    rw [Arguments.isEmpty, beq_iff_eq]
    omega
  rw [argumentsAttribute, if_neg filled, typedArguments_literals c (level + 1) literals, json,
    jsonItems_eq, array_plain {} c.options]
  rfl

/-- Named literals, of which one name is no identifier and one text closes brackets. -/
def namedLiterals : Arguments := .named [
  ("it's", .literal (.string "\x7d\n],")),
  ("count", .literal (.number (.integer 0 (by decide) (by decide))))]

/-- A list of one level and objects of the next, with diagnostics placed before commas. -/
theorem argumentsAttribute_eq_json_named :
    1 ≤ namedLiterals.count ∧
    (argumentsAttribute { options := { legacyErrorComments := true } } 1 namedLiterals).value =
      [("ARGUMENTS", "[\n    \x7b\n      name: 'it\\'s',\n      type: 'string',\n" ++
        "      value: '\x7d\\n],',\n    \x7d,\n    \x7b\n      name: 'count',\n" ++
        "      type: 'number',\n      value: 0,\n    \x7d,\n  ]")] := by
  have literals : ∀ m ∈ namedLiterals.members, ∃ l, m.2 = .literal l := by
    simp [namedLiterals, Arguments.members]
  refine ⟨by decide, ?_⟩
  rw [(argumentsAttribute_eq_json _ 1 (by decide) literals).1]
  decide +kernel

end Script

end SeqScript
