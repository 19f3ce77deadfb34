import SeqScript.Proofs.Document.Faults
import SeqScript.Proofs.Json.Tree

/-!
# Lists that are put together

The items of the lists that follow the declarations do not depend on each other (`ItemList`).  As a
function of one of these lists, a document without the later lists is read as the lists before it
and then the list, item by item (`read_withValue`).  So a document with two lists put together is
read as the two documents, with the first fault of the two (`read_append`).
-/

namespace SeqScript.Document

open Checked

/-! ### The lists of a sequence -/

/-- The lists that follow the declarations, in the order in which they are read. -/
inductive ItemList where
  | hardwareCommands
  | immediateCommands
  | steps
  | requests

namespace ItemList

abbrev Item : ItemList → Type
  | hardwareCommands => HardwareCommand
  | immediateCommands => ImmediateCommand
  | steps => Step
  | requests => Request

def read : (l : ItemList) → Json → Checked l.Item
  | hardwareCommands => readHardware
  | immediateCommands => readImmediate
  | steps => readStep
  | requests => readRequest

/-- The field that the list stands in. -/
def recordField : ItemList → RecordField (Option (List Json))
  | hardwareCommands => Shape.hardwareField
  | immediateCommands => Shape.immediateField
  | steps => Shape.stepsField
  | requests => Shape.requestsField

def name (l : ItemList) : String := l.recordField.name

/-- The lists that are read after it. -/
def later : ItemList → List ItemList
  | hardwareCommands => [immediateCommands, steps, requests]
  | immediateCommands => [steps, requests]
  | steps => [requests]
  | requests => []

def items : (l : ItemList) → Sequence → Option (List l.Item)
  | hardwareCommands, s => s.hardwareCommands
  | immediateCommands, s => s.immediateCommands
  | steps, s => s.steps
  | requests, s => s.requests

/-- The sequence with another list in place of its own. -/
def replace : (l : ItemList) → Sequence → Option (List l.Item) → Sequence
  | hardwareCommands, s, o => { s with hardwareCommands := o }
  | immediateCommands, s, o => { s with immediateCommands := o }
  | steps, s, o => { s with steps := o }
  | requests, s, o => { s with requests := o }

theorem items_replace (l : ItemList) (s : Sequence) (o : Option (List l.Item)) :
    l.items (l.replace s o) = o := by
  cases l <;> rfl

theorem replace_replace (l : ItemList) (s : Sequence) (o p : Option (List l.Item)) :
    l.replace (l.replace s o) p = l.replace s p := by
  cases l <;> rfl

/-- The values of the list before they are read. -/
def values : ItemList → Shape.Sequence → Option (List Json)
  | hardwareCommands, raw => raw.hardwareCommands
  | immediateCommands, raw => raw.immediateCommands
  | steps, raw => raw.steps
  | requests, raw => raw.requests

def replaceValues : ItemList → Shape.Sequence → Option (List Json) → Shape.Sequence
  | hardwareCommands, raw, o => { raw with hardwareCommands := o }
  | immediateCommands, raw, o => { raw with immediateCommands := o }
  | steps, raw, o => { raw with steps := o }
  | requests, raw, o => { raw with requests := o }

end ItemList

/-- The document with a value in the field of the list. -/
def withValue (ms : Members) (l : ItemList) (v : Json) : Json := .object (Keyed.insert l.name v ms)

/-! ### Decoding -/

theorem get_insert_of_ne {α : Type} {ms : Members} {key : String} {v : Json} {f : RecordField α}
    (h : f.name ≠ key) :
    Entries.get ⟨Keyed.insert key v ms, .missingField⟩ f = Entries.get ⟨ms, .missingField⟩ f := by
  rw [Entries.get, Entries.get, Members.get?, Keyed.lookup_insert_of_ne h, Members.get?]

/-- The values of a list come into the shape as they are, and nothing else depends on them. -/
theorem decode_withValue (ms : Members) (l : ItemList) (vs : List Json) :
    Shape.Sequence.decode (withValue ms l (.array vs)) =
      (Shape.Sequence.decode (withValue ms l .null)).map fun raw =>
        l.replaceValues raw (some vs) := by
  have accepted : Shape.sequenceRecord.firstMismatch? (Keyed.insert l.name (.array vs) ms) =
      Shape.sequenceRecord.firstMismatch? (Keyed.insert l.name .null ms) :=
    Keyed.findSome?_insert (by cases l <;> rfl)
  have list : Entries.get ⟨Keyed.insert l.name (.array vs) ms, .missingField⟩ l.recordField =
      .ok (some vs) := by
    rw [Entries.get, ← ItemList.name, Members.get?, Keyed.lookup_insert_self]
    cases l <;> rfl
  have null : Entries.get ⟨Keyed.insert l.name .null ms, .missingField⟩ l.recordField =
      .ok none := by
    rw [Entries.get, ← ItemList.name, Members.get?, Keyed.lookup_insert_self]
    cases l <;> rfl
  simp only [Shape.Sequence.decode, withValue, Record.decode_members, accepted]
  rcases Shape.sequenceRecord.firstMismatch? (Keyed.insert l.name .null ms) with _ | m
  · cases l <;> simp only [ItemList.recordField] at list null <;>
      simp (disch := decide) only [list, null, get_insert_of_ne, map_bind] <;> rfl
  · rfl

/-! ### Reading -/

theorem readOptional_none {α β : Type} (read : α → Checked β) :
    readOptional read none = .ok none := rfl

/-- The list is read behind everything else if the later lists are absent. -/
theorem readBody_replaceValues {raw : Shape.Sequence} {d : Declarations} {l : ItemList}
    (absent : ∀ k ∈ l.later, k.values raw = none) (vs : List Json) :
    readBody (l.replaceValues raw (some vs)) d =
      readBody (l.replaceValues raw none) d >>= fun s =>
        (readList l.name l.read vs).map fun as => l.replace s (some as) := by
  cases l with
  | hardwareCommands =>
    have immediate : raw.immediateCommands = none := absent .immediateCommands (.head _)
    have steps : raw.steps = none := absent .steps (.tail _ (.head _))
    have requests : raw.requests = none := absent .requests (.tail _ (.tail _ (.head _)))
    have list : readOptional (readList "hardware_commands" readHardware) (some vs) =
      (readList ItemList.hardwareCommands.name ItemList.hardwareCommands.read vs).map some := rfl
    simp only [readBody, ItemList.replaceValues, immediate, steps, requests, list,
      readOptional_none, ok_bind]
    cases readList ItemList.hardwareCommands.name ItemList.hardwareCommands.read vs <;> rfl
  | immediateCommands =>
    have steps : raw.steps = none := absent .steps (.head _)
    have requests : raw.requests = none := absent .requests (.tail _ (.head _))
    have list : readOptional (readList "immediate_commands" readImmediate) (some vs) =
      (readList ItemList.immediateCommands.name ItemList.immediateCommands.read vs).map some := rfl
    simp only [readBody, ItemList.replaceValues, steps, requests, list, readOptional_none, ok_bind,
      bind_assoc]
    cases readOptional (readList "hardware_commands" readHardware) raw.hardwareCommands
    · rfl
    cases readList ItemList.immediateCommands.name ItemList.immediateCommands.read vs <;> rfl
  | steps =>
    have requests : raw.requests = none := absent .requests (.head _)
    have list : readOptional (readList "steps" readStep) (some vs) =
      (readList ItemList.steps.name ItemList.steps.read vs).map some := rfl
    simp only [readBody, ItemList.replaceValues, requests, list, readOptional_none, ok_bind,
      bind_assoc]
    cases readOptional (readList "hardware_commands" readHardware) raw.hardwareCommands
    · rfl
    cases readOptional (readList "immediate_commands" readImmediate) raw.immediateCommands
    · rfl
    cases readList ItemList.steps.name ItemList.steps.read vs <;> rfl
  | requests =>
    have list : readOptional (readList "requests" readRequest) (some vs) =
      (readList ItemList.requests.name ItemList.requests.read vs).map some := rfl
    simp only [readBody, ItemList.replaceValues, list, readOptional_none, ok_bind, bind_assoc]
    cases readOptional (readList "hardware_commands" readHardware) raw.hardwareCommands
    · rfl
    cases readOptional (readList "immediate_commands" readImmediate) raw.immediateCommands
    · rfl
    cases readOptional (readList "steps" readStep) raw.steps
    · rfl
    cases readList ItemList.requests.name ItemList.requests.read vs <;> rfl

/-- The values of every list are what its field decodes to. -/
theorem get_of_decode {ms : Members} {raw : Shape.Sequence}
    (h : Shape.Sequence.decode (.object ms) = .ok raw) (l : ItemList) :
    Entries.get ⟨ms, .missingField⟩ l.recordField = .ok (l.values raw) := by
  obtain ⟨_, ⟨⟩, fields⟩ := sequenceFields_of_decode h
  cases l with
  | hardwareCommands => exact fields.hardwareCommands
  | immediateCommands => exact fields.immediateCommands
  | steps => exact fields.steps
  | requests => exact fields.requests

/-- A list is absent if its field is `null` or is not there. -/
theorem values_eq_none {ms : Members} {raw : Shape.Sequence}
    (h : Shape.Sequence.decode (.object ms) = .ok raw) {l : ItemList}
    (absent : (ms.get? l.name).getD .null = .null) : l.values raw = none := by
  have found := get_of_decode h l
  rw [Entries.get, ← ItemList.name] at found
  rcases there : ms.get? l.name with _ | v
  · simp only [there] at found
    cases l <;> exact (Except.ok.inj found).symm
  · rw [there] at absent
    obtain rfl : v = .null := absent
    simp only [there] at found
    cases l <;> exact (Except.ok.inj found).symm

theorem id_of_readBody {raw : Shape.Sequence} {d : Declarations} {s : Sequence}
    (h : readBody raw d = .ok s) : s.id = raw.id := by
  obtain ⟨_, -, h⟩ := bind_eq_ok.1 h
  obtain ⟨_, -, h⟩ := bind_eq_ok.1 h
  obtain ⟨_, -, h⟩ := bind_eq_ok.1 h
  obtain ⟨_, -, h⟩ := bind_eq_ok.1 h
  rw [← Except.ok.inj h]

namespace ItemList

variable {l k : ItemList} {raw : Shape.Sequence}

theorem name_ne_of_mem_later (h : k ∈ l.later) : k.name ≠ l.name := by
  revert k
  cases l <;> simp only [later, List.forall_mem_cons] <;> decide

theorem replaceValues_eq_self (h : l.values raw = none) : l.replaceValues raw none = raw := by
  cases l <;> simp only [values] at h <;> simp only [replaceValues, ← h]

end ItemList

/-- A document without the later lists is read as the document with `null` in place of the list, and
then the list item by item. -/
theorem read_withValue {ms : Members} {l : ItemList}
    (absent : ∀ k ∈ l.later, (ms.get? k.name).getD .null = .null) (vs : List Json) :
    (read (withValue ms l (.array vs))).value =
      (read (withValue ms l .null)).value >>= fun s => identified (some s.id)
        ((readList l.name l.read vs).map fun as => l.replace s (some as)) := by
  rw [value_read, value_read, decode_withValue]
  rcases shape : Shape.Sequence.decode (withValue ms l .null) with m | raw
  · rfl
  have own : l.values raw = none := by
    refine values_eq_none shape ?_
    rw [Members.get?, Keyed.lookup_insert_self]
    rfl
  have later : ∀ k ∈ l.later, k.values raw = none := by
    intro k mem
    refine values_eq_none shape ?_
    rw [Members.get?, Keyed.lookup_insert_of_ne (ItemList.name_ne_of_mem_later mem)]
    exact absent k mem
  have id : (l.replaceValues raw (some vs)).id = raw.id := by cases l <;> rfl
  have declarations : readDeclarations (l.replaceValues raw (some vs)) = readDeclarations raw := by
    cases l <;> rfl
  simp only [Except.map, id, declarations]
  rcases readDeclarations raw with e | d
  · rfl
  · rw [ok_bind, ok_bind, readBody_replaceValues later, ItemList.replaceValues_eq_self own]
    rcases body : readBody raw d with e | s
    · rfl
    · show identified (some raw.id) _ = identified (some s.id) _
      rw [id_of_readBody body]
      rfl

/-! ### Two lists -/

section

variable {id : Option String} {l : ItemList} {f : List l.Item → Sequence} {vs : List Json}

theorem identified_readList_eq_ok {u : Sequence} :
    identified id ((readList l.name l.read vs).map f) = .ok u ↔
      ∃ as, readFrom l.read 0 vs = .ok as ∧ f as = u := by
  rw [identified_eq_ok, map_eq_ok]
  simp only [readList, inField, under_eq_ok]

theorem identified_readList_eq_error {e : ValidationError} :
    identified id ((readList l.name l.read vs).map f) = .error e ↔
      ∃ inner, readFrom l.read 0 vs = .error inner ∧
        e = ⟨id, .field l.name :: inner.path, inner.fault⟩ := by
  rw [identified_eq_error]
  simp only [map_eq_error, readList, inField, under_eq_error]
  constructor
  · rintro ⟨_, ⟨inner, h, rfl⟩, rfl⟩
    exact ⟨inner, h, rfl⟩
  · rintro ⟨inner, h, rfl⟩
    exact ⟨_, ⟨inner, h, rfl⟩, rfl⟩

end

/-- Of three documents that differ in one list, behind which no list follows, the one whose list is
put together from those of the others is accepted exactly when they are, and its items are theirs.
It is refused with the fault of the first, or else with that of the second, whose index counts the
items of the first. -/
theorem read_append {ms : Members} {l : ItemList}
    (absent : ∀ k ∈ l.later, (ms.get? k.name).getD .null = .null) (vs ws : List Json) :
    ((∃ u, (read (withValue ms l (.array (vs ++ ws)))).value = .ok u) ↔
      (∃ s, (read (withValue ms l (.array vs))).value = .ok s) ∧
        ∃ t, (read (withValue ms l (.array ws))).value = .ok t) ∧
    (∀ s t u, (read (withValue ms l (.array vs))).value = .ok s →
      (read (withValue ms l (.array ws))).value = .ok t →
      (read (withValue ms l (.array (vs ++ ws)))).value = .ok u →
      (∃ as bs, l.items s = some as ∧ l.items t = some bs ∧ l.items u = some (as ++ bs)) ∧
        l.replace s none = l.replace u none ∧ l.replace t none = l.replace u none) ∧
    (∀ e, (read (withValue ms l (.array vs))).value = .error e →
      (read (withValue ms l (.array (vs ++ ws)))).value = .error e) ∧
    ∀ s e, (read (withValue ms l (.array vs))).value = .ok s →
      (read (withValue ms l (.array ws))).value = .error e →
      ∃ j rest, j < ws.length ∧ e.path = .field l.name :: .index j :: rest ∧
        (read (withValue ms l (.array (vs ++ ws)))).value =
          .error { e with path := .field l.name :: .index (vs.length + j) :: rest } := by
  simp only [read_withValue absent]
  -- What stands in front of the list decides for all three documents alike.
  rcases (read (withValue ms l .null)).value with e | s
  · exact ⟨⟨fun ⟨_, h⟩ => (nomatch h), fun ⟨⟨_, h⟩, _⟩ => (nomatch h)⟩,
      fun _ _ _ h => (nomatch h), fun _ h => h, fun _ _ h => (nomatch h)⟩
  simp only [ok_bind, identified_readList_eq_ok, identified_readList_eq_error,
    readFrom_append_eq_ok]
  refine ⟨⟨?_, ?_⟩, ?_, ?_, ?_⟩
  · rintro ⟨_, _, ⟨as, bs, first, second, rfl⟩, -⟩
    exact ⟨⟨_, as, first, rfl⟩, ⟨_, bs, second, rfl⟩⟩
  · rintro ⟨⟨_, as, first, -⟩, ⟨_, bs, second, -⟩⟩
    exact ⟨_, _, ⟨as, bs, first, second, rfl⟩, rfl⟩
  · rintro _ _ _ ⟨as, first, rfl⟩ ⟨bs, second, rfl⟩ ⟨_, ⟨as', bs', first', second', rfl⟩, rfl⟩
    obtain rfl := Except.ok.inj (first.symm.trans first')
    obtain rfl := Except.ok.inj (second.symm.trans second')
    simp only [l.items_replace, l.replace_replace]
    exact ⟨⟨as, bs, rfl, rfl, rfl⟩, trivial, trivial⟩
  · rintro _ ⟨inner, first, rfl⟩
    exact ⟨inner, readFrom_append_of_error first, rfl⟩
  · rintro _ _ ⟨as, first, rfl⟩ ⟨inner, second, rfl⟩
    obtain ⟨j, rest, bound, path, both⟩ := readFrom_append_of_ok_error first second
    exact ⟨j, rest, bound, congrArg _ path, _, both, rfl⟩

/-- A fault inside a group of the second of two steps, behind a list of one step. -/
theorem read_append_group :
    (∀ k ∈ ItemList.steps.later, (Members.get? [("id", .string "a"), ("metadata", .object [])]
      k.name).getD .null = .null) ∧
    (read (withValue [("id", .string "a"), ("metadata", .object [])] .steps (.array ([
      .object [("stem", .string "A"), ("type", .string "command")]] ++ [
      .object [("stem", .string "B"), ("type", .string "command")],
      .object [("args", .array [.bool true, .array [.object [("type", .string "symbol")]]]),
        ("stem", .string "C"), ("type", .string "command")]])))).value =
      .error ⟨some "a", [.field "steps", .index 2, .field "args", .index 1, .index 0,
        .field "value"], .argumentValueMissing⟩ := by
  have absent : ∀ k ∈ ItemList.steps.later, (Members.get?
      [("id", .string "a"), ("metadata", .object [])] k.name).getD .null = .null :=
    List.forall_mem_singleton.2 rfl
  refine ⟨absent, ?_⟩
  obtain ⟨j, rest, -, path, both⟩ := (read_append absent [
    .object [("stem", .string "A"), ("type", .string "command")]] [
    .object [("stem", .string "B"), ("type", .string "command")],
    .object [("args", .array [.bool true, .array [.object [("type", .string "symbol")]]]),
      ("stem", .string "C"), ("type", .string "command")]]).2.2.2
    { id := "a", steps := some [.command { stem := "A" }] }
    ⟨some "a", [.field "steps", .index 1, .field "args", .index 1, .index 0, .field "value"],
      .argumentValueMissing⟩ rfl rfl
  cases path
  exact both

end SeqScript.Document
