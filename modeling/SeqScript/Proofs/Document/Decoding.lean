import SeqScript.Document.Writer
import SeqScript.Proofs.Keyed

/-!
# Decoding written records

Every member that is written has a fixed name and a value that may be absent (`field`).  A record
is read back when each of its fields yields what was meant from the value that was written for it
(`RecordField.Yields`), whatever the other members are (`Record.decode_object`).
-/

namespace SeqScript.Document

/-! ### Outcomes -/

theorem ok_bind {ε α β : Type} (a : α) (f : α → Except ε β) : Except.ok a >>= f = f a := rfl

theorem bind_eq_ok {ε α β : Type} {x : Except ε α} {f : α → Except ε β} {b : β} :
    x >>= f = .ok b ↔ ∃ a, x = .ok a ∧ f a = .ok b := by
  rcases x with e | a
  · simp [bind, Except.bind]
  · simp [bind, Except.bind]

theorem map_eq_ok {ε α β : Type} {x : Except ε α} {f : α → β} {b : β} :
    x.map f = .ok b ↔ ∃ a, x = .ok a ∧ f a = b := by
  rcases x with e | a
  · simp [Except.map]
  · simp [Except.map]

/-! ### Members -/

/-- A member whose value may be absent. -/
def field (name : String) (v : Option Json) : Option (String × Json) := v.map (name, ·)

theorem member_eq_field (name : String) (v : Json) : member name v = field name (some v) := rfl

theorem optionalText_eq_field (name : String) (value : Option String) :
    optionalText name value = field name (value.map .string) := by
  cases value <;> rfl

theorem optionalList_eq_field {α : Type} (name : String) (write : α → Json)
    (items : Option (List α)) :
    optionalList name write items = field name (items.map fun l => .array (l.map write)) := by
  cases items <;> rfl

theorem nonemptyList_eq_field (name : String) (items : List Json) :
    nonemptyList name items = field name (if items.isEmpty then none else some (.array items)) := by
  unfold nonemptyList
  split <;> rfl

theorem nonemptyMap_eq_field (name : String) (members : Members) :
    nonemptyMap name members =
      field name (if members.isEmpty then none else some (.object members)) := by
  unfold nonemptyMap
  split <;> rfl

/-! ### Fields -/

namespace RecordField

variable {α : Type}

/-- The field is read as `a` from the value, which may be absent. -/
def Yields (f : RecordField α) (v : Option Json) (a : α) : Prop :=
  match v with
  | some v => f.decode v = .ok a
  | none => f.default? = some a

theorem Yields.accepted {f : RecordField α} {v : Option Json} {a : α} (h : f.Yields v a) :
    v.bind f.check.2 = none := by
  rcases v with _ | v
  · rfl
  · simp only [Yields] at h
    simp only [Option.bind_some, check, mismatch?, h]

theorem yields_optional {β : Type} {name : String} {d : Decoder α} {o : Option β}
    {write : β → Json} {g : β → α} (h : ∀ b ∈ o, d (write b) = .ok (g b))
    (value : ∀ b, write b ≠ .null) : (optional name d).Yields (o.map write) (o.map g) := by
  rcases o with _ | b
  · rfl
  · have inner := h b rfl
    show d.nullable (write b) = .ok (some (g b))
    have := value b
    unfold Decoder.nullable
    split
    · contradiction
    · rw [inner]
      rfl

theorem yields_text (name : String) (o : Option String) :
    (optional name .text).Yields (o.map .string) o := by
  cases o <;> rfl

theorem yields_list (name : String) (items : List Json) :
    (defaulted name .list []).Yields (if items.isEmpty then none else some (.array items))
      items := by
  cases items <;> rfl

theorem yields_map (name : String) (members : Members) :
    (defaulted name .map []).Yields (if members.isEmpty then none else some (.object members))
      members := by
  cases members <;> rfl

end RecordField

/-! ### Records -/

/-- Members by their names; those without a value are left out of an object. -/
abbrev Slots := List (String × Option Json)

namespace Slots

def object (ms : Slots) : Members := present (ms.map fun m => field m.1 m.2)

def value? (ms : Slots) (name : String) : Option Json := (ms.lookup name).join

theorem object_eq (ms : Slots) : ms.object = SeqScript.present ms := List.filterMap_map

/-- A value is found under its name among the members that are there. -/
theorem get?_object {ms : Slots} (distinct : (ms.map (·.1)).Nodup) (name : String) :
    ms.object.get? name = ms.value? name := by
  rw [object_eq]
  exact lookup_present distinct name

/-- The names increase, as the writer has them. -/
def Ordered (ms : Slots) : Prop := (ms.map (·.1)).Pairwise (· < ·)

theorem Ordered.distinct {ms : Slots} (h : ms.Ordered) : (ms.map (·.1)).Nodup := by
  refine List.Pairwise.imp ?_ h
  rintro name _ less rfl
  exact String.lt_irrefl name less

/-- Every field accepts the value in its slot. -/
def Accepted (ms : Slots) (fields : List (String × (Json → Option Mismatch))) : Prop :=
  ∀ f ∈ fields, (ms.value? f.1).bind f.2 = none

theorem accepted_nil (ms : Slots) : ms.Accepted [] := fun _ h => absurd h List.not_mem_nil

variable {α : Type} {ms : Slots}

theorem accepted_cons {f : RecordField α} {a : α} (h : f.Yields (ms.value? f.name) a)
    {fields : List (String × (Json → Option Mismatch))} (rest : ms.Accepted fields) :
    ms.Accepted (f.check :: fields) :=
  List.forall_mem_cons.2 ⟨h.accepted, rest⟩

theorem get_eq {f : RecordField α} {a : α} (distinct : (ms.map (·.1)).Nodup)
    (h : f.Yields (ms.value? f.name) a) : Entries.get ⟨ms.object, .missingField⟩ f = .ok a := by
  unfold Entries.get
  unfold RecordField.Yields at h
  simp only [get?_object distinct]
  cases member : ms.value? f.name with
  | some v =>
    rw [member] at h
    exact h
  | none =>
    rw [member] at h
    simp only [h]

end Slots

namespace Record

/-- Members with distinct names are accepted when each field accepts what it finds. -/
theorem firstMismatch?_eq_none {r : Record} {members : Members}
    (distinct : (members.map (·.1)).Nodup)
    (accepted : ∀ f ∈ r.fields, (members.get? f.1).bind f.2 = none) :
    r.firstMismatch? members = none := by
  unfold firstMismatch?
  rw [List.findSome?_eq_none_iff]
  rintro ⟨name, v⟩ mem
  show (r.fields.lookup name).bind (· v) = none
  rcases found : r.fields.lookup name with _ | check
  · rfl
  · have inMembers : members.get? name = some v := lookup_eq_some_of_mem distinct mem
    have accepts := accepted _ (mem_of_lookup_eq_some found)
    rw [inMembers] at accepts
    exact accepts

/-- A record is read by its fields when each accepts the value in its slot. -/
theorem decode_object {α : Type} {r : Record} {build : Entries → Shaped α} {ms : Slots}
    (distinct : (ms.map (·.1)).Nodup) (accepted : ms.Accepted r.fields) :
    r.decode build (.object ms.object) = build ⟨ms.object, .missingField⟩ := by
  have matched : r.firstMismatch? ms.object = none := by
    have kept : (ms.object.map (·.1)).Nodup :=
      distinct.sublist (ms.object_eq ▸ names_present_sublist ms)
    refine firstMismatch?_eq_none kept fun f hf => ?_
    rw [Slots.get?_object distinct]
    exact accepted f hf
  simp only [decode, entries, matched, checkLength, Except.map]
  rcases build ⟨_, .missingField⟩ with m | a <;> rfl

end Record

end SeqScript.Document
