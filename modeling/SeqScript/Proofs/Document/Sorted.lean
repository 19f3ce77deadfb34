import SeqScript.Proofs.Document.Invariants
import SeqScript.Proofs.Document.Records
import SeqScript.Proofs.Json.Tree

/-!
# Sorted documents

The free metadata of a sequence that is read from a sorted document is sorted
(`isSorted_of_read`), and the document of a sequence with sorted metadata is sorted
(`keysSorted_write`): the writer has the fields of every object in the order of their names.
-/

namespace SeqScript

def Annotations.IsSorted (a : Annotations) : Prop := (Json.object a.metadata).KeysSorted

/-- The keys in the free metadata of the sequence and its parts increase. -/
structure Sequence.IsSorted (s : Sequence) : Prop where
  own : (Json.object s.metadata).KeysSorted
  hardwareCommands : ∀ cs ∈ s.hardwareCommands, ∀ c ∈ cs, c.annotations.IsSorted
  immediateCommands : ∀ cs ∈ s.immediateCommands, ∀ c ∈ cs, c.annotations.IsSorted
  steps : ∀ xs ∈ s.steps, ∀ x ∈ xs, x.annotations.IsSorted
  requests : ∀ rs ∈ s.requests, ∀ r ∈ rs, r.annotations.IsSorted ∧
    ∀ x ∈ r.steps, x.annotations.IsSorted

end SeqScript

namespace SeqScript.Document

open Shape RecordField

variable {α : Type}

/-! ### Reading records -/

def Entries.IsSorted (e : Entries) : Prop := ∀ m ∈ e.members, m.2.KeysSorted

theorem isSorted_entries {r : Record} {v : Json} {e : Entries} (h : v.KeysSorted)
    (read : r.entries v = .ok e) : e.IsSorted := by
  unfold Record.entries at read
  split at read
  · obtain rfl := Except.ok.inj read
    exact Json.keysSortedMembers_iff.1 h.2
  · obtain rfl := Except.ok.inj read
    exact fun m hm => Json.keysSortedItems_iff.1 h m.2 (List.of_mem_zip hm).2
  · contradiction

/-- What a field reads from sorted values, and its default, its value satisfies. -/
theorem get_forall {f : RecordField α} {p : α → Prop} {e : Entries} {a : α} (h : e.IsSorted)
    (read : ∀ v a, v.KeysSorted → f.decode v = .ok a → p a) (default : ∀ a ∈ f.default?, p a)
    (found : e.get f = .ok a) : p a := by
  unfold Entries.get at found
  split at found
  · rename_i v there
    exact read v a (h _ (mem_of_lookup_eq_some there)) found
  · split at found
    · rename_i b given
      obtain rfl := Except.ok.inj found
      exact default b given
    · contradiction

theorem isSorted_metadataField {e : Entries} {ms : Members} (h : e.IsSorted)
    (found : e.get metadataField = .ok ms) : (Json.object ms).KeysSorted := by
  refine get_forall (p := fun ms => (Json.object ms).KeysSorted) h
    (fun v ms sorted read => ?_) ?_ found
  · cases v with
    | object members =>
      obtain rfl := Except.ok.inj read
      exact sorted
    | _ => contradiction
  · rintro _ ⟨⟩
    exact ⟨List.Pairwise.nil, trivial⟩

theorem isSorted_sequenceMetadataField {e : Entries} {ms : Members} (h : e.IsSorted)
    (found : e.get sequenceMetadataField = .ok ms) : (Json.object ms).KeysSorted := by
  refine get_forall (p := fun ms => (Json.object ms).KeysSorted) h
    (fun v ms sorted read => ?_) (fun _ h => absurd h (Option.not_mem_none _)) found
  cases v with
  | object members =>
    obtain rfl := Except.ok.inj read
    exact sorted
  | _ => contradiction

theorem isSorted_requestStepsField {e : Entries} {vs : List Json} (h : e.IsSorted)
    (found : e.get requestStepsField = .ok vs) : ∀ v ∈ vs, v.KeysSorted := by
  refine get_forall (p := fun vs => ∀ v ∈ vs, v.KeysSorted) h
    (fun v vs sorted read => ?_) ?_ found
  · cases v with
    | array items =>
      obtain rfl := Except.ok.inj read
      exact Json.keysSortedItems_iff.1 sorted
    | _ => contradiction
  · rintro _ ⟨⟩
    exact List.forall_mem_nil _

/-- The items of an optional list in a sorted document are sorted. -/
theorem isSorted_list {name : String} {e : Entries} {o : Option (List Json)} (h : e.IsSorted)
    (found : e.get (optional name .list) = .ok o) : ∀ vs ∈ o, ∀ v ∈ vs, v.KeysSorted := by
  refine get_forall (p := fun o => ∀ vs ∈ o, ∀ v ∈ vs, v.KeysSorted) h
    (fun v o sorted read => ?_) ?_ found
  · cases v with
    | null =>
      obtain rfl := Except.ok.inj read
      exact nofun
    | array items =>
      obtain rfl := Except.ok.inj read
      rintro _ ⟨⟩
      exact Json.keysSortedItems_iff.1 sorted
    | _ => contradiction
  · rintro _ ⟨⟩
    exact nofun

/-! ### Reading steps -/

theorem isSorted_decodeBody {tag body : Json} {raw : Shape.Step} (h : body.KeysSorted)
    (read : Shape.Step.decodeBody tag body = .ok raw) :
    (Json.object (stepMetadata raw)).KeysSorted := by
  obtain ⟨r, e, entries, fields⟩ := stepFields_of_decodeBody read
  exact isSorted_metadataField (isSorted_entries h entries) fields.metadata

theorem isSorted_stepDecode {v : Json} {raw : Shape.Step} (h : v.KeysSorted)
    (read : Shape.Step.decode v = .ok raw) : (Json.object (stepMetadata raw)).KeysSorted := by
  unfold Shape.Step.decode at read
  split at read
  · split at read
    · exact isSorted_decodeBody h read
    · contradiction
  · contradiction
  · rename_i fields
    have body : (Json.array fields).KeysSorted := h.2
    exact isSorted_decodeBody body read
  · contradiction

theorem isSorted_readStep {v : Json} {x : SeqScript.Step} (h : v.KeysSorted)
    (read : readStep v = .ok x) : x.annotations.IsSorted := by
  obtain ⟨raw, decoded, read⟩ := bind_eq_ok.1 read
  unfold Annotations.IsSorted
  rw [(stepParts_of_stepOf read).metadata]
  exact isSorted_stepDecode h (shaped_eq_ok.1 decoded)

/-! ### Reading commands without a time and requests -/

theorem isSorted_readHardware {v : Json} {c : SeqScript.HardwareCommand} (h : v.KeysSorted)
    (read : readHardware v = .ok c) : c.annotations.IsSorted := by
  obtain ⟨raw, decoded, read⟩ := bind_eq_ok.1 read
  obtain rfl := Except.ok.inj read
  obtain ⟨e, entries, -, -, metadata⟩ := hardwareFields_of_decode (shaped_eq_ok.1 decoded)
  exact isSorted_metadataField (isSorted_entries h entries) metadata

theorem isSorted_readImmediate {v : Json} {c : SeqScript.ImmediateCommand} (h : v.KeysSorted)
    (read : readImmediate v = .ok c) : c.annotations.IsSorted := by
  obtain ⟨raw, decoded, -, -, made⟩ := readImmediate_eq_ok.1 read
  obtain ⟨e, entries, -, -, -, metadata⟩ := immediateFields_of_decode decoded
  rw [← made]
  exact isSorted_metadataField (isSorted_entries h entries) metadata

theorem isSorted_readRequest {v : Json} {r : SeqScript.Request} (h : v.KeysSorted)
    (read : readRequest v = .ok r) :
    r.annotations.IsSorted ∧ ∀ x ∈ r.steps, x.annotations.IsSorted := by
  obtain ⟨raw, decoded, -, items, made⟩ := readRequest_eq_ok.1 read
  obtain ⟨e, entries, fields⟩ := requestFields_of_decode decoded
  have sorted := isSorted_entries h entries
  have steps := isSorted_requestStepsField sorted fields.steps
  refine ⟨?_, readFrom_forall (fun v hv _ => isSorted_readStep (steps v hv)) items⟩
  rw [← made]
  exact isSorted_metadataField sorted fields.metadata

/-! ### Reading sequences -/

/-- The metadata of a sequence that is read from a sorted document is sorted. -/
theorem isSorted_of_read {doc : Json} {s : SeqScript.Sequence} (h : doc.KeysSorted)
    (found : (read doc).value = .ok s) : s.IsSorted := by
  obtain ⟨raw, decoded, parts⟩ := value_read_eq_ok.1 found
  obtain ⟨e, entries, fields⟩ := sequenceFields_of_decode decoded
  have sorted := isSorted_entries h entries
  have hardware := isSorted_list sorted fields.hardwareCommands
  have immediate := isSorted_list sorted fields.immediateCommands
  have steps := isSorted_list sorted fields.steps
  have requests := isSorted_list sorted fields.requests
  exact {
    own := parts.metadata ▸ isSorted_sequenceMetadataField sorted fields.metadata
    hardwareCommands := readOptional_forall
      (fun vs hvs v hv _ => isSorted_readHardware (hardware vs hvs v hv)) parts.hardwareCommands
    immediateCommands := readOptional_forall
      (fun vs hvs v hv _ => isSorted_readImmediate (immediate vs hvs v hv)) parts.immediateCommands
    steps := readOptional_forall
      (fun vs hvs v hv _ => isSorted_readStep (steps vs hvs v hv)) parts.steps
    requests := readOptional_forall
      (fun vs hvs v hv _ => isSorted_readRequest (requests vs hvs v hv)) parts.requests }

/-! ### Writing -/

theorem mem_object {ms : Slots} {m : String × Json} (h : m ∈ ms.object) :
    (m.1, some m.2) ∈ ms :=
  mem_present.1 (ms.object_eq ▸ h)

/-- The values that are there are sorted, slot by slot. -/
def Slots.ValuesSorted : Slots → Prop
  | [] => True
  | m :: ms => (∀ v ∈ m.2, v.KeysSorted) ∧ ValuesSorted ms

theorem Slots.valuesSorted_iff {ms : Slots} :
    ms.ValuesSorted ↔ ∀ m ∈ ms, ∀ v ∈ m.2, v.KeysSorted := by
  induction ms with
  | nil => exact iff_of_true trivial (List.forall_mem_nil _)
  | cons m ms ih => rw [ValuesSorted, ih, List.forall_mem_cons]

/-- Slots in the order of their names make a sorted object when their values are sorted. -/
theorem keysSorted_object {ms : Slots} (names : ms.Ordered)
    (values : ms.ValuesSorted) : (Json.object ms.object).KeysSorted :=
  ⟨names.sublist (ms.object_eq ▸ names_present_sublist ms),
    Json.keysSortedMembers_iff.2 fun m hm =>
      Slots.valuesSorted_iff.1 values _ (mem_object hm) m.2 rfl⟩

mutual

theorem keysSorted_writeArgument : ∀ a : Argument, (writeArgument a).KeysSorted
  | .literal (.string _) => trivial
  | .literal (.number _) => trivial
  | .literal (.boolean _) => trivial
  | .symbol _ => trivial
  | .group a => keysSorted_writeArguments a

theorem keysSorted_writeArguments : ∀ a : Arguments, Json.KeysSortedItems (writeArguments a)
  | .positional as => keysSorted_writePositional as
  | .named as => keysSorted_writeNamed as

theorem keysSorted_writePositional : ∀ as : List Argument,
    Json.KeysSortedItems (writePositional as)
  | [] => trivial
  | a :: as =>
    ⟨⟨(by decide : ["type", "value"].Pairwise (· < ·)), trivial, keysSorted_writeArgument a,
      trivial⟩, keysSorted_writePositional as⟩

theorem keysSorted_writeNamed : ∀ as : List (String × Argument),
    Json.KeysSortedItems (writeNamed as)
  | [] => trivial
  | (_, a) :: as =>
    ⟨⟨(by decide : ["name", "type", "value"].Pairwise (· < ·)), trivial, trivial,
      keysSorted_writeArgument a, trivial⟩, keysSorted_writeNamed as⟩

end

theorem keysSorted_writeLiteral (l : Literal) : (writeLiteral l).KeysSorted := by
  cases l <;> trivial

theorem keysSorted_map {write : α → Json} (as : List α) (h : ∀ a ∈ as, (write a).KeysSorted) :
    (Json.array (as.map write)).KeysSorted :=
  Json.keysSortedItems_iff.2 (List.forall_mem_map.2 h)

/-- The text of an optional slot is sorted. -/
theorem keysSorted_text (o : Option String) : ∀ v ∈ o.map Json.string, v.KeysSorted := by
  rcases o with _ | s
  · exact nofun
  · rintro _ ⟨⟩
    trivial

theorem keysSorted_optionalList {write : α → Json} (o : Option (List α))
    (h : ∀ as ∈ o, ∀ a ∈ as, (write a).KeysSorted) :
    ∀ v ∈ o.map fun as => Json.array (as.map write), v.KeysSorted := by
  rcases o with _ | as
  · exact nofun
  · rintro _ ⟨⟩
    exact keysSorted_map as (h as rfl)

/-- The list in a slot that is left out when it is empty. -/
theorem keysSorted_nonempty {vs : List Json} {c : Prop} [Decidable c]
    (h : Json.KeysSortedItems vs) :
    ∀ v ∈ if c then none else some (Json.array vs), v.KeysSorted := by
  split_ifs
  · exact nofun
  · rintro _ ⟨⟩
    exact h

theorem keysSorted_metadata {a : Annotations} (h : a.IsSorted) :
    ∀ v ∈ if a.metadata.isEmpty then none else some (Json.object a.metadata), v.KeysSorted := by
  split_ifs
  · exact nofun
  · rintro _ ⟨⟩
    exact h

theorem keysSorted_some {v : Json} (h : v.KeysSorted) : ∀ w ∈ some v, w.KeysSorted := by
  rintro _ ⟨⟩
  exact h

theorem keysSorted_timeObject (tag : Option String) (type : TimingType) :
    (timeObject tag type).KeysSorted := by
  rw [timeObject_eq]
  exact keysSorted_object (timeSlots_ordered tag type)
    ⟨keysSorted_text tag, keysSorted_some trivial, trivial⟩

theorem keysSorted_writeTiming (t : Timing) : (writeTiming t).KeysSorted := by
  cases t <;> exact keysSorted_timeObject _ _

theorem keysSorted_writeVariable (v : SeqScript.Variable) : (writeVariable v).KeysSorted := by
  have range (r : AllowableRange) : (writeRange r).KeysSorted :=
    ⟨(by decide : ["max", "min"].Pairwise (· < ·)), trivial, trivial, trivial⟩
  have value (v : AllowableValue) : (writeAllowable v).KeysSorted := by
    cases v <;> trivial
  rw [writeVariable_eq]
  exact keysSorted_object (variableSlots_ordered v)
    ⟨keysSorted_optionalList _ fun _ _ r _ => range r,
      keysSorted_optionalList _ fun _ _ v _ => value v, keysSorted_text _, keysSorted_some trivial,
      keysSorted_text _, keysSorted_some trivial, trivial⟩

theorem keysSorted_writeCall {s : SeqScript.SequenceCall} (type : StepType)
    (h : s.annotations.IsSorted) : (writeCall type s).KeysSorted := by
  have model (m : ModelAssignment) : (writeModel m).KeysSorted :=
    ⟨(by decide : ["offset", "value", "variable"].Pairwise (· < ·)), trivial,
      keysSorted_writeLiteral m.value, trivial, trivial⟩
  have engine : ∀ v ∈ s.engine.map fun e => Json.number (.ofInt64 e), v.KeysSorted := by
    rcases s.engine with _ | e
    · exact nofun
    · rintro _ ⟨⟩
      trivial
  rw [writeCall_eq]
  exact keysSorted_object (callSlots_ordered type s)
    ⟨keysSorted_nonempty (keysSorted_writeArguments _), keysSorted_text _, engine,
      keysSorted_text _, keysSorted_metadata h,
      keysSorted_nonempty (keysSorted_map _ fun m _ => model m), keysSorted_some trivial,
      keysSorted_some (keysSorted_writeTiming _), keysSorted_some trivial, trivial⟩

theorem keysSorted_writeStep {x : SeqScript.Step} (h : x.annotations.IsSorted) :
    (writeStep x).KeysSorted := by
  rcases x with c | g | g | s | s
  · rw [writeStep_command]
    exact keysSorted_object (commandSlots_ordered c)
      ⟨keysSorted_some (keysSorted_writeArguments _), keysSorted_text _, keysSorted_metadata h,
        keysSorted_some trivial, keysSorted_some (keysSorted_writeTiming _),
        keysSorted_some trivial, trivial⟩
  · rw [writeStep_groundEvent]
    exact keysSorted_object (groundEventSlots_ordered g)
      ⟨keysSorted_nonempty (keysSorted_writeArguments _), keysSorted_text _, keysSorted_metadata h,
        keysSorted_some trivial, keysSorted_some (keysSorted_writeTiming _),
        keysSorted_some trivial, trivial⟩
  · rw [writeStep_groundBlock]
    exact keysSorted_object (groundBlockSlots_ordered g)
      ⟨keysSorted_nonempty (keysSorted_writeArguments _), keysSorted_text _, keysSorted_metadata h,
        keysSorted_some trivial, keysSorted_some trivial, trivial⟩
  · exact keysSorted_writeCall .activate h
  · exact keysSorted_writeCall .load h

theorem keysSorted_writeHardware {c : SeqScript.HardwareCommand} (h : c.annotations.IsSorted) :
    (writeHardware c).KeysSorted := by
  rw [writeHardware_eq]
  exact keysSorted_object (hardwareSlots_ordered c)
    ⟨keysSorted_text _, keysSorted_metadata h, keysSorted_some trivial, trivial⟩

theorem keysSorted_writeImmediate {c : SeqScript.ImmediateCommand} (h : c.annotations.IsSorted) :
    (writeImmediate c).KeysSorted := by
  rw [writeImmediate_eq]
  exact keysSorted_object (immediateSlots_ordered c)
    ⟨keysSorted_nonempty (keysSorted_writeArguments _), keysSorted_text _, keysSorted_metadata h,
      keysSorted_some trivial, trivial⟩

theorem keysSorted_groundEpochMembers (g : SeqScript.GroundEpoch) :
    (Json.object (groundEpochMembers g)).KeysSorted := by
  rw [groundEpochMembers_eq]
  exact keysSorted_object (groundEpochSlots_ordered g)
    ⟨keysSorted_text _, keysSorted_text _, trivial⟩

theorem keysSorted_writeRequest {r : SeqScript.Request} (h : r.annotations.IsSorted)
    (steps : ∀ x ∈ r.steps, x.annotations.IsSorted) : (writeRequest r).KeysSorted := by
  have epoch : ∀ v ∈ r.groundEpoch.map fun g => Json.object (groundEpochMembers g),
      v.KeysSorted := by
    rcases r.groundEpoch with _ | g
    · exact nofun
    · rintro _ ⟨⟩
      exact keysSorted_groundEpochMembers g
  rw [writeRequest_eq]
  exact keysSorted_object (requestSlots_ordered r)
    ⟨keysSorted_text _, epoch, keysSorted_metadata h, keysSorted_some trivial,
      keysSorted_some (keysSorted_map _ fun x hx => keysSorted_writeStep (steps x hx)),
      keysSorted_some trivial, trivial⟩

/-- The keys of every object in the document of a sequence with sorted metadata increase. -/
theorem keysSorted_write {s : SeqScript.Sequence} (h : s.IsSorted) : (write s).KeysSorted := by
  rw [write_eq]
  exact keysSorted_object (sequenceSlots_ordered s) ⟨
    keysSorted_optionalList _ fun cs hcs c hc =>
      keysSorted_writeHardware (h.hardwareCommands cs hcs c hc),
    keysSorted_some trivial,
    keysSorted_optionalList _ fun cs hcs c hc =>
      keysSorted_writeImmediate (h.immediateCommands cs hcs c hc),
    keysSorted_optionalList _ fun _ _ v _ => keysSorted_writeVariable v,
    keysSorted_some h.own,
    keysSorted_optionalList _ fun _ _ v _ => keysSorted_writeVariable v,
    keysSorted_optionalList _ fun rs hrs r hr =>
      keysSorted_writeRequest (h.requests rs hrs r hr).1 (h.requests rs hrs r hr).2,
    keysSorted_optionalList _ fun xs hxs x hx => keysSorted_writeStep (h.steps xs hxs x hx),
    trivial⟩

end SeqScript.Document
