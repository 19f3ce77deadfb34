import SeqScript.Proofs.Document.Composition
import SeqScript.Proofs.Document.PathText

/-!
# Places of faults

The path of a fault leads to a place in the document (`Locates`).  Every segment of it is there but
perhaps the last, which may name a field that is missing.
-/

namespace SeqScript

/-! ### Values at a path -/

namespace Json

/-- The value one segment further down. -/
def step? : Json → Document.Segment → Option Json
  | object ms, .field name => Members.get? ms name
  | array vs, .index i => vs[i]?
  | _, _ => none

/-- The value at a path. -/
def at? (v : Json) : Document.Path → Option Json
  | [] => some v
  | segment :: path => (v.step? segment).bind fun w => w.at? path

def isArray : Json → Bool
  | array _ => true
  | _ => false

/-- The path can be read from its text, and leads to a value or to a field that a value may lack. -/
structure Locates (v : Json) (path : Document.Path) : Prop where
  plain : path.IsPlain
  place : ∃ above w, v.at? above = some w ∧ (path = above ∨ ∃ name, path = above ++ [.field name])

/-- The items of the list in a field of an object. -/
def listAt (v : Json) (name : String) : List Json :=
  match v.step? (.field name) with
  | some (array vs) => vs
  | _ => []

variable {v w : Json} {ms : Members} {vs : List Json} {path : Document.Path}

theorem mem_listAt {name : String} (found : Members.get? ms name = some (array vs)) (mem : w ∈ vs) :
    w ∈ (object ms).listAt name := by
  simpa only [listAt, step?, found] using mem

theorem locates_nil (v : Json) : v.Locates [] := ⟨nofun, [], v, rfl, .inl rfl⟩

theorem locates_field {name : String} (plain : Document.isPlainName name) (v : Json) :
    v.Locates [.field name] :=
  ⟨List.forall_mem_singleton.2 plain, [], v, rfl, .inr ⟨name, rfl⟩⟩

theorem Locates.under {segment : Document.Segment} (h : w.Locates path) (plain : segment.isPlain)
    (found : v.step? segment = some w) : v.Locates (segment :: path) := by
  obtain ⟨above, u, at_above, last⟩ := h.place
  refine ⟨List.forall_mem_cons.2 ⟨plain, h.plain⟩, segment :: above, u, ?_, ?_⟩
  · rw [at?, found, Option.bind_some, at_above]
  · rcases last with rfl | ⟨name, rfl⟩
    · exact .inl rfl
    · exact .inr ⟨name, rfl⟩

/-- The path leads into one of the values, of which the first has index `i`. -/
def LocatesItem (vs : List Json) (i : Nat) (path : Document.Path) : Prop :=
  ∃ k w rest, vs[k]? = some w ∧ path = .index (i + k) :: rest ∧ w.Locates rest

theorem Locates.head {i : Nat} (h : w.Locates path) :
    LocatesItem (w :: vs) i (.index i :: path) := ⟨0, w, path, rfl, rfl, h⟩

theorem LocatesItem.tail {i : Nat} (h : LocatesItem vs (i + 1) path) :
    LocatesItem (v :: vs) i path := by
  obtain ⟨k, w, rest, found, rfl, inside⟩ := h
  refine ⟨k + 1, w, rest, found, ?_, inside⟩
  rw [Nat.add_assoc, Nat.add_comm 1]

theorem LocatesItem.array (h : LocatesItem vs 0 path) : (array vs).Locates path := by
  obtain ⟨k, w, rest, found, rfl, inside⟩ := h
  rw [Nat.zero_add]
  exact inside.under rfl found

end Json

namespace Document

open Checked Json

variable {α : Type} {v : Json} {ms : Members} {e : Located}

theorem fail_eq_error {fault : Fault} : (fail fault : Checked α) = .error e ↔ e = ⟨[], fault⟩ := by
  simp [fail, eq_comm]

/-- A fault of the value itself. -/
theorem locates_of_fail {fault : Fault} (h : (fail fault : Checked α) = .error e) :
    v.Locates e.path := by
  rw [fail_eq_error.1 h]
  exact locates_nil v

/-- A fault of a field that need not be there. -/
theorem locates_of_failIn {fault : Fault} {name : String} (plain : isPlainName name)
    (h : (fail fault : Checked α).inField name = .error e) : v.Locates e.path := by
  obtain ⟨inner, fault, rfl⟩ := under_eq_error.1 h
  rw [fail_eq_error.1 fault]
  exact locates_field plain v

/-! ### Arguments -/

theorem locates_checkKeys (h : checkKeys ms = .error e) : v.Locates e.path := by
  unfold checkKeys at h
  split at h
  · exact locates_of_fail h
  · contradiction

theorem locates_typeName (h : typeName ms = .error e) : v.Locates e.path := by
  unfold typeName at h
  split at h
  · contradiction
  · exact locates_of_failIn rfl h
  · exact locates_of_failIn rfl h

theorem locates_argumentValue (h : argumentValue ms = .error e) : v.Locates e.path := by
  unfold argumentValue at h
  split at h
  · contradiction
  · exact locates_of_failIn rfl h

theorem locates_argumentName (h : argumentName ms = .error e) : v.Locates e.path := by
  unfold argumentName at h
  split at h
  · contradiction
  · exact locates_of_failIn rfl h
  · contradiction

/-- A fault of an argument is one of its fields, or of the arguments of a group. -/
theorem locates_typedArgument {group? : Unit → Option (Checked Arguments)}
    (inner : ∀ d, group? () = some (.error d) → v.Locates (.field "value" :: d.path))
    (h : typedArgument ms group? = .error e) : v.Locates e.path := by
  rcases bind_eq_error.1 h with h | ⟨name, -, h⟩
  · exact locates_typeName h
  rcases bind_eq_error.1 h with h | ⟨value, -, h⟩
  · exact locates_argumentValue h
  split at h
  · exact locates_of_failIn rfl h
  · split at h
    · rename_i group read
      obtain ⟨d, fault, rfl⟩ := under_eq_error.1 (map_eq_error.1 h)
      exact inner d (fault ▸ read)
    · exact locates_of_failIn rfl h
  · split at h
    · contradiction
    · exact locates_of_failIn rfl h

theorem Gathered.locates_add {g : Gathered} {item : Option String × Argument}
    (h : g.add item = .error e) : v.Locates e.path := by
  obtain ⟨name?, a⟩ := item
  rcases name? with _ | name
  · simp only [add] at h
    split_ifs at h
    exact locates_of_fail h
  · simp only [add] at h
    split_ifs at h
    · exact locates_of_failIn rfl h
    · exact locates_of_fail h

mutual

theorem locates_readItem : ∀ (v : Json) {e : Located}, readItem v = .error e → v.Locates e.path
  | .object ms, e, h => by
    rw [readItem] at h
    rcases bind_eq_error.1 h with h | ⟨_, -, h⟩
    · exact locates_checkKeys h
    rcases bind_eq_error.1 h with h | ⟨_, -, h⟩
    · refine locates_typedArgument (fun d group => ?_) h
      obtain ⟨w, found, inside⟩ := locates_readValueMember ms group
      exact inside.under rfl found
    rcases bind_eq_error.1 h with h | ⟨_, -, h⟩
    · exact locates_argumentName h
    · contradiction
  | .array items, e, h => by
    rw [readItem] at h
    rcases bind_eq_error.1 h with h | ⟨_, -, h⟩
    · exact (locates_readItems items h).array
    · contradiction
  | .string _, _, h => nomatch h
  | .number _, _, h => nomatch h
  | .bool _, _, h => nomatch h
  | .null, _, h => locates_of_fail h

/-- A fault among items lies in one of them. -/
theorem locates_readItems : ∀ (vs : List Json) {i : Nat} {g : Gathered} {e : Located},
    readItems i g vs = .error e → LocatesItem vs i e.path
  | [], _, _, _, h => nomatch h
  | v :: vs, i, g, e, h => by
    rw [readItems] at h
    rcases bind_eq_error.1 h with h | ⟨item, -, h⟩
    · obtain ⟨inner, fault, rfl⟩ := under_eq_error.1 h
      exact (locates_readItem v fault).head
    rcases bind_eq_error.1 h with h | ⟨next, -, h⟩
    · obtain ⟨inner, fault, rfl⟩ := under_eq_error.1 h
      exact (Gathered.locates_add fault).head
    · exact (locates_readItems vs h).tail

theorem locates_readValueMember : ∀ (ms : List (String × Json)) {e : Located},
    readValueMember ms = some (.error e) →
      ∃ w, Json.step? (.object ms) (.field "value") = some w ∧ w.Locates e.path
  | [], _, h => nomatch h
  | (key, v) :: ms, e, h => by
    rw [readValueMember] at h
    show ∃ w, List.lookup "value" ((key, v) :: ms) = some w ∧ _
    rw [List.lookup_cons]
    split_ifs at h with same
    · subst same
      exact ⟨v, rfl, locates_readGroup? v h⟩
    · rw [beq_false_of_ne (Ne.symm same)]
      exact locates_readValueMember ms h

theorem locates_readGroup? : ∀ (v : Json) {e : Located},
    readGroup? v = some (.error e) → v.Locates e.path
  | .array items, e, h => by
    rw [readGroup?] at h
    exact (locates_readItems items (map_eq_error.1 (Option.some.inj h))).array
  | .object _, _, h => nomatch h
  | .string _, _, h => nomatch h
  | .number _, _, h => nomatch h
  | .bool _, _, h => nomatch h
  | .null, _, h => nomatch h

end

theorem locates_readArguments {items : List Json} (h : readArguments items = .error e) :
    (Json.array items).Locates e.path :=
  (locates_readItems items (map_eq_error.1 h)).array

/-! ### Fields -/

/-- An optional field that was read has a value. -/
theorem exists_of_get_optional {name : String} {d : Decoder α} {a : α}
    (h : Entries.get ⟨ms, .missingField⟩ (.optional name d) = .ok (some a)) :
    ∃ w, ms.get? name = some w ∧ d w = .ok a := by
  unfold Entries.get at h
  split at h
  · rename_i w found
    refine ⟨w, found, ?_⟩
    simp only [RecordField.optional, Decoder.nullable] at h
    split at h
    · exact absurd (Except.ok.inj h) nofun
    · obtain ⟨b, decoded, same⟩ := map_eq_ok.1 h
      exact Option.some.inj same ▸ decoded
  · exact absurd (Except.ok.inj h) nofun

/-- A field whose value was read is there, unless it has the default. -/
theorem get_defaulted {name : String} {d : Decoder α} {value a : α}
    (h : Entries.get ⟨ms, .missingField⟩ (.defaulted name d value) = .ok a) :
    a = value ∨ ∃ w, ms.get? name = some w ∧ d w = .ok a := by
  unfold Entries.get at h
  split at h
  · rename_i w found
    exact .inr ⟨w, found, h⟩
  · exact .inl (Except.ok.inj h).symm

theorem list_eq_ok {vs : List Json} (h : Decoder.list v = .ok vs) : v = .array vs := by
  cases v with
  | array items => exact congrArg _ (Except.ok.inj h)
  | _ => contradiction

/-- The arguments are those in the document, if there are any. -/
def ArgumentsFrom (ms : Members) (args : List Json) : Prop :=
  args = [] ∨ ms.get? "args" = some (.array args)

theorem argumentsFrom_of_get {args : List Json}
    (h : Entries.get ⟨ms, .missingField⟩ Shape.argsField = .ok args) : ArgumentsFrom ms args := by
  refine (get_defaulted h).imp_right ?_
  rintro ⟨w, found, decoded⟩
  rw [found, list_eq_ok decoded]

theorem locates_argumentsOf {args : List Json} (origin : ArgumentsFrom ms args)
    (h : argumentsOf args = .error e) : (Json.object ms).Locates e.path := by
  obtain ⟨inner, fault, rfl⟩ := under_eq_error.1 h
  rcases origin with rfl | found
  · contradiction
  · exact (locates_readArguments fault).under rfl found

/-! ### Times -/

theorem timed_eq_error {x : Except TimeError α} (h : timed x = .error e) : e.path = [] := by
  unfold timed at h
  split at h
  · contradiction
  · rw [fail_eq_error.1 h]

theorem locates_tagged {read : String → Except TimeError α} {raw : Shape.Time}
    (h : tagged read raw = .error e) : v.Locates e.path := by
  unfold tagged at h
  split at h
  · obtain ⟨inner, fault, rfl⟩ := under_eq_error.1 h
    rw [timed_eq_error fault]
    exact locates_field rfl v
  · exact locates_of_failIn rfl h

/-- The fault of a time is in one of its two fields, in whatever form the time is written. -/
theorem locates_timing {raw : Shape.Time} (h : timing raw = .error e) : v.Locates e.path := by
  unfold timing at h
  split at h
  · exact locates_tagged (map_eq_error.1 h)
  · exact locates_tagged (map_eq_error.1 h)
  · exact locates_tagged (map_eq_error.1 h)
  · contradiction
  · exact locates_of_failIn rfl h

theorem locates_timingOf {raw : Option Shape.Time}
    (time : ∀ t ∈ raw, ∃ w, ms.get? "time" = some w) (h : timingOf raw = .error e) :
    (Json.object ms).Locates e.path := by
  rcases raw with _ | raw
  · contradiction
  · obtain ⟨w, found⟩ := time raw rfl
    obtain ⟨inner, fault, rfl⟩ := under_eq_error.1 h
    exact (locates_timing (v := w) fault).under rfl found

/-! ### Models -/

theorem locates_modelOf {raw : Shape.Model} (h : modelOf raw = .error e) : v.Locates e.path := by
  rcases bind_eq_error.1 h with h | ⟨_, -, h⟩
  · obtain ⟨inner, fault, rfl⟩ := under_eq_error.1 h
    rw [timed_eq_error fault]
    exact locates_field rfl v
  · split at h
    · exact locates_of_failIn rfl h
    · contradiction

/-- The fault of a model is in one of its fields, so only the number of models matters. -/
theorem locates_modelsFrom {raws : List Shape.Model} {vs : List Json} {i : Nat}
    (length : vs.length = raws.length) (h : modelsFrom i raws = .error e) :
    LocatesItem vs i e.path := by
  induction raws generalizing i vs with
  | nil => contradiction
  | cons raw raws ih =>
    obtain ⟨v, vs, rfl⟩ := List.exists_cons_of_length_eq_add_one length
    rcases bind_eq_error.1 h with h | ⟨_, -, h⟩
    · obtain ⟨inner, fault, rfl⟩ := under_eq_error.1 h
      exact (locates_modelOf fault).head
    rcases bind_eq_error.1 h with h | ⟨_, -, h⟩
    · exact (ih (Nat.succ.inj length) h).tail
    · contradiction

/-- The models are those in the document, if there are any. -/
def ModelsFrom (ms : Members) (raws : List Shape.Model) : Prop :=
  raws = [] ∨ ∃ vs, ms.get? "models" = some (.array vs) ∧ vs.length = raws.length

theorem length_of_mapM {β ε : Type} {f : α → Except ε β} {as : List α} {bs : List β}
    (h : as.mapM f = .ok bs) : as.length = bs.length := by
  induction as generalizing bs with
  | nil =>
    obtain rfl := Except.ok.inj h
    rfl
  | cons a as ih =>
    rw [List.mapM_cons] at h
    obtain ⟨b, -, h⟩ := bind_eq_ok.1 h
    obtain ⟨rest, later, h⟩ := bind_eq_ok.1 h
    obtain rfl := Except.ok.inj h
    rw [List.length_cons, List.length_cons, ih later]

theorem modelsFrom_of_get {raws : List Shape.Model}
    (h : Entries.get ⟨ms, .missingField⟩ Shape.modelsField = .ok raws) : ModelsFrom ms raws := by
  refine (get_defaulted h).imp_right ?_
  rintro ⟨w, found, decoded⟩
  cases w with
  | array vs => exact ⟨vs, found, length_of_mapM decoded⟩
  | _ => contradiction

theorem locates_models {raws : List Shape.Model} (origin : ModelsFrom ms raws)
    (h : (modelsFrom 0 raws).inField "models" = .error e) : (Json.object ms).Locates e.path := by
  obtain ⟨inner, fault, rfl⟩ := under_eq_error.1 h
  rcases origin with rfl | ⟨vs, found, length⟩
  · contradiction
  · exact (locates_modelsFrom length fault).array.under rfl found

/-! ### Steps -/

/-- The time is that in the document, if there is one. -/
def TimeFrom (ms : Members) (time : Option Shape.Time) : Prop :=
  ∀ t ∈ time, ∃ w, ms.get? "time" = some w

theorem timeFrom_of_get {time : Option Shape.Time}
    (h : Entries.get ⟨ms, .missingField⟩ Shape.timeField = .ok time) : TimeFrom ms time := by
  rintro t rfl
  obtain ⟨w, found, -⟩ := exists_of_get_optional h
  exact ⟨w, found⟩

/-- The parts of a step in which faults can lie are those in the document. -/
def PartsFrom (ms : Members) : Shape.Step → Prop
  | .command raw => TimeFrom ms raw.time ∧ ArgumentsFrom ms raw.args
  | .groundEvent raw => TimeFrom ms raw.time ∧ ArgumentsFrom ms raw.args
  | .groundBlock raw => ArgumentsFrom ms raw.args
  | .activate raw => TimeFrom ms raw.time ∧ ArgumentsFrom ms raw.args ∧ ModelsFrom ms raw.models
  | .load raw => TimeFrom ms raw.time ∧ ArgumentsFrom ms raw.args ∧ ModelsFrom ms raw.models

theorem partsFrom_of_fields {raw : Shape.Step} (h : StepFields ⟨ms, .missingField⟩ raw) :
    PartsFrom ms raw := by
  have args := argumentsFrom_of_get h.args
  have models : ModelsFrom ms (stepModels raw) := h.models.elim .inl modelsFrom_of_get
  cases raw with
  | command raw => exact ⟨timeFrom_of_get (h.time _ rfl), args⟩
  | groundEvent raw => exact ⟨timeFrom_of_get (h.time _ rfl), args⟩
  | groundBlock raw => exact args
  | activate raw => exact ⟨timeFrom_of_get (h.time _ rfl), args, models⟩
  | load raw => exact ⟨timeFrom_of_get (h.time _ rfl), args, models⟩

theorem locates_callOf {raw : Shape.SequenceCall}
    (origin : TimeFrom ms raw.time ∧ ArgumentsFrom ms raw.args ∧ ModelsFrom ms raw.models)
    (h : callOf raw = .error e) : (Json.object ms).Locates e.path := by
  obtain ⟨time, args, models⟩ := origin
  rcases bind_eq_error.1 h with h | ⟨_, -, h⟩
  · exact locates_models models h
  rcases bind_eq_error.1 h with h | ⟨_, -, h⟩
  · exact locates_timingOf time h
  rcases bind_eq_error.1 h with h | ⟨_, -, h⟩
  · exact locates_argumentsOf args h
  · contradiction

theorem locates_stepOf {raw : Shape.Step} (origin : PartsFrom ms raw)
    (h : stepOf raw = .error e) : (Json.object ms).Locates e.path := by
  cases raw with
  | command raw =>
    rcases bind_eq_error.1 h with h | ⟨_, -, h⟩
    · exact locates_timingOf origin.1 h
    rcases bind_eq_error.1 h with h | ⟨_, -, h⟩
    · exact locates_argumentsOf origin.2 h
    · contradiction
  | groundEvent raw =>
    rcases bind_eq_error.1 h with h | ⟨_, -, h⟩
    · exact locates_timingOf origin.1 h
    rcases bind_eq_error.1 h with h | ⟨_, -, h⟩
    · exact locates_argumentsOf origin.2 h
    · contradiction
  | groundBlock raw =>
    rcases bind_eq_error.1 h with h | ⟨_, -, h⟩
    · exact locates_argumentsOf origin h
    · contradiction
  | activate raw => exact locates_callOf origin (map_eq_error.1 h)
  | load raw => exact locates_callOf origin (map_eq_error.1 h)

theorem shaped_eq_error {x : Shaped α} (h : shaped x = .error e) : e.path = [] := by
  unfold shaped at h
  split at h
  · contradiction
  · rw [fail_eq_error.1 h]

/-- A value of the wrong shape. -/
theorem locates_shaped {x : Shaped α} (h : shaped x = .error e) : v.Locates e.path := by
  rw [shaped_eq_error h]
  exact locates_nil v

/-- A step that is not written as a list of its fields. -/
theorem locates_readStep (record : ¬ v.isArray) (h : readStep v = .error e) :
    v.Locates e.path := by
  rcases bind_eq_error.1 h with shape | ⟨raw, decoded, fault⟩
  · exact locates_shaped shape
  replace decoded := shaped_eq_ok.1 decoded
  cases v with
  | object ms =>
    rw [Shape.Step.decode] at decoded
    split at decoded
    · obtain ⟨_, _, ⟨⟩, fields⟩ := stepFields_of_decodeBody decoded
      exact locates_stepOf (partsFrom_of_fields fields) fault
    · contradiction
  | array vs => exact absurd rfl record
  | _ => contradiction

/-! ### Commands without a time -/

theorem locates_readHardware (h : readHardware v = .error e) : v.Locates e.path := by
  rcases bind_eq_error.1 h with h | ⟨_, -, h⟩
  · exact locates_shaped h
  · contradiction

theorem locates_readImmediate (record : ¬ v.isArray) (h : readImmediate v = .error e) :
    v.Locates e.path := by
  rcases bind_eq_error.1 h with shape | ⟨raw, decoded, fault⟩
  · exact locates_shaped shape
  replace decoded := shaped_eq_ok.1 decoded
  cases v with
  | object ms =>
    obtain ⟨_, ⟨⟩, -, args, -⟩ := immediateFields_of_decode decoded
    rcases bind_eq_error.1 fault with fault | ⟨_, -, fault⟩
    · exact locates_argumentsOf (argumentsFrom_of_get args) fault
    · split_ifs at fault
      · contradiction
      · exact locates_of_failIn rfl fault
  | array vs => exact absurd rfl record
  | _ => contradiction

/-! ### Lists -/

/-- A fault of a list lies in one of its items. -/
theorem locates_readFrom {read : Json → Checked α} {vs : List Json}
    (items : ∀ w ∈ vs, ∀ d, read w = .error d → w.Locates d.path)
    (h : readFrom read 0 vs = .error e) : (Json.array vs).Locates e.path := by
  obtain ⟨before, w, after, inner, rfl, -, fault, rfl⟩ := readFrom_eq_error_iff.1 h
  have inside := items w (List.mem_append_right _ List.mem_cons_self) inner fault
  exact LocatesItem.array ⟨before.length, w, inner.path, by simp, rfl, inside⟩

/-- A fault in a list that is there. -/
theorem locates_readList {name : String} {read : Json → Checked α} {vs : List Json}
    (plain : isPlainName name) (found : ms.get? name = some (.array vs))
    (items : ∀ w ∈ vs, ∀ d, read w = .error d → w.Locates d.path)
    (h : readList name read vs = .error e) : (Json.object ms).Locates e.path := by
  obtain ⟨inner, fault, rfl⟩ := under_eq_error.1 h
  exact (locates_readFrom items fault).under plain found

/-! ### Requests -/

theorem locates_checkRequestType {type : Option String} (h : checkRequestType type = .error e) :
    v.Locates e.path := by
  unfold checkRequestType at h
  split at h
  · contradiction
  · split_ifs at h
    exact locates_of_failIn rfl h

theorem locates_readRequest (record : ¬ v.isArray) (steps : ∀ w ∈ v.listAt "steps", ¬ w.isArray)
    (h : readRequest v = .error e) : v.Locates e.path := by
  rcases bind_eq_error.1 h with shape | ⟨raw, decoded, fault⟩
  · exact locates_shaped shape
  replace decoded := shaped_eq_ok.1 decoded
  cases v with
  | object ms =>
    obtain ⟨_, ⟨⟩, fields⟩ := requestFields_of_decode decoded
    rcases bind_eq_error.1 fault with fault | ⟨_, -, fault⟩
    · exact locates_checkRequestType fault
    rcases bind_eq_error.1 fault with fault | ⟨_, -, fault⟩
    · rcases get_defaulted fields.steps with none | ⟨w, found, items⟩
      · rw [none] at fault
        contradiction
      · obtain rfl := list_eq_ok items
        refine locates_readList rfl found (fun x mem d => locates_readStep ?_) fault
        exact steps x (mem_listAt found mem)
    · contradiction
  | array vs => exact absurd rfl record
  | _ => contradiction

/-! ### Variables -/

theorem locates_readVariable {kind : VariableKind} {seen : List String}
    (h : readVariable kind seen v = .error e) : v.Locates e.path := by
  rcases bind_eq_error.1 h with h | ⟨raw, -, h⟩
  · exact locates_shaped h
  split_ifs at h
  · exact locates_of_failIn rfl h
  rcases bind_eq_error.1 h with h | ⟨_, -, h⟩
  · unfold variableType at h
    split at h
    · contradiction
    · unfold typeFault at h
      split_ifs at h
      · exact locates_of_failIn rfl h
      · exact locates_of_failIn rfl h
      · exact locates_of_failIn rfl h
  · contradiction

theorem locates_readVariablesFrom {kind : VariableKind} {vs : List Json} {i : Nat}
    {seen : List String} (h : readVariablesFrom kind i seen vs = .error e) :
    LocatesItem vs i e.path := by
  induction vs generalizing i seen with
  | nil => contradiction
  | cons v vs ih =>
    rcases bind_eq_error.1 h with h | ⟨_, -, h⟩
    · obtain ⟨inner, fault, rfl⟩ := under_eq_error.1 h
      exact (locates_readVariable fault).head
    rcases bind_eq_error.1 h with h | ⟨_, -, h⟩
    · exact (ih h).tail
    · contradiction

theorem isPlainName_listName (kind : VariableKind) : isPlainName kind.listName := by
  cases kind <;> rfl

theorem locates_readVariables {kind : VariableKind} {vs : List Json}
    (found : ms.get? kind.listName = some (.array vs)) (h : readVariables kind vs = .error e) :
    (Json.object ms).Locates e.path := by
  obtain ⟨inner, fault, rfl⟩ := under_eq_error.1 h
  exact (locates_readVariablesFrom fault).array.under (isPlainName_listName kind) found

/-! ### Sequences -/

theorem readOptional_eq_error {β : Type} {read : α → Checked β} {o : Option α}
    (h : readOptional read o = .error e) : ∃ a, o = some a ∧ read a = .error e := by
  rcases o with _ | a
  · contradiction
  · exact ⟨a, rfl, map_eq_error.1 h⟩

theorem id_of_decode {raw : Shape.Sequence} (h : Shape.Sequence.decode (.object ms) = .ok raw) :
    (Json.object ms).at? [.field "id"] = some (.string raw.id) := by
  obtain ⟨_, ⟨⟩, fields⟩ := sequenceFields_of_decode h
  have found := fields.id
  unfold Entries.get at found
  split at found
  · rename_i w there
    show (Members.get? ms "id").bind _ = _
    cases w with
    | string id =>
      obtain rfl := Except.ok.inj found
      exact congrArg (Option.bind · _) there
    | _ => contradiction
  · contradiction

/-- A list that was decoded is that in the document. -/
theorem found_of_get {name : String} {vs : List Json}
    (h : Entries.get ⟨ms, .missingField⟩ (.optional name .list) = .ok (some vs)) :
    ms.get? name = some (.array vs) := by
  obtain ⟨w, found, decoded⟩ := exists_of_get_optional h
  rw [found, list_eq_ok decoded]

theorem locates_readDeclarations {raw : Shape.Sequence}
    (shape : Shape.Sequence.decode (.object ms) = .ok raw) (h : readDeclarations raw = .error e) :
    (Json.object ms).Locates e.path := by
  obtain ⟨_, ⟨⟩, fields⟩ := sequenceFields_of_decode shape
  rcases bind_eq_error.1 h with h | ⟨_, -, h⟩
  · obtain ⟨vs, there, fault⟩ := readOptional_eq_error h
    exact locates_readVariables (found_of_get (there ▸ fields.locals)) fault
  rcases bind_eq_error.1 h with h | ⟨_, -, h⟩
  · obtain ⟨vs, there, fault⟩ := readOptional_eq_error h
    exact locates_readVariables (found_of_get (there ▸ fields.parameters)) fault
  · contradiction

/-- Neither the sequence nor a command, a step or a request is a list of its fields.  Variables
and hardware commands may be, since the faults in them are those of their own fields. -/
structure RecordsNamed (doc : Json) : Prop where
  sequence : ¬ doc.isArray
  immediate : ∀ v ∈ doc.listAt "immediate_commands", ¬ v.isArray
  steps : ∀ v ∈ doc.listAt "steps", ¬ v.isArray
  requests : ∀ v ∈ doc.listAt "requests", ¬ v.isArray
  requestSteps : ∀ r ∈ doc.listAt "requests", ∀ v ∈ r.listAt "steps", ¬ v.isArray

theorem locates_item (named : RecordsNamed (.object ms)) (l : ItemList) :
    ∀ w ∈ (Json.object ms).listAt l.name, ∀ d, l.read w = .error d → w.Locates d.path := by
  intro w mem d h
  cases l with
  | hardwareCommands => exact locates_readHardware h
  | immediateCommands => exact locates_readImmediate (named.immediate w mem) h
  | steps => exact locates_readStep (named.steps w mem) h
  | requests =>
    exact locates_readRequest (named.requests w mem) (named.requestSteps w mem) h

theorem locates_optionalList {raw : Shape.Sequence} (named : RecordsNamed (.object ms))
    (shape : Shape.Sequence.decode (.object ms) = .ok raw) (l : ItemList)
    (h : readOptional (readList l.name l.read) (l.values raw) = .error e) :
    (Json.object ms).Locates e.path := by
  obtain ⟨vs, there, fault⟩ := readOptional_eq_error h
  have found : ms.get? l.name = some (.array vs) := by
    have get := there ▸ get_of_decode shape l
    cases l <;> exact found_of_get get
  have plain : isPlainName l.name := by cases l <;> rfl
  exact locates_readList plain found (fun w mem => locates_item named l w (mem_listAt found mem))
    fault

theorem locates_readBody {raw : Shape.Sequence} {d : Declarations}
    (named : RecordsNamed (.object ms)) (shape : Shape.Sequence.decode (.object ms) = .ok raw)
    (h : readBody raw d = .error e) : (Json.object ms).Locates e.path := by
  have list := locates_optionalList (e := e) named shape
  rcases bind_eq_error.1 h with h | ⟨_, -, h⟩
  · exact list .hardwareCommands h
  rcases bind_eq_error.1 h with h | ⟨_, -, h⟩
  · exact list .immediateCommands h
  rcases bind_eq_error.1 h with h | ⟨_, -, h⟩
  · exact list .steps h
  rcases bind_eq_error.1 h with h | ⟨_, -, h⟩
  · exact list .requests h
  · contradiction

/-- A document is refused as a whole, or else under its id and with the text of a path that leads to
a value in it or to a field that a value in it lacks. -/
theorem locates_of_read {doc : Json} {e : ValidationError} (named : RecordsNamed doc)
    (h : (read doc).value = .error e) :
    (e.path = [] ∧ e.sequenceId = none ∧ ∃ m, Shape.Sequence.decode doc = .error m) ∨
      ∃ id, doc.at? [.field "id"] = some (.string id) ∧ e.sequenceId = some id ∧
        Path.ofText e.path.text = e.path ∧ doc.Locates e.path := by
  rw [value_read] at h
  split at h
  · rename_i m refused
    obtain ⟨inner, fault, rfl⟩ := identified_eq_error.1 h
    rw [fail_eq_error.1 fault]
    exact .inl ⟨rfl, rfl, m, refused⟩
  · rename_i raw shape
    obtain ⟨inner, fault, rfl⟩ := identified_eq_error.1 h
    cases doc with
    | object ms =>
      have inside : (Json.object ms).Locates inner.path := by
        rcases bind_eq_error.1 fault with fault | ⟨d, -, fault⟩
        · exact locates_readDeclarations shape fault
        · exact locates_readBody named shape fault
      exact .inr ⟨raw.id, id_of_decode shape, rfl, Path.ofText_text inside.plain, inside⟩
    | array vs => exact absurd rfl named.sequence
    | _ => contradiction

/-- A value is missing in a list of arguments, in the second step of a request. -/
theorem locates_of_read_request : ∃ doc e, RecordsNamed doc ∧ (read doc).value = .error e ∧
    e.path.text = "requests[0].steps[1].args[0][1].value" ∧ doc.Locates e.path := by
  suffices h : ∃ doc e, RecordsNamed doc ∧ (read doc).value = .error e ∧
      e.path.text = "requests[0].steps[1].args[0][1].value" ∧ e.path ≠ [] by
    obtain ⟨doc, e, named, refused, text, inner⟩ := h
    rcases locates_of_read named refused with ⟨whole, -⟩ | ⟨_, -, -, -, inside⟩
    · exact absurd whole inner
    · exact ⟨doc, e, named, refused, text, inside⟩
  refine ⟨.object [("id", .string "a"), ("metadata", .object []), ("requests", .array [
      .object [("name", .string "r"), ("steps", .array [
        .object [("stem", .string "A"), ("type", .string "command")],
        .object [("args", .array [.array [.bool true, .object [("type", .string "symbol")]]]),
          ("stem", .string "B"), ("type", .string "command")]])]])],
    ⟨some "a", [.field "requests", .index 0, .field "steps", .index 1, .field "args", .index 0,
      .index 1, .field "value"], .argumentValueMissing⟩, ?_, rfl, rfl, List.cons_ne_nil _ _⟩
  exact ⟨by decide, by decide, by decide, by decide, by decide⟩

end Document

end SeqScript
