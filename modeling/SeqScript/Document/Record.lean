import SeqScript.Document.Mismatch

/-!
# Records in a document

A record is written as an object, or as a list of its fields in the order of their declaration.
The values that are there are checked first, in the order in which they are written; then the
fields that are not there, in the order of their declaration.  Keys that are no field are ignored,
and a list must not be longer than the fields (`Record.decode`).
-/

namespace SeqScript.Document

/-- A value of a shape, or the first mismatch. -/
abbrev Shaped (α : Type) := Except Mismatch α

abbrev Decoder (α : Type) := Json → Shaped α

namespace Decoder

def any : Decoder Json := .ok

def text : Decoder String
  | .string s => .ok s
  | v => .error (.wrongKind v .text)

def list : Decoder (List Json)
  | .array items => .ok items
  | v => .error (.wrongKind v .list)

def map : Decoder Members
  | .object members => .ok members
  | v => .error (.wrongKind v .map)

def number : Decoder Number
  | .number n => .ok n
  | v => .error (.wrongKind v .number)

/-- The number of an engine is a signed 64-bit word. -/
def engine : Decoder Int64
  | .number (.integer i lower upper) =>
    if i < 0x8000000000000000 then .ok (.ofInt i)
    else .error (.outOfRange (.integer i lower upper) .engine)
  | v => .error (.wrongKind v .engine)

variable {α : Type}

/-- The decoder that takes `null` for an absent value. -/
def nullable (d : Decoder α) : Decoder (Option α)
  | .null => .ok none
  | v => (d v).map some

def listOf (d : Decoder α) : Decoder (List α)
  | .array items => items.mapM d
  | v => .error (.wrongKind v .list)

end Decoder

/-- A field of a record: without a default it is required. -/
structure RecordField (α : Type) where
  name : String
  decode : Decoder α
  default? : Option α

namespace RecordField

variable {α : Type}

def required (name : String) (d : Decoder α) : RecordField α := ⟨name, d, none⟩

/-- A field that may be `null` or absent. -/
def optional (name : String) (d : Decoder α) : RecordField (Option α) :=
  ⟨name, d.nullable, some none⟩

/-- A field that may be absent, but not `null`. -/
def defaulted (name : String) (d : Decoder α) (value : α) : RecordField α :=
  ⟨name, d, some value⟩

/-- What a field rejects in a value. -/
def mismatch? (f : RecordField α) (v : Json) : Option Mismatch :=
  match f.decode v with
  | .ok _ => none
  | .error m => some m

/-- The name of a field with its check. -/
def check (f : RecordField α) : String × (Json → Option Mismatch) := (f.name, f.mismatch?)

end RecordField

/-- Whether a record is part of a step, which words a list of too many fields in its own way. -/
inductive Place where
  | document
  | step
  deriving DecidableEq

/-- The name of a record and its fields in the order of their declaration. -/
structure Record where
  name : String
  place : Place
  fields : List (String × (Json → Option Mismatch))

/-- The values of a record by the names of their fields, in the order in which they are written,
and what is to be said of a field that is not there. -/
structure Entries where
  members : Members
  missing : String → Mismatch

namespace Entries

def get {α : Type} (e : Entries) (f : RecordField α) : Shaped α :=
  match e.members.get? f.name with
  | some v => f.decode v
  | none => match f.default? with
    | some a => .ok a
    | none => .error (e.missing f.name)

end Entries

namespace Record

def fieldNames (r : Record) : List String := r.fields.map (·.1)

/-- The first mismatch in the order in which the values are written. -/
def firstMismatch? (r : Record) (members : Members) : Option Mismatch :=
  members.findSome? fun (name, v) => (r.fields.lookup name).bind (· v)

def tooShort (r : Record) (name : String) : Mismatch :=
  .tooShort (r.fieldNames.idxOf name) r.name r.fields.length

/-- The values of a record, by the names of their fields. -/
def entries (r : Record) : Decoder Entries
  | .object members => .ok ⟨members, .missingField⟩
  | .array items => .ok ⟨r.fieldNames.zip items, r.tooShort⟩
  | v => .error (.wrongKind v (.record r.name))

/-- Refuses a list that is longer than the fields. -/
def checkLength (r : Record) : Json → Shaped Unit
  | .array items =>
    if r.fields.length < items.length then
      match r.place with
      | .document => .error (.tooLong items.length)
      | .step => .error (.tooLongInStep items.length r.fields.length)
    else .ok ()
  | _ => .ok ()

/-- Reads a record with `build`, which gets its fields in the order of their declaration. -/
def decode {α : Type} (r : Record) (build : Entries → Shaped α) : Decoder α := fun v =>
  match r.entries v with
  | .error m => .error m
  | .ok e => match r.firstMismatch? e.members with
    | some m => .error m
    | none => match build e with
      | .error m => .error m
      | .ok a => (r.checkLength v).map fun _ => a

end Record

end SeqScript.Document
