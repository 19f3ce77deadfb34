import SeqScript.Json.Value
import SeqScript.Options.Basic
import SeqScript.Script.Literal

/-!
# Layout of objects and lists

Every text laid out here starts on a line that the caller has indented; its other lines carry their
own indentation for the level it is laid out at, two spaces a level.  Members stand on lines of
their own, each with a comma after it, and a member may carry a diagnostic that is written as a
comment at the end of its line (`Fragment`).
-/

namespace SeqScript.Script

/-- The indentation of a level. -/
def pad (level : Nat) : String := String.ofList (List.replicate (2 * level) ' ')

/-- A text that may carry a diagnostic. -/
structure Fragment where
  text : String
  diagnostic : Option String := none
  deriving DecidableEq

namespace Fragment

def plain (text : String) : Fragment := ⟨text, none⟩

def degraded (text diagnostic : String) : Fragment := ⟨text, some diagnostic⟩

/-- The fragment as a member: its text, a comma, and its diagnostic as a comment. -/
def member (o : Options) (f : Fragment) : String :=
  match f.diagnostic with
  | none => f.text ++ ","
  | some d => if o.legacyErrorComments then f.text ++ " //" ++ d ++ "," else f.text ++ ", //" ++ d

end Fragment

/-- The lines of an object's members. -/
def memberLines (o : Options) (level : Nat) (entries : List (String × Fragment)) : String :=
  String.join (entries.map fun (name, f) => pad level ++ key name ++ ": " ++ f.member o ++ "\n")

/-- The lines of a list's items. -/
def itemLines (o : Options) (level : Nat) (items : List Fragment) : String :=
  String.join (items.map fun f => pad level ++ f.member o ++ "\n")

/-- An object with its members in the order given. -/
def object (o : Options) (level : Nat) (entries : List (String × Fragment)) : String :=
  if entries.isEmpty then "\x7b\x7d"
  else "\x7b\n" ++ memberLines o (level + 1) entries ++ pad level ++ "\x7d"

def array (o : Options) (level : Nat) (items : List Fragment) : String :=
  if items.isEmpty then "[]"
  else "[\n" ++ itemLines o (level + 1) items ++ pad level ++ "]"

/-- The lines joined by a comma and a line feed, each indented. -/
def commaLines (level : Nat) (items : List String) : String :=
  String.intercalate ",\n" (items.map fun item => pad level ++ item)

/-- A list with commas only between its items. -/
def separated (level : Nat) (items : List String) : String :=
  if items.isEmpty then "[]"
  else "[\n" ++ commaLines (level + 1) items ++ "\n" ++ pad level ++ "]"

/-! ### JSON values -/

mutual

/-- A JSON value as a literal. -/
def json (level : Nat) : Json → String
  | .null => "null"
  | .bool b => if b then "true" else "false"
  | .number n => number n
  | .string s => quote s
  | .array items => array {} level (jsonItems (level + 1) items)
  | .object members => object {} level (jsonMembers (level + 1) members)

def jsonItems (level : Nat) : List Json → List Fragment
  | [] => []
  | v :: vs => .plain (json level v) :: jsonItems level vs

def jsonMembers (level : Nat) : List (String × Json) → List (String × Fragment)
  | [] => []
  | (name, v) :: ms => (name, .plain (json level v)) :: jsonMembers level ms

end

end SeqScript.Script
