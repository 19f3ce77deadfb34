import SeqScript.CommandLine.Run

/-!
# File trees

A run can be tried on a tree of folders that is a value.  A path is walked name by name, from the
root if it starts with a slash and from the working folder otherwise; every name is looked up in
the folder that the names before it lead to, so the first name that cannot be followed decides why
a path is refused.  A path that ends in a slash leads to a folder or nowhere.
-/

namespace SeqScript.CommandLine

/-- What a name in a folder stands for. -/
inductive Entry where
  | folder (entries : List (String × Entry))
  | file (text : String)
  /-- A device has nothing to read and keeps nothing that is written. -/
  | device

/-- The names that lead from the root to an entry. -/
abbrev Location := List String

namespace Entry

/-- The entry at a location below this one. -/
def at? : Entry → Location → Option Entry
  | e, [] => some e
  | folder entries, name :: names => (entries.lookup name).bind (·.at? names)
  | _, _ :: _ => none

/-- The entry after a text was written at a location below it, whose folder exists. -/
def write (text : String) : Location → Entry → Entry
  | [], device => device
  | [], _ => file text
  | name :: names, folder entries =>
    folder ((name, ((entries.lookup name).getD (file "")).write text names) ::
      entries.filter (·.1 != name))
  | _ :: _, e => e

end Entry

/-- Why a path cannot be read or written. -/
inductive PathFault where
  | notFound
  | notFolder
  | isFolder
  | nameTooLong
  deriving DecidableEq

def PathFault.message : PathFault → String
  | notFound => "No such file or directory (os error 2)"
  | notFolder => "Not a directory (os error 20)"
  | isFolder => "Is a directory (os error 21)"
  | nameTooLong => "File name too long (os error 36)"

/-- The greatest number of bytes in a name, and the least that is too many in a path. -/
def nameLimit : Nat := 255
def pathLimit : Nat := 4096

/-! ### Paths -/

/-- The names on a path; those between adjacent slashes are left out. -/
def names (path : String) : List String :=
  ((Text.pieces '/' path.toList).filter (!·.isEmpty)).map String.ofList

def startsAtRoot (path : String) : Bool := path.toList.head? == some '/'

def endsInSlash (path : String) : Bool := path.toList.getLast? == some '/'

/-- The name of a folder in itself, and the name of the folder above it. -/
def hereName : String := "."
def aboveName : String := ".."

/-- A path has a name or a slash, and not too many bytes. -/
def checkPath (path : String) : Except PathFault Unit :=
  if path.isEmpty then .error .notFound
  else if pathLimit ≤ path.utf8ByteSize then .error .nameTooLong
  else .ok ()

/-! ### Trees -/

structure FileTree where
  root : Entry
  working : Location

namespace FileTree

/-- The entries of the folder at a location. -/
def folderAt (t : FileTree) (l : Location) : Except PathFault (List (String × Entry)) :=
  match t.root.at? l with
  | some (.folder entries) => .ok entries
  | _ => .error .notFolder

/-- What a name stands for in a folder, if anything. -/
def lookUp (entries : List (String × Entry)) (name : String) : Except PathFault (Option Entry) :=
  if nameLimit < name.utf8ByteSize then .error .nameTooLong else .ok (entries.lookup name)

/-- Follows a name from a folder; there is nothing above the root. -/
def follow (t : FileTree) (l : Location) (name : String) : Except PathFault Location := do
  let entries ← t.folderAt l
  if name = hereName then return l
  else if name = aboveName then return l.dropLast
  else match ← lookUp entries name with
    | some _ => return l ++ [name]
    | none => .error .notFound

/-- Follows names from the start of a path. -/
def walk (t : FileTree) (path : String) (names : List String) : Except PathFault Location :=
  names.foldlM t.follow (if startsAtRoot path then [] else t.working)

/-- The text that a path leads to. -/
def text (t : FileTree) (path : String) : Except PathFault String := do
  checkPath path
  let l ← t.walk path (names path ++ if endsInSlash path then [hereName] else [])
  match t.root.at? l with
  | some (.file text) => return text
  | some .device => return ""
  | some (.folder _) => .error .isFolder
  | none => .error .notFound

/-- Where a text for a path is written: the last name may be new, but stands for no folder. -/
def place (t : FileTree) (path : String) : Except PathFault Location := do
  checkPath path
  match (names path).getLast? with
  | none => .error .isFolder
  | some name =>
    let l ← t.walk path (names path).dropLast
    let entries ← t.folderAt l
    if name = hereName || name = aboveName || endsInSlash path then .error .isFolder
    else match ← lookUp entries name with
      | some (.folder _) => .error .isFolder
      | _ => return l ++ [name]

/-- The tree as a run sees it. -/
def files (t : FileTree) : Files where
  read path := (t.text path).mapError (·.message)
  refuseWrite path := match t.place path with
    | .ok _ => none
    | .error fault => some fault.message

def write (t : FileTree) (path text : String) : FileTree :=
  match t.place path with
  | .ok l => { t with root := t.root.write text l }
  | .error _ => t

/-- The tree that an outcome leaves. -/
def after (t : FileTree) (o : Outcome) : FileTree :=
  match o.written with
  | some (path, text) => t.write path text
  | none => t

/-! ### Systems -/

/-- The folders below the root of every system. -/
def systemFolders : List String := [
  "bin", "boot", "etc", "home", "lib", "media", "mnt", "opt", "proc", "root", "run", "sbin", "srv",
  "sys", "usr", "var"]

/-- The devices that have nothing to read. -/
def devices : List String := ["null", "stdin"]

/-- The files of a working folder, two levels below the root of a system.  The name of the working
folder is empty, so that no path leads down to it. -/
def ofFiles (files : List (String × String)) : FileTree where
  root := .folder (
    ("dev", .folder (devices.map fun name => (name, .device))) ::
    ("tmp", .folder [("", .folder (files.map fun (name, text) => (name, .file text)))]) ::
    systemFolders.map fun name => (name, .folder []))
  working := ["tmp", ""]

end FileTree

end SeqScript.CommandLine
