import SeqScript.Document.Reader
import SeqScript.Script.Renderer

/-!
# Bulk conversion

Each of many documents is read and rendered for itself, and a document that is refused spoils only
its own result.  The documents are dealt out to workers in consecutive shares of equal size, the
last one perhaps smaller; each worker knows the index of its first document.  The results stand in
the order of the documents.  The order in which the workers log is open, so warnings are reported
sorted.
-/

namespace SeqScript.Bulk

/-- The script of a document, or why it was refused. -/
abbrev Result := Except Document.ValidationError String

/-- Renders a document that was read, or logs that it was refused. -/
def finish (o : Options) (index : Nat) :
    Except Document.ValidationError Sequence → Logged Result
  | .ok s => (Script.render s o).map .ok
  | .error e => ⟨.error e, [.refused index e]⟩

/-- Converts the document at an index. -/
def convert (o : Options) (index : Nat) (doc : Json) : Logged Result :=
  Document.read doc >>= finish o index

/-- Converts consecutive documents, the first of which has the index `start`. -/
def convertFrom (o : Options) (start : Nat) : List Json → List (Logged Result)
  | [] => []
  | doc :: docs => convert o start doc :: convertFrom o (start + 1) docs

/-! ### Shares -/

/-- At least one worker, and no more than there are documents. -/
def workerCount (o : Options) (count : Nat) : Nat := min (max o.jobs 1) (max count 1)

/-- The documents of a worker and the index of the first. -/
structure Share where
  start : Nat
  docs : List Json

/-- Shares of `size` documents from the index `start` on; `fuel` bounds their number. -/
def sharesFrom (size : Nat) : Nat → Nat → List Json → List Share
  | 0, _, _ => []
  | fuel + 1, start, docs =>
    if docs.isEmpty then []
    else ⟨start, docs.take size⟩ :: sharesFrom size fuel (start + size) (docs.drop size)

/-- The documents dealt out to a number of workers. -/
def shares (workers : Nat) (docs : List Json) : List Share :=
  sharesFrom ((docs.length + workers - 1) / workers) docs.length 0 docs

/-! ### Runs -/

/-- What each worker does, in the order of the workers. -/
def workers (o : Options) (docs : List Json) : List (List (Logged Result)) :=
  let count := workerCount o docs.length
  if count = 1 then [convertFrom o 0 docs]
  else (shares count docs).map fun s => convertFrom o s.start s.docs

/-- Converts documents, each with the warnings it logged. -/
def run (o : Options) (docs : List Json) : List (Logged Result) := (workers o docs).flatten

def results (o : Options) (docs : List Json) : List Result := (run o docs).map (·.value)

/-- The logged lines of a run, sorted. -/
def report (o : Options) (docs : List Json) : List String :=
  (((run o docs).flatMap (·.warnings)).map Warning.line).mergeSort (· ≤ ·)

end SeqScript.Bulk
