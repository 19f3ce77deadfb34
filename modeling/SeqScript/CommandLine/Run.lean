import SeqScript.Bulk
import SeqScript.CommandLine.Invocation
import SeqScript.Options.Reader

/-!
# Running an invocation

A run reads the config file and the input, converts, and delivers one text to a file or to standard
output.  It is all or nothing: a run that fails before delivery writes nothing.  Options are loaded
first, then a bulk run checks its number of workers, and the input is read last.  What was logged up
to a failure stays logged.
-/

namespace SeqScript.CommandLine

/-- What a run may ask of the files around it: the text of a file or why it cannot be read, and why
a file cannot be written, if so. -/
structure Files where
  read : String → Except String String
  refuseWrite : String → Option String

/-- A failure and what caused it, from the outside in. -/
structure Failure where
  summary : String
  causes : List String := []
  deriving DecidableEq

namespace Failure

/-- A text with `first` before its first line and `rest` before the others. -/
def hanging (first rest text : String) : String :=
  first ++ String.intercalate ("\n" ++ rest) (Text.lines text)

/-- A number in five places. -/
def label (i : Nat) : String :=
  String.ofList (List.replicate (5 - (toString i).length) ' ') ++ toString i ++ ": "

/-- Numbered causes, each on lines of its own. -/
def numbered (i : Nat) : List String → String
  | [] => ""
  | c :: cs => "\n" ++ hanging (label i) "       " c ++ numbered (i + 1) cs

def causesText : List String → String
  | [] => ""
  | [c] => "\n\nCaused by:\n" ++ hanging "    " "    " c
  | cs => "\n\nCaused by:" ++ numbered 0 cs

/-- The failure as it is reported. -/
def text (f : Failure) : String := "Error: " ++ f.summary ++ causesText f.causes ++ "\n"

end Failure

/-- A value or a failure, with the warnings that were logged on the way to either. -/
abbrev Attempt := ExceptT Failure Logged

/-- The text of a file, or a failure with what was to be done with it. -/
def readFile (files : Files) (purpose file : String) : Except Failure String :=
  (files.read file).mapError fun cause => ⟨purpose ++ file, [cause]⟩

def loadOptions (files : Files) : Option String → Except Failure Options
  | none => .ok {}
  | some file => do
    let text ← readFile files "reading config " file
    (Options.read text).mapError fun e => ⟨"in config " ++ file, e.chain⟩

def readInput (files : Files) (file : String) : Except Failure Json := do
  let text ← readFile files "reading " file
  (Json.read text).mapError fun e => ⟨"parsing JSON in " ++ file, [e.message]⟩

/-- The failure of a run on a document that is refused. -/
def invalid (file : String) (e : Document.ValidationError) : Failure :=
  ⟨"invalid sequence in " ++ file, [Text.oneLine e.display]⟩

/-- Converts one document, which must be valid. -/
def convertOne (file : String) (doc : Json) (f : Sequence → Logged String) : Attempt String := do
  let parsed ← Document.read doc
  let s ← parsed.mapError (invalid file)
  f s

/-- The object that stands for the result of one document of many. -/
def resultObject : Bulk.Result → Json
  | .ok script => .object [("edsl", .string script)]
  | .error e => .object [("error", .string (Text.oneLine e.display))]

/-- Converts documents, of which some may be refused. -/
def convertMany (o : Options) (docs : List Json) : Logged String :=
  let results := Bulk.results o docs
  let refused := results.countP (!·.isOk)
  { value := (Json.array (results.map resultObject)).spread
    warnings := (Bulk.run o docs).flatMap (·.warnings) ++
      if refused = 0 then [] else [.someRefused refused results.length] }

/-- The documents of a bulk input. -/
def documentList (file : String) : Json → Except Failure (List Json)
  | .array docs => .ok docs
  | _ => .error ⟨file ++ ": expected a JSON array of sequences", []⟩

/-- The options of a bulk run, whose number of workers may be given by the invocation. -/
def bulkOptions (o : Options) : Option Nat → Except Failure Options
  | none => .ok o
  | some 0 => .error ⟨"--jobs must be at least 1", []⟩
  | some jobs => .ok { o with jobs }

/-- What an invocation delivers. -/
def convert (files : Files) (i : Invocation) : Attempt String := do
  let loaded ← loadOptions files i.config
  let options :=
    if i.legacyErrorComments then { loaded with legacyErrorComments := true } else loaded
  match i.command with
  | .edsl =>
    let doc ← readInput files i.input
    convertOne i.input doc (Script.render · options)
  | .bulk =>
    let options ← bulkOptions options i.jobs
    let docs ← documentList i.input (← readInput files i.input)
    convertMany options docs
  | .normalize =>
    let doc ← readInput files i.input
    convertOne i.input doc fun s => pure (Document.write s).spread

/-- What a run leaves behind. -/
structure Outcome where
  code : Nat
  stdout : String := ""
  stderr : String := ""
  /-- The file that was written and its text. -/
  written : Option (String × String) := none
  warnings : List Warning := []

def failed (f : Failure) : Outcome := { code := 1, stderr := f.text }

/-- A text goes to the file that was asked for, or to standard output with a line feed. -/
def deliver (files : Files) (out : Option String) (text : String) : Outcome :=
  match out with
  | none => { code := 0, stdout := text ++ "\n" }
  | some file => match files.refuseWrite file with
    | some cause => failed ⟨"writing " ++ file, [cause]⟩
    | none => { code := 0, stderr := "Wrote " ++ file ++ "\n", written := some (file, text) }

/-- What comes of a result. -/
def conclude (files : Files) (out : Option String) : Except Failure String → Outcome
  | .error f => failed f
  | .ok text => deliver files out text

/-- Runs an invocation. -/
def run (files : Files) (i : Invocation) : Outcome :=
  let result := (convert files i).run
  { conclude files i.out result.value with warnings := result.warnings }

def versionText : String := "seqcodec 0.1.0\n"

def helpText : String :=
  "Convert command sequences to scripts\n\n" ++
  "Usage: seqcodec [--config FILE] [--legacy-error-comments] [-v] COMMAND\n\n" ++
  "  edsl --input FILE [-o FILE]\n" ++
  "  bulk --input FILE [-o FILE] [--jobs N]\n" ++
  "  normalize --input FILE [-o FILE]\n"

/-- What a command line comes to that is not run. -/
def stopped : Stop → Outcome
  | .usage => { code := 2 }
  | .help => { code := 0, stdout := helpText }
  | .version => { code := 0, stdout := versionText }

/-- Runs a command line. -/
def runWords (files : Files) (environment : Option String) (words : List String) : Outcome :=
  match read environment words with
  | .error stop => stopped stop
  | .ok i => run files i

end SeqScript.CommandLine
