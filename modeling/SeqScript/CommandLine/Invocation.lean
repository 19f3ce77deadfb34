import SeqScript.Text.Digit

/-!
# Invocations

The command line is a command with its options; the options `--config`, `--legacy-error-comments`
and `--verbose` may stand before the command as well as after it.  Words are taken from left to
right, and the first one that does not fit refuses the line.  A value is given after `=` or as the
next word, which must not look like an option; no option may be given twice on its side of the
command.
-/

namespace SeqScript.CommandLine

inductive Command where
  | edsl
  | bulk
  | normalize
  deriving DecidableEq

def Command.ofName? (name : String) : Option Command :=
  if name = "edsl" then some .edsl
  else if name = "bulk" then some .bulk
  else if name = "normalize" then some .normalize
  else none

/-- The options that a command line may give. -/
inductive Opt where
  | config
  | legacy
  | verbose
  | version
  | help
  | input
  | out
  | jobs
  deriving DecidableEq

namespace Opt

def ofLong? (name : String) : Option Opt :=
  if name = "config" then some .config
  else if name = "legacy-error-comments" then some .legacy
  else if name = "verbose" then some .verbose
  else if name = "version" then some .version
  else if name = "help" then some .help
  else if name = "input" then some .input
  else if name = "out" then some .out
  else if name = "jobs" then some .jobs
  else none

def ofShort? : Char → Option Opt
  | 'v' => some .verbose
  | 'V' => some .version
  | 'h' => some .help
  | 'o' => some .out
  | _ => none

def takesValue : Opt → Bool
  | config | input | out | jobs => true
  | legacy | verbose | version | help => false

/-- Is the option known before a command (`none`) or after one? -/
def allowed (command : Option Command) : Opt → Bool
  | config | legacy | verbose | help => true
  | version => command.isNone
  | input | out => command.isSome
  | jobs => command == some .bulk

end Opt

/-- The options given on one side of the command. -/
structure Given where
  config : Option String := none
  legacy : Bool := false
  verbose : Bool := false
  input : Option String := none
  out : Option String := none
  jobs : Option Nat := none

/-- How the reading of a command line ends before its last word. -/
inductive Stop where
  | usage
  | help
  | version
  deriving DecidableEq

/-- A count in decimal digits, perhaps after a plus sign, that fits 64 bits. -/
def count? (s : String) : Option Nat :=
  let ds := match s.toList with
    | '+' :: ds => ds
    | ds => ds
  if ds.isEmpty || !ds.all Char.isDigit then none
  else
    let n := Text.digitsValue ds
    if n < 0x10000000000000000 then some n else none

namespace Given

/-- Sets a path once; a path is not empty. -/
def path (old : Option String) (value : String) : Except Stop (Option String) :=
  if old.isSome || value.isEmpty then .error .usage else .ok (some value)

/-- Takes an option without a value. -/
def flag (g : Given) : Opt → Except Stop Given
  | .legacy => if g.legacy then .error .usage else .ok { g with legacy := true }
  | .verbose => if g.verbose then .error .usage else .ok { g with verbose := true }
  | .version => .error .version
  | .help => .error .help
  | _ => .error .usage

/-- Takes an option with its value. -/
def value (g : Given) (opt : Opt) (s : String) : Except Stop Given :=
  match opt with
  | .config => (path g.config s).map fun p => { g with config := p }
  | .input => (path g.input s).map fun p => { g with input := p }
  | .out => (path g.out s).map fun p => { g with out := p }
  | .jobs => match g.jobs, count? s with
    | none, some n => .ok { g with jobs := some n }
    | _, _ => .error .usage
  | _ => .error .usage

end Given

/-! ### Words -/

inductive Word where
  /-- Two dashes alone: no options follow. -/
  | endOfOptions
  | long (name : String) (value : Option String)
  | short (letters : List Char)
  | plain (s : String)

/-- The text before the first `=` and, if there is one, the text after it. -/
def splitEquals (cs : List Char) : String × Option String :=
  (String.ofList (cs.takeWhile (· != '=')),
    match cs.dropWhile (· != '=') with
    | [] => none
    | _ :: value => some (String.ofList value))

def Word.ofString (s : String) : Word :=
  match s.toList with
  | ['-', '-'] => .endOfOptions
  | '-' :: '-' :: cs => let (name, value) := splitEquals cs; .long name value
  | ['-'] => .plain s
  | '-' :: cs => .short cs
  | _ => .plain s

/-- What has been read: the options, and one that waits for its value. -/
structure State where
  given : Given := {}
  waiting : Option Opt := none

/-- Takes letters after a single dash. -/
def takeShort (command : Option Command) (g : Given) : List Char → Except Stop State
  | [] => .ok ⟨g, none⟩
  | c :: cs =>
    match Opt.ofShort? c with
    | none => .error .usage
    | some opt =>
      if !opt.allowed command then .error .usage
      else if opt.takesValue then
        match cs with
        | [] => .ok ⟨g, some opt⟩
        | '=' :: cs => (g.value opt (String.ofList cs)).map (⟨·, none⟩)
        | cs => (g.value opt (String.ofList cs)).map (⟨·, none⟩)
      else match g.flag opt with
        | .error stop => .error stop
        | .ok g => takeShort command g cs

def takeLong (command : Option Command) (g : Given) (name : String) (value : Option String) :
    Except Stop State :=
  match Opt.ofLong? name with
  | none => .error .usage
  | some opt =>
    if !opt.allowed command then .error .usage
    else match opt.takesValue, value with
      | true, some v => (g.value opt v).map (⟨·, none⟩)
      | true, none => .ok ⟨g, some opt⟩
      | false, some _ => .error .usage
      | false, none => (g.flag opt).map (⟨·, none⟩)

/-- Help may be asked for on the whole program or on one command. -/
def isHelpTopic : List String → Bool
  | [] => true
  | [name] => name == "help" || (Command.ofName? name).isSome
  | _ => false

/-- The side of the command line before the command, and the rest from the command on. -/
structure Front where
  given : Given
  command : Command
  rest : List String

/-- Reads the words before the command and the command itself. -/
def readFront (s : State) : List String → Except Stop Front
  | [] => .error .usage
  | w :: ws =>
    match s.waiting, Word.ofString w with
    | some opt, .plain v => do readFront ⟨← s.given.value opt v, none⟩ ws
    | some _, _ => .error .usage
    | none, .plain name => match Command.ofName? name with
      | some command => .ok ⟨s.given, command, ws⟩
      | none => .error (if name = "help" && isHelpTopic ws then .help else .usage)
    | none, .long name v => do readFront (← takeLong none s.given name v) ws
    | none, .short cs => do readFront (← takeShort none s.given cs) ws
    | none, .endOfOptions => .error .usage

/-- Reads the words after the command. -/
def readBack (command : Command) (s : State) : List String → Except Stop Given
  | [] => if s.waiting.isSome then .error .usage else .ok s.given
  | w :: ws =>
    match s.waiting, Word.ofString w with
    | some opt, .plain v => do readBack command ⟨← s.given.value opt v, none⟩ ws
    | some _, _ => .error .usage
    | none, .plain _ => .error .usage
    | none, .long name v => do readBack command (← takeLong (some command) s.given name v) ws
    | none, .short cs => do readBack command (← takeShort (some command) s.given cs) ws
    | none, .endOfOptions => if ws.isEmpty then .ok s.given else .error .usage

/-! ### Invocations -/

/-- What a command line asks for. -/
structure Invocation where
  command : Command
  input : String
  out : Option String
  jobs : Option Nat
  config : Option String
  legacyErrorComments : Bool

/-- The config file: what is given after the command, then what is given before it, then the
environment.  An empty name in the environment is refused unless both sides name a file. -/
def configOf (front back : Option String) (environment : Option String) :
    Except Stop (Option String) :=
  match front, back, environment with
  | some _, some file, _ => .ok (some file)
  | none, some file, env => if env = some "" then .error .usage else .ok (some file)
  | some file, none, env => if env = some "" then .error .usage else .ok (some file)
  | none, none, env => if env = some "" then .error .usage else .ok env

/-- Reads the words of a command line; `environment` names a config file. -/
def read (environment : Option String) (words : List String) : Except Stop Invocation := do
  let front ← readFront {} words
  let back ← readBack front.command {} front.rest
  let config ← configOf front.given.config back.config environment
  match back.input with
  | none => .error .usage
  | some input => return {
      command := front.command, input, out := back.out, jobs := back.jobs, config
      legacyErrorComments := front.given.legacy || back.legacy }

end SeqScript.CommandLine
