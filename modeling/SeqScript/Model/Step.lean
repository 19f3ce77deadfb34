import SeqScript.Json.Value
import SeqScript.Model.Argument
import SeqScript.Time.Basic

/-!
# Steps and commands

The steps of a sequence, and the two kinds of command that carry no time.  Every one of them has
annotations, a description and free metadata, set by `withDescription` and `withMetadata`; the other
parts have setters of their own.
-/

namespace SeqScript

/-- A free object of metadata. -/
abbrev Metadata := Members

/-- What a step is timed against. -/
inductive Timing where
  | absolute (instant : Instant)
  | relative (offset : Duration)
  | epoch (offset : Duration)
  | commandComplete
  deriving DecidableEq, Inhabited

/-- The kinds of timing that a document tells apart by name. -/
inductive TimingType where
  | absolute
  | relative
  | epoch
  | commandComplete
  deriving DecidableEq

namespace TimingType

def name : TimingType → String
  | absolute => "ABSOLUTE"
  | relative => "COMMAND_RELATIVE"
  | epoch => "EPOCH_RELATIVE"
  | commandComplete => "COMMAND_COMPLETE"

def all : List TimingType := [absolute, relative, epoch, commandComplete]

def ofName? (name : String) : Option TimingType := all.find? (·.name == name)

theorem ofName?_name (t : TimingType) : ofName? t.name = some t := by
  cases t <;> decide

end TimingType

def Timing.type : Timing → TimingType
  | absolute _ => .absolute
  | relative _ => .relative
  | epoch _ => .epoch
  | commandComplete => .commandComplete

structure Annotations where
  description : Option String := none
  metadata : Metadata := []
  deriving DecidableEq, Inhabited

/-- A value that carries annotations. -/
class Annotated (α : Type) where
  annotate : (Annotations → Annotations) → α → α

section

variable {α : Type} [Annotated α]

def withDescription (x : α) (description : String) : α :=
  Annotated.annotate (fun a => { a with description := some description }) x

def withMetadata (x : α) (metadata : Metadata) : α :=
  Annotated.annotate (fun a => { a with metadata := metadata }) x

end

structure Command where
  stem : String
  arguments : Arguments := .none
  timing : Timing := .commandComplete
  annotations : Annotations := {}
  deriving DecidableEq

structure GroundEvent where
  name : String
  arguments : Arguments := .none
  timing : Timing := .commandComplete
  annotations : Annotations := {}
  deriving DecidableEq

/-- A ground block is never timed. -/
structure GroundBlock where
  name : String
  arguments : Arguments := .none
  annotations : Annotations := {}
  deriving DecidableEq

/-- A value that a model variable takes some time after the sequence is activated. -/
structure ModelAssignment where
  offset : Duration
  value : Literal
  variableName : String
  deriving DecidableEq

/-- The activation or loading of another sequence. -/
structure SequenceCall where
  sequence : String
  arguments : Arguments := .none
  timing : Timing := .commandComplete
  annotations : Annotations := {}
  engine : Option Int64 := none
  epoch : Option String := none
  models : List ModelAssignment := []
  deriving DecidableEq

inductive Step where
  | command (body : Command)
  | groundEvent (body : GroundEvent)
  | groundBlock (body : GroundBlock)
  | activate (body : SequenceCall)
  | load (body : SequenceCall)
  deriving DecidableEq

/-- The kinds of step that a document tells apart by name. -/
inductive StepType where
  | command
  | groundEvent
  | groundBlock
  | activate
  | load
  deriving DecidableEq

namespace StepType

def name : StepType → String
  | command => "command"
  | groundEvent => "ground_event"
  | groundBlock => "ground_block"
  | activate => "activate"
  | load => "load"

def all : List StepType := [command, groundEvent, groundBlock, activate, load]

def ofName? (name : String) : Option StepType := all.find? (·.name == name)

theorem ofName?_name (t : StepType) : ofName? t.name = some t := by
  cases t <;> decide

end StepType

/-- A hardware command has no arguments. -/
structure HardwareCommand where
  stem : String
  annotations : Annotations := {}
  deriving DecidableEq

/-- An immediate command is executed on receipt. -/
structure ImmediateCommand where
  stem : String
  arguments : Arguments := .none
  annotations : Annotations := {}
  deriving DecidableEq

instance : Annotated Command := ⟨fun f x => { x with annotations := f x.annotations }⟩

instance : Annotated GroundEvent := ⟨fun f x => { x with annotations := f x.annotations }⟩

instance : Annotated GroundBlock := ⟨fun f x => { x with annotations := f x.annotations }⟩

instance : Annotated SequenceCall := ⟨fun f x => { x with annotations := f x.annotations }⟩

instance : Annotated HardwareCommand := ⟨fun f x => { x with annotations := f x.annotations }⟩

instance : Annotated ImmediateCommand := ⟨fun f x => { x with annotations := f x.annotations }⟩

/-! ### Setters -/

namespace Command

def withArguments (c : Command) (arguments : Arguments) : Command :=
  { c with arguments := arguments }

def withTiming (c : Command) (timing : Timing) : Command := { c with timing := timing }

end Command

namespace GroundEvent

def withArguments (g : GroundEvent) (arguments : Arguments) : GroundEvent :=
  { g with arguments := arguments }

def withTiming (g : GroundEvent) (timing : Timing) : GroundEvent := { g with timing := timing }

end GroundEvent

namespace GroundBlock

def withArguments (g : GroundBlock) (arguments : Arguments) : GroundBlock :=
  { g with arguments := arguments }

end GroundBlock

namespace SequenceCall

def withArguments (s : SequenceCall) (arguments : Arguments) : SequenceCall :=
  { s with arguments := arguments }

def withTiming (s : SequenceCall) (timing : Timing) : SequenceCall := { s with timing := timing }

def withEngine (s : SequenceCall) (engine : Int64) : SequenceCall :=
  { s with engine := some engine }

def withEpoch (s : SequenceCall) (epoch : String) : SequenceCall := { s with epoch := some epoch }

def withModels (s : SequenceCall) (models : List ModelAssignment) : SequenceCall :=
  { s with models := models }

end SequenceCall

namespace ImmediateCommand

def withArguments (c : ImmediateCommand) (arguments : Arguments) : ImmediateCommand :=
  { c with arguments := arguments }

end ImmediateCommand

end SeqScript
