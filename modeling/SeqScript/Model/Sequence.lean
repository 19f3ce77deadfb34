import SeqScript.Model.Scope
import SeqScript.Model.Step

/-!
# Sequences

A sequence is an id, metadata and six optional lists.  An absent list and an empty one are told
apart, so that a document keeps the fields it had.
-/

namespace SeqScript

/-- A named anchor in time for a request. -/
structure GroundEpoch where
  name : Option String := none
  delta : Option String := none
  deriving DecidableEq

/-- A named bundle of steps with its own anchor in time. -/
structure Request where
  name : String
  steps : List Step := []
  groundEpoch : Option GroundEpoch := none
  annotations : Annotations := {}
  deriving DecidableEq

instance : Annotated Request := ⟨fun f x => { x with annotations := f x.annotations }⟩

def Request.withGroundEpoch (r : Request) (name delta : String) : Request :=
  { r with groundEpoch := some ⟨some name, some delta⟩ }

structure Sequence where
  id : String
  metadata : Metadata := []
  locals : Option (List Variable) := none
  parameters : Option (List Variable) := none
  hardwareCommands : Option (List HardwareCommand) := none
  immediateCommands : Option (List ImmediateCommand) := none
  steps : Option (List Step) := none
  requests : Option (List Request) := none
  deriving DecidableEq

namespace Sequence

/-- The empty sequence with the empty id. -/
def blank : Sequence := { id := "" }

instance : Inhabited Sequence := ⟨blank⟩

def withMetadata (s : Sequence) (metadata : Metadata) : Sequence := { s with metadata := metadata }

/-- Declares locals, each tagged as one. -/
def withLocals (s : Sequence) (locals : List Variable) : Sequence :=
  { s with locals := some (locals.map (·.withKind .locals)) }

/-- Declares parameters, each tagged as one. -/
def withParameters (s : Sequence) (parameters : List Variable) : Sequence :=
  { s with parameters := some (parameters.map (·.withKind .parameters)) }

def withHardwareCommands (s : Sequence) (commands : List HardwareCommand) : Sequence :=
  { s with hardwareCommands := some commands }

def withImmediateCommands (s : Sequence) (commands : List ImmediateCommand) : Sequence :=
  { s with immediateCommands := some commands }

def withSteps (s : Sequence) (steps : List Step) : Sequence := { s with steps := some steps }

def withRequests (s : Sequence) (requests : List Request) : Sequence :=
  { s with requests := some requests }

/-- The scope that the symbols of the sequence are looked up in. -/
def scope (s : Sequence) : Scope := ⟨s.locals.getD [], s.parameters.getD []⟩

end Sequence

end SeqScript
