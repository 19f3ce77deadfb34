import Mathlib.Data.List.Basic
import Mathlib.Data.List.Induction
import Mathlib.Logic.Function.Basic
import SeqScript.Model.Step

/-!
# Values built by setters

A step or command starts from its name alone and is built by calls to its setters, of which it
shares two with all the others.  A setter replaces what an earlier call to it gave and leaves the
rest alone, so the last value given to each setter tells what is built (`build_eq_ofSettings`).
-/

namespace SeqScript

inductive Setter where
  | arguments
  | description
  | engine
  | epoch
  | metadata
  | models
  | timing
  deriving DecidableEq

namespace Setter

/-- What is given to a setter. -/
abbrev Value : Setter → Type
  | arguments => Arguments
  | description => String
  | engine => Int64
  | epoch => String
  | metadata => Metadata
  | models => List ModelAssignment
  | timing => Timing

/-- An engine, an epoch and a timing are never empty. -/
def isEmpty : (s : Setter) → s.Value → Bool
  | arguments, a => Arguments.isEmpty a
  | description, d => String.isEmpty d
  | metadata, m => List.isEmpty m
  | models, ms => List.isEmpty ms
  | engine, _ => false
  | epoch, _ => false
  | timing, _ => false

end Setter

/-- A type of values that start from a name and have some of the setters. -/
class Settable (α : Type) where
  new : String → α
  set? : (s : Setter) → Option (α → s.Value → α)

instance : Settable Command where
  new stem := { stem }
  set?
    | .arguments => some Command.withArguments
    | .description => some withDescription
    | .metadata => some withMetadata
    | .timing => some Command.withTiming
    | _ => none

instance : Settable GroundEvent where
  new name := { name }
  set?
    | .arguments => some GroundEvent.withArguments
    | .description => some withDescription
    | .metadata => some withMetadata
    | .timing => some GroundEvent.withTiming
    | _ => none

instance : Settable GroundBlock where
  new name := { name }
  set?
    | .arguments => some GroundBlock.withArguments
    | .description => some withDescription
    | .metadata => some withMetadata
    | _ => none

instance : Settable SequenceCall where
  new sequence := { sequence }
  set?
    | .arguments => some SequenceCall.withArguments
    | .description => some withDescription
    | .engine => some SequenceCall.withEngine
    | .epoch => some SequenceCall.withEpoch
    | .metadata => some withMetadata
    | .models => some SequenceCall.withModels
    | .timing => some SequenceCall.withTiming

instance : Settable HardwareCommand where
  new stem := { stem }
  set?
    | .description => some withDescription
    | .metadata => some withMetadata
    | _ => none

instance : Settable ImmediateCommand where
  new stem := { stem }
  set?
    | .arguments => some ImmediateCommand.withArguments
    | .description => some withDescription
    | .metadata => some withMetadata
    | _ => none

/-! ### Calls -/

/-- A call to a setter that the type has. -/
structure Setting (α : Type) [Settable α] where
  setter : Setter
  value : setter.Value
  available : (Settable.set? setter : Option (α → setter.Value → α)).isSome

section

variable {α : Type} [Settable α]

namespace Setting

def call (c : Setting α) (x : α) : α := (Settable.set? c.setter).get c.available x c.value

/-- The value that is given, if it is given to this setter. -/
def value? (s : Setter) (c : Setting α) : Option s.Value :=
  if h : c.setter = s then some (h ▸ c.value) else none

end Setting

/-- What calls build, one after another, from a name. -/
def build (name : String) (calls : List (Setting α)) : α :=
  calls.foldl (fun x c => c.call x) (Settable.new name)

/-- The value that the last call to a setter gave. -/
def lastValue (calls : List (Setting α)) (s : Setter) : Option s.Value :=
  (calls.filterMap (·.value? s)).getLast?

/-- The calls to each setter are the same, in the same order. -/
def Reordered (calls calls' : List (Setting α)) : Prop :=
  ∀ s, calls.filter (·.setter = s) = calls'.filter (·.setter = s)

theorem filterMap_value? (s : Setter) (calls : List (Setting α)) :
    (calls.filter (·.setter = s)).filterMap (·.value? s) = calls.filterMap (·.value? s) := by
  rw [List.filterMap_filter]
  refine List.filterMap_congr fun c _ => ?_
  by_cases h : c.setter = s <;> simp [Setting.value?, h]

theorem Reordered.lastValue_eq {calls calls' : List (Setting α)} (h : Reordered calls calls') :
    lastValue calls = lastValue calls' := by
  funext s
  rw [lastValue, lastValue, ← filterMap_value?, h s, filterMap_value?]

theorem build_concat (name : String) (calls : List (Setting α)) (c : Setting α) :
    build name (calls ++ [c]) = c.call (build name calls) := by
  rw [build, List.foldl_append]
  rfl

theorem lastValue_concat (calls : List (Setting α)) (c : Setting α) :
    lastValue (calls ++ [c]) = Function.update (lastValue calls) c.setter (some c.value) := by
  funext s
  rw [lastValue, List.filterMap_append, List.getLast?_append]
  by_cases h : c.setter = s
  · subst h
    simp [Setting.value?]
  · rw [Function.update_of_ne (Ne.symm h)]
    simp [Setting.value?, h, lastValue]

end

/-! ### Settings -/

/-- The values that setters were given. -/
abbrev Settings := (s : Setter) → Option s.Value

/-- The values of the type are told by a name and settings, of which each setter replaces one. -/
class LawfulSettable (α : Type) [Settable α] where
  ofSettings : String → Settings → α
  ofSettings_none (name : String) : ofSettings name (fun _ => none) = Settable.new name
  set_ofSettings (name : String) (σ : Settings) {s : Setter} {set : α → s.Value → α}
    (h : Settable.set? s = some set) (v : s.Value) :
    set (ofSettings name σ) v = ofSettings name (Function.update σ s (some v))

open LawfulSettable

theorem build_eq_ofSettings {α : Type} [Settable α] [LawfulSettable α] (name : String)
    (calls : List (Setting α)) : build name calls = ofSettings name (lastValue calls) := by
  -- By induction from the last call, which is the one that replaces a setting.
  induction calls using List.reverseRecOn with
  | nil => exact (ofSettings_none name).symm
  | append_singleton calls c ih =>
    rw [build_concat, ih, lastValue_concat]
    exact set_ofSettings name _ (Option.some_get c.available).symm c.value

namespace Settings

variable (σ : Settings)

def annotations : Annotations := ⟨σ .description, (σ .metadata).getD []⟩

def arguments : Arguments := (σ .arguments).getD .none

def timing : Timing := (σ .timing).getD .commandComplete

/-- The settings of some setters, without those of the others. -/
def only (setters : List Setter) : Settings := fun s => if s ∈ setters then σ s else none

theorem mem_only {σ : Settings} {setters : List Setter} {s : Setter} {v : s.Value} :
    v ∈ σ.only setters s ↔ s ∈ setters ∧ v ∈ σ s := by
  unfold only
  split_ifs with h <;> simp [h]

end Settings

instance : LawfulSettable Command where
  ofSettings stem σ := ⟨stem, σ.arguments, σ.timing, σ.annotations⟩
  ofSettings_none _ := rfl
  set_ofSettings _ _ s _ h _ := by cases s <;> cases h <;> rfl

instance : LawfulSettable GroundEvent where
  ofSettings name σ := ⟨name, σ.arguments, σ.timing, σ.annotations⟩
  ofSettings_none _ := rfl
  set_ofSettings _ _ s _ h _ := by cases s <;> cases h <;> rfl

instance : LawfulSettable GroundBlock where
  ofSettings name σ := ⟨name, σ.arguments, σ.annotations⟩
  ofSettings_none _ := rfl
  set_ofSettings _ _ s _ h _ := by cases s <;> cases h <;> rfl

instance : LawfulSettable SequenceCall where
  ofSettings sequence σ := ⟨sequence, σ.arguments, σ.timing, σ.annotations, σ .engine, σ .epoch,
    (σ .models).getD []⟩
  ofSettings_none _ := rfl
  set_ofSettings _ _ s _ h _ := by cases s <;> cases h <;> rfl

instance : LawfulSettable HardwareCommand where
  ofSettings stem σ := ⟨stem, σ.annotations⟩
  ofSettings_none _ := rfl
  set_ofSettings _ _ s _ h _ := by cases s <;> cases h <;> rfl

instance : LawfulSettable ImmediateCommand where
  ofSettings stem σ := ⟨stem, σ.arguments, σ.annotations⟩
  ofSettings_none _ := rfl
  set_ofSettings _ _ s _ h _ := by cases s <;> cases h <;> rfl

end SeqScript
