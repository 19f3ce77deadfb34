import SeqScript.Document.Error
import SeqScript.Text.OneLine

/-!
# Warnings

What is odd but no reason to refuse a document is logged beside the result (`Logged`).
-/

namespace SeqScript

inductive Warning where
  /-- A name of the sequence is declared in both lists. -/
  | shadowed (sequenceId name : String)
  | undefined (name : String)
  /-- A document of many was refused. -/
  | refused (index : Nat) (error : Document.ValidationError)
  /-- Documents of a run were refused, so many of all. -/
  | someRefused (count total : Nat)
  deriving DecidableEq

namespace Warning

/-- What is said of a symbol that neither list declares. -/
def undefinedMessage (name : String) : String :=
  "Variable '" ++ name ++ "' is not defined as a local or parameter"

def message : Warning → String
  | shadowed sequenceId name =>
    "sequence '" ++ sequenceId ++ "': '" ++ name ++
      "' is declared as both a local and a parameter; references resolve to the local"
  | undefined name => undefinedMessage name
  | refused index error => "document " ++ toString index ++ ": " ++ error.display
  | someRefused count total =>
    "some documents failed validation failed=" ++ toString count ++ " total=" ++ toString total

/-- The warning as it is logged, on one line. -/
def line (w : Warning) : String := Text.oneLine w.message

end Warning

/-- A value with the warnings that were logged on the way to it, in order. -/
structure Logged (α : Type) where
  value : α
  warnings : List Warning := []

namespace Logged

variable {α β : Type}

def log (w : Warning) : Logged Unit := ⟨(), [w]⟩

instance : Monad Logged where
  pure a := ⟨a, []⟩
  bind x f := ⟨(f x.value).value, x.warnings ++ (f x.value).warnings⟩

@[simp] theorem value_pure (a : α) : (pure a : Logged α).value = a := rfl

@[simp] theorem warnings_pure (a : α) : (pure a : Logged α).warnings = [] := rfl

@[simp] theorem value_bind (x : Logged α) (f : α → Logged β) :
    (x >>= f).value = (f x.value).value := rfl

@[simp] theorem warnings_bind (x : Logged α) (f : α → Logged β) :
    (x >>= f).warnings = x.warnings ++ (f x.value).warnings := rfl

def map (f : α → β) (x : Logged α) : Logged β := ⟨f x.value, x.warnings⟩

/-- The values of a list in order, with all their warnings. -/
def each (f : α → Logged β) : List α → Logged (List β)
  | [] => pure []
  | a :: as => do
    let b ← f a
    let bs ← each f as
    return b :: bs

theorem value_each (f : α → Logged β) (as : List α) :
    (each f as).value = as.map fun a => (f a).value := by
  induction as with
  | nil => rfl
  | cons a as ih => simp [each, ih]

theorem warnings_each (f : α → Logged β) (as : List α) :
    (each f as).warnings = as.flatMap fun a => (f a).warnings := by
  induction as with
  | nil => rfl
  | cons a as ih => simp [each, ih]

end Logged

end SeqScript
