/-!
# Render options
-/

namespace SeqScript

structure Options where
  /-- Put an error comment before the comma of its member, not after it. -/
  legacyErrorComments : Bool := false
  /-- How many workers share the documents of a bulk conversion. -/
  jobs : Nat := 1
  deriving DecidableEq

end SeqScript
