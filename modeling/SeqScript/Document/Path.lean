/-!
# Paths into a document

A path goes down from the whole document by field names and indices, and is written
`steps[1].args[0].value`.
-/

namespace SeqScript.Document

inductive Segment where
  | field (name : String)
  | index (position : Nat)
  deriving DecidableEq

abbrev Path := List Segment

namespace Path

/-- The text of a path that continues another. -/
def continuation : Path → String
  | [] => ""
  | .field name :: rest => "." ++ name ++ continuation rest
  | .index i :: rest => "[" ++ toString i ++ "]" ++ continuation rest

def text : Path → String
  | .field name :: rest => name ++ continuation rest
  | path => continuation path

end Path

end SeqScript.Document
