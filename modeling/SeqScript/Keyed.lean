/-!
# Maps keyed by text

A map is listed by its entries, each key once and in increasing order.  Entries are put in one
after another (`Keyed.insertAll`), so the order in which they are listed does not depend on the
order in which they are given.
-/

namespace SeqScript

/-- The entries of a map, in increasing order of their keys. -/
abbrev Keyed (α : Type) := List (String × α)

namespace Keyed

variable {α : Type}

/-- The entries with one more, in place of an earlier one of the same key. -/
def insert (key : String) (value : α) : Keyed α → Keyed α
  | [] => [(key, value)]
  | (k, v) :: ms =>
    if key < k then (key, value) :: (k, v) :: ms
    else if key = k then (key, value) :: ms
    else (k, v) :: insert key value ms

/-- The entries with others put in, one after another. -/
def insertAll (ms : Keyed α) (pairs : List (String × α)) : Keyed α :=
  pairs.foldl (fun ms (k, v) => insert k v ms) ms

/-- The entries given in any order: sorted by key, and the last of a repeated key. -/
def ofPairs (pairs : List (String × α)) : Keyed α := insertAll [] pairs

end Keyed

end SeqScript
