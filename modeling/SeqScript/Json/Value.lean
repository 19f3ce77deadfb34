import SeqScript.Keyed
import SeqScript.Number.Basic

/-!
# JSON values

The members of an object are listed with their keys; a document that was read has its keys in
increasing order, each once (`Members.ofPairs`).  Equality of values as trees is decidable;
`Json.canonical` also identifies the two zeros, and two values are the same document content
exactly when their canonical forms are equal.
-/

namespace SeqScript

inductive Json where
  | null
  | bool (value : Bool)
  | number (value : Number)
  | string (value : String)
  | array (items : List Json)
  | object (members : List (String × Json))

/-- The members of an object. -/
abbrev Members := Keyed Json

namespace Json

instance : Inhabited Json := ⟨null⟩

/-! ### Decidable equality -/

mutual

def eqv : Json → Json → Bool
  | null, null => true
  | bool a, bool b => a == b
  | number a, number b => a == b
  | string a, string b => a == b
  | array as, array bs => eqvItems as bs
  | object as, object bs => eqvMembers as bs
  | _, _ => false

def eqvItems : List Json → List Json → Bool
  | [], [] => true
  | a :: as, b :: bs => eqv a b && eqvItems as bs
  | _, _ => false

def eqvMembers : List (String × Json) → List (String × Json) → Bool
  | [], [] => true
  | (k, a) :: as, (l, b) :: bs => k == l && eqv a b && eqvMembers as bs
  | _, _ => false

end

mutual

theorem eqv_iff : ∀ a b : Json, eqv a b = true ↔ a = b
  | null, b => by cases b <;> simp [eqv]
  | bool _, b => by cases b <;> simp [eqv]
  | number _, b => by cases b <;> simp [eqv]
  | string _, b => by cases b <;> simp [eqv]
  | array as, b => by cases b <;> simp [eqv, eqvItems_iff as]
  | object as, b => by cases b <;> simp [eqv, eqvMembers_iff as]

theorem eqvItems_iff : ∀ as bs : List Json, eqvItems as bs = true ↔ as = bs
  | [], bs => by cases bs <;> simp [eqvItems]
  | a :: as, bs => by cases bs <;> simp [eqvItems, eqv_iff a, eqvItems_iff as]

theorem eqvMembers_iff : ∀ as bs : List (String × Json), eqvMembers as bs = true ↔ as = bs
  | [], bs => by cases bs <;> simp [eqvMembers]
  | (k, a) :: as, bs => by
    rcases bs with _ | ⟨⟨l, b⟩, bs⟩ <;> simp [eqvMembers, eqv_iff a, eqvMembers_iff as]

end

instance : DecidableEq Json := fun a b => decidable_of_iff _ (eqv_iff a b)

/-! ### Canonical numbers -/

mutual

/-- The value with every number canonical. -/
def canonical : Json → Json
  | number n => number n.canonical
  | array items => array (canonicalItems items)
  | object members => object (canonicalMembers members)
  | v => v

def canonicalItems : List Json → List Json
  | [] => []
  | v :: vs => canonical v :: canonicalItems vs

def canonicalMembers : List (String × Json) → List (String × Json)
  | [] => []
  | (k, v) :: ms => (k, canonical v) :: canonicalMembers ms

end

end Json

namespace Members

export Keyed (insert ofPairs)

def get? (ms : Members) (key : String) : Option Json := List.lookup key ms

def canonical (ms : Members) : Members := Json.canonicalMembers ms

end Members

end SeqScript
