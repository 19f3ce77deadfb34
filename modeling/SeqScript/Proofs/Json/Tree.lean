import Mathlib.Tactic.Common
import SeqScript.Json.Value
import SeqScript.Proofs.Keyed

/-!
# JSON values as trees

What the text of a value depends on beside its shape: how deep arrays and objects nest
(`Json.depth`), the numbers in it (`Json.numbers`), and whether the keys of every object increase
(`Json.KeysSorted`), as the reader makes them (`Members.ofPairs`).
-/

namespace SeqScript

namespace Json

mutual

theorem treeInduction {p : Json → Prop} (null : p null) (bool : ∀ b, p (bool b))
    (number : ∀ n, p (number n)) (string : ∀ s, p (string s))
    (array : ∀ vs, (∀ v ∈ vs, p v) → p (array vs))
    (object : ∀ ms, (∀ m ∈ ms, p m.2) → p (object ms)) : ∀ v, p v
  | .null => null
  | .bool b => bool b
  | .number n => number n
  | .string s => string s
  | .array vs => array vs (treeInductionItems null bool number string array object vs)
  | .object ms => object ms (treeInductionMembers null bool number string array object ms)

theorem treeInductionItems {p : Json → Prop} (null : p null) (bool : ∀ b, p (bool b))
    (number : ∀ n, p (number n)) (string : ∀ s, p (string s))
    (array : ∀ vs, (∀ v ∈ vs, p v) → p (array vs))
    (object : ∀ ms, (∀ m ∈ ms, p m.2) → p (object ms)) : ∀ vs : List Json, ∀ v ∈ vs, p v
  | [] => List.forall_mem_nil _
  | v :: vs => List.forall_mem_cons.2 ⟨treeInduction null bool number string array object v,
      treeInductionItems null bool number string array object vs⟩

theorem treeInductionMembers {p : Json → Prop} (null : p null) (bool : ∀ b, p (bool b))
    (number : ∀ n, p (number n)) (string : ∀ s, p (string s))
    (array : ∀ vs, (∀ v ∈ vs, p v) → p (array vs))
    (object : ∀ ms, (∀ m ∈ ms, p m.2) → p (object ms)) :
    ∀ ms : List (String × Json), ∀ m ∈ ms, p m.2
  | [] => List.forall_mem_nil _
  | (_, v) :: ms => List.forall_mem_cons.2 ⟨treeInduction null bool number string array object v,
      treeInductionMembers null bool number string array object ms⟩

end

/-! ### Depth -/

mutual

/-- How many arrays and objects contain one another. -/
def depth : Json → Nat
  | array vs => depthItems vs + 1
  | object ms => depthMembers ms + 1
  | _ => 0

def depthItems : List Json → Nat
  | [] => 0
  | v :: vs => max (depth v) (depthItems vs)

def depthMembers : List (String × Json) → Nat
  | [] => 0
  | (_, v) :: ms => max (depth v) (depthMembers ms)

end

theorem depthItems_le {d : Nat} {vs : List Json} :
    depthItems vs ≤ d ↔ ∀ v ∈ vs, v.depth ≤ d := by
  induction vs with
  | nil => simp [depthItems]
  | cons v vs ih => rw [depthItems, Nat.max_le, ih, List.forall_mem_cons]

theorem depthMembers_le {d : Nat} {ms : List (String × Json)} :
    depthMembers ms ≤ d ↔ ∀ m ∈ ms, m.2.depth ≤ d := by
  induction ms with
  | nil => simp [depthMembers]
  | cons m ms ih =>
    obtain ⟨key, v⟩ := m
    rw [depthMembers, Nat.max_le, ih, List.forall_mem_cons]

/-! ### Numbers -/

mutual

/-- The numbers of a value, in the order of its text. -/
def numbers : Json → List Number
  | number n => [n]
  | array vs => numbersItems vs
  | object ms => numbersMembers ms
  | _ => []

def numbersItems : List Json → List Number
  | [] => []
  | v :: vs => numbers v ++ numbersItems vs

def numbersMembers : List (String × Json) → List Number
  | [] => []
  | (_, v) :: ms => numbers v ++ numbersMembers ms

end

theorem forall_mem_numbersItems {p : Number → Prop} {vs : List Json} :
    (∀ n ∈ numbersItems vs, p n) ↔ ∀ v ∈ vs, ∀ n ∈ v.numbers, p n := by
  induction vs with
  | nil => exact iff_of_true (List.forall_mem_nil _) (List.forall_mem_nil _)
  | cons v vs ih => rw [numbersItems, List.forall_mem_append, ih, List.forall_mem_cons]

theorem forall_mem_numbersMembers {p : Number → Prop} {ms : List (String × Json)} :
    (∀ n ∈ numbersMembers ms, p n) ↔ ∀ m ∈ ms, ∀ n ∈ m.2.numbers, p n := by
  induction ms with
  | nil => exact iff_of_true (List.forall_mem_nil _) (List.forall_mem_nil _)
  | cons m ms ih => rw [numbersMembers, List.forall_mem_append, ih, List.forall_mem_cons]

mutual

/-- The value with a function applied to every number. -/
def mapNumbers (f : Number → Number) : Json → Json
  | number n => number (f n)
  | array vs => array (mapNumbersItems f vs)
  | object ms => object (mapNumbersMembers f ms)
  | v => v

def mapNumbersItems (f : Number → Number) : List Json → List Json
  | [] => []
  | v :: vs => mapNumbers f v :: mapNumbersItems f vs

def mapNumbersMembers (f : Number → Number) : List (String × Json) → List (String × Json)
  | [] => []
  | (key, v) :: ms => (key, mapNumbers f v) :: mapNumbersMembers f ms

end

theorem mapNumbersItems_eq_map (f : Number → Number) (vs : List Json) :
    mapNumbersItems f vs = vs.map (mapNumbers f) := by
  induction vs with
  | nil => rfl
  | cons v vs ih => rw [mapNumbersItems, ih, List.map_cons]

theorem mapNumbersMembers_eq_map (f : Number → Number) (ms : List (String × Json)) :
    mapNumbersMembers f ms = ms.map fun m => (m.1, mapNumbers f m.2) := by
  induction ms with
  | nil => rfl
  | cons m ms ih =>
    obtain ⟨key, v⟩ := m
    rw [mapNumbersMembers, ih, List.map_cons]

/-- Two functions agree on a value exactly when they agree on its numbers. -/
theorem mapNumbers_eq_iff {f g : Number → Number} (v : Json) :
    v.mapNumbers f = v.mapNumbers g ↔ ∀ n ∈ v.numbers, f n = g n := by
  induction v using treeInduction with
  | null => simp [mapNumbers, numbers]
  | bool b => simp [mapNumbers, numbers]
  | number n => simp [mapNumbers, numbers]
  | string s => simp [mapNumbers, numbers]
  | array vs ih =>
    simp only [mapNumbers, numbers, mapNumbersItems_eq_map, array.injEq, List.map_inj_left,
      forall_mem_numbersItems]
    exact forall₂_congr ih
  | object ms ih =>
    simp only [mapNumbers, numbers, mapNumbersMembers_eq_map, object.injEq, List.map_inj_left,
      forall_mem_numbersMembers, Prod.mk.injEq, true_and]
    exact forall₂_congr ih

theorem canonicalItems_eq_map (vs : List Json) : canonicalItems vs = vs.map canonical := by
  induction vs with
  | nil => rfl
  | cons v vs ih => rw [canonicalItems, List.map_cons, ih]

theorem canonicalMembers_eq_map (ms : List (String × Json)) :
    canonicalMembers ms = ms.map fun m => (m.1, m.2.canonical) := by
  induction ms with
  | nil => rfl
  | cons m ms ih => rw [canonicalMembers, List.map_cons, ih]

mutual

/-- The canonical form of a value is that of its numbers. -/
theorem canonical_eq_mapNumbers : ∀ v : Json, v.canonical = v.mapNumbers Number.canonical
  | null => rfl
  | bool _ => rfl
  | number _ => rfl
  | string _ => rfl
  | array vs => congrArg array (canonicalItems_eq_mapNumbers vs)
  | object ms => congrArg object (canonicalMembers_eq_mapNumbers ms)

theorem canonicalItems_eq_mapNumbers : ∀ vs : List Json,
    canonicalItems vs = mapNumbersItems Number.canonical vs
  | [] => rfl
  | v :: vs => by
    rw [canonicalItems, mapNumbersItems, canonical_eq_mapNumbers v,
      canonicalItems_eq_mapNumbers vs]

theorem canonicalMembers_eq_mapNumbers : ∀ ms : List (String × Json),
    canonicalMembers ms = mapNumbersMembers Number.canonical ms
  | [] => rfl
  | (key, v) :: ms => by
    rw [canonicalMembers, mapNumbersMembers, canonical_eq_mapNumbers v,
      canonicalMembers_eq_mapNumbers ms]

end

mutual

theorem mapNumbers_mapNumbers (f g : Number → Number) : ∀ v : Json,
    (v.mapNumbers f).mapNumbers g = v.mapNumbers fun n => g (f n)
  | null => rfl
  | bool _ => rfl
  | number _ => rfl
  | string _ => rfl
  | array vs => congrArg array (mapNumbersItems_mapNumbersItems f g vs)
  | object ms => congrArg object (mapNumbersMembers_mapNumbersMembers f g ms)

theorem mapNumbersItems_mapNumbersItems (f g : Number → Number) : ∀ vs : List Json,
    mapNumbersItems g (mapNumbersItems f vs) = mapNumbersItems (fun n => g (f n)) vs
  | [] => rfl
  | v :: vs => by
    simp only [mapNumbersItems, mapNumbers_mapNumbers f g v, mapNumbersItems_mapNumbersItems f g vs]

theorem mapNumbersMembers_mapNumbersMembers (f g : Number → Number) :
    ∀ ms : List (String × Json),
      mapNumbersMembers g (mapNumbersMembers f ms) = mapNumbersMembers (fun n => g (f n)) ms
  | [] => rfl
  | (key, v) :: ms => by
    simp only [mapNumbersMembers, mapNumbers_mapNumbers f g v,
      mapNumbersMembers_mapNumbersMembers f g ms]

end

/-! ### Sorted keys -/

mutual

/-- The keys of every object in the value increase. -/
def KeysSorted : Json → Prop
  | array vs => KeysSortedItems vs
  | object ms => (ms.map (·.1)).Pairwise (· < ·) ∧ KeysSortedMembers ms
  | _ => True

def KeysSortedItems : List Json → Prop
  | [] => True
  | v :: vs => KeysSorted v ∧ KeysSortedItems vs

def KeysSortedMembers : List (String × Json) → Prop
  | [] => True
  | (_, v) :: ms => KeysSorted v ∧ KeysSortedMembers ms

end

theorem keysSortedItems_iff {vs : List Json} : KeysSortedItems vs ↔ ∀ v ∈ vs, v.KeysSorted := by
  induction vs with
  | nil => simp [KeysSortedItems]
  | cons v vs ih => simp [KeysSortedItems, ih]

theorem keysSortedMembers_iff {ms : List (String × Json)} :
    KeysSortedMembers ms ↔ ∀ m ∈ ms, m.2.KeysSorted := by
  induction ms with
  | nil => simp [KeysSortedMembers]
  | cons m ms ih =>
    obtain ⟨key, v⟩ := m
    simp [KeysSortedMembers, ih]

end Json

namespace Members

/-- Members are listed in increasing order, whatever the order they are given in. -/
theorem keysSorted_ofPairs {pairs : List (String × Json)} (h : ∀ m ∈ pairs, m.2.KeysSorted) :
    (Json.object (ofPairs pairs)).KeysSorted := by
  refine Keyed.insertAll_induction (p := fun ms => (Json.object ms).KeysSorted)
    ⟨List.Pairwise.nil, trivial⟩ fun m hm ms hms => ?_
  refine ⟨Keyed.pairwise_insert hms.1, Json.keysSortedMembers_iff.2 fun e he => ?_⟩
  rcases Keyed.mem_insert he with rfl | he
  · exact h m hm
  · exact Json.keysSortedMembers_iff.1 hms.2 e he

end Members

end SeqScript
