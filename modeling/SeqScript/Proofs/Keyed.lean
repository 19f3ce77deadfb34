import Mathlib.Data.List.Basic
import Mathlib.Tactic.Common
import SeqScript.Keyed

/-!
# Maps keyed by text, whatever the order they are filled in

Putting an entry in keeps the keys increasing and, when its key is new, adds it to the entries.  So
entries with distinct keys make the one sorted list of them (`Keyed.ofPairs_eq_of_perm`).  A list of
named values, some of them absent, lists those that are there (`present`).
-/

namespace SeqScript

/-! ### Values under a key -/

section

variable {α : Type} {es : List (String × α)} {key : String} {value : α}

theorem mem_of_lookup_eq_some (h : es.lookup key = some value) : (key, value) ∈ es := by
  obtain ⟨before, after, rfl, -⟩ := List.lookup_eq_some_iff.1 h
  exact List.mem_append_right before List.mem_cons_self

theorem lookup_eq_some_of_mem (distinct : (es.map (·.1)).Nodup) (h : (key, value) ∈ es) :
    es.lookup key = some value := by
  induction es with
  | nil => contradiction
  | cons e es ih =>
    rw [List.map_cons, List.nodup_cons] at distinct
    rcases List.mem_cons.1 h with rfl | h
    · exact List.lookup_cons_self
    · have other : (key == e.1) = false :=
        beq_false_of_ne fun same => distinct.1 (same ▸ List.mem_map_of_mem h)
      rw [List.lookup_cons, other]
      exact ih distinct.2 h

theorem lookup_eq_some_iff_mem (distinct : (es.map (·.1)).Nodup) :
    es.lookup key = some value ↔ (key, value) ∈ es :=
  ⟨mem_of_lookup_eq_some, lookup_eq_some_of_mem distinct⟩

end

namespace Keyed

variable {α : Type} {key : String} {value : α} {ms : Keyed α}

/-! ### One entry put in -/

theorem mem_insert {e : String × α} (h : e ∈ insert key value ms) : e = (key, value) ∨ e ∈ ms := by
  fun_induction insert key value ms with
  | case1 => exact List.mem_cons.1 h
  | case2 => exact List.mem_cons.1 h
  | case3 => exact (List.mem_cons.1 h).imp_right (List.mem_cons_of_mem _)
  | case4 k v ms _ _ ih =>
    rcases List.mem_cons.1 h with rfl | h
    · exact .inr List.mem_cons_self
    · exact (ih h).imp_right (List.mem_cons_of_mem _)

theorem mem_keys_insert {k : String} (h : k ∈ (insert key value ms).map (·.1)) :
    k = key ∨ k ∈ ms.map (·.1) := by
  obtain ⟨e, mem, rfl⟩ := List.mem_map.1 h
  rcases mem_insert mem with rfl | mem
  · exact .inl rfl
  · exact .inr (List.mem_map_of_mem mem)

theorem pairwise_insert (h : (ms.map (·.1)).Pairwise (· < ·)) :
    ((insert key value ms).map (·.1)).Pairwise (· < ·) := by
  fun_induction insert key value ms with
  | case1 => exact List.pairwise_singleton _ _
  | case2 k v ms before =>
    refine List.pairwise_cons.2 ⟨List.forall_mem_cons.2 ⟨before, fun l mem => ?_⟩, h⟩
    exact String.lt_trans before ((List.pairwise_cons.1 h).1 l mem)
  | case3 => exact h
  | case4 k v ms notBefore differs ih =>
    obtain ⟨least, rest⟩ := List.pairwise_cons.1 h
    refine List.pairwise_cons.2 ⟨fun l mem => ?_, ih rest⟩
    rcases mem_keys_insert mem with rfl | mem
    · exact Std.lt_of_le_of_ne (String.not_lt.1 notBefore) (Ne.symm differs)
    · exact least l mem

/-- An entry with a new key is one more. -/
theorem perm_insert (new : key ∉ ms.map (·.1)) :
    (insert key value ms).Perm ((key, value) :: ms) := by
  fun_induction insert key value ms with
  | case1 => exact .refl _
  | case2 => exact .refl _
  | case3 => exact absurd List.mem_cons_self new
  | case4 k v ms _ _ ih =>
    exact ((ih (mt (List.mem_cons_of_mem _) new)).cons _).trans (.swap _ _ _)

theorem lookup_insert_self : (insert key value ms).lookup key = some value := by
  fun_induction insert key value ms with
  | case1 => exact List.lookup_cons_self
  | case2 => exact List.lookup_cons_self
  | case3 => exact List.lookup_cons_self
  | case4 k v ms _ differs ih =>
    rw [List.lookup_cons, beq_false_of_ne differs]
    exact ih

theorem lookup_insert_of_ne {name : String} (h : name ≠ key) :
    (insert key value ms).lookup name = ms.lookup name := by
  have other : (name == key) = false := beq_false_of_ne h
  fun_induction insert key value ms with
  | case1 => rw [List.lookup_cons, other]
  | case2 => rw [List.lookup_cons, other]
  | case3 => rw [List.lookup_cons, List.lookup_cons, other]
  | case4 k v ms _ _ ih => rw [List.lookup_cons, List.lookup_cons, ih]

/-- What is looked for at every entry does not tell two values of one key apart. -/
theorem findSome?_insert {β : Type} {f : String × α → Option β} {v w : α}
    (h : f (key, v) = f (key, w)) :
    (insert key v ms).findSome? f = (insert key w ms).findSome? f := by
  induction ms with
  | nil => rw [insert, insert, List.findSome?_cons, List.findSome?_cons, h]
  | cons m ms ih =>
    rw [insert, insert]
    split_ifs
    · rw [List.findSome?_cons, h, ← List.findSome?_cons]
    · rw [List.findSome?_cons, h, ← List.findSome?_cons]
    · rw [List.findSome?_cons, List.findSome?_cons, ih]

/-! ### Many entries put in -/

theorem insertAll_insertAll (ms : Keyed α) (as bs : List (String × α)) :
    (ms.insertAll as).insertAll bs = ms.insertAll (as ++ bs) :=
  (List.foldl_append ..).symm

theorem insertAll_induction {p : Keyed α → Prop} {pairs : List (String × α)} (start : p ms)
    (insert : ∀ m ∈ pairs, ∀ ms, p ms → p (insert m.1 m.2 ms)) : p (ms.insertAll pairs) :=
  List.foldlRecOn pairs _ start fun ms hms m hm => insert m hm ms hms

theorem pairwise_ofPairs (pairs : List (String × α)) :
    ((ofPairs pairs).map (·.1)).Pairwise (· < ·) :=
  insertAll_induction (p := fun ms => (ms.map (·.1)).Pairwise (· < ·)) .nil
    fun _ _ _ => pairwise_insert

theorem mem_ofPairs {pairs : List (String × α)} {e : String × α} (h : e ∈ ofPairs pairs) :
    e ∈ pairs := by
  refine insertAll_induction (p := fun ms => e ∈ ms → e ∈ pairs)
    (fun none => absurd none List.not_mem_nil) (fun m mem ms rest h => ?_) h
  exact (mem_insert h).elim (· ▸ mem) rest

/-- Entries with new and distinct keys are all there. -/
theorem perm_insertAll {pairs : List (String × α)} (distinct : ((ms ++ pairs).map (·.1)).Nodup) :
    (ms.insertAll pairs).Perm (ms ++ pairs) := by
  induction pairs generalizing ms with
  | nil => exact .of_eq (List.append_nil ms).symm
  | cons m pairs ih =>
    have moved : (m :: (ms ++ pairs)).Perm (ms ++ m :: pairs) := List.perm_middle.symm
    have apart := (moved.map (·.1)).nodup_iff.2 distinct
    obtain ⟨new, -⟩ := List.nodup_cons.1 apart
    have added : (insert m.1 m.2 ms).Perm (m :: ms) :=
      perm_insert fun mem => new (List.map_append ▸ List.mem_append_left _ mem)
    have both := added.append_right pairs
    exact ((ih ((both.map (·.1)).nodup_iff.2 apart)).trans both).trans moved

/-- Entries with distinct keys make the sorted list of them, whatever their order. -/
theorem ofPairs_eq_of_perm {pairs : List (String × α)} (sorted : (ms.map (·.1)).Pairwise (· < ·))
    (same : pairs.Perm ms) : ofPairs pairs = ms := by
  have keys : (ms.map (·.1)).Nodup := sorted.imp String.ne_of_lt
  have distinct : (pairs.map (·.1)).Nodup := (same.map (·.1)).nodup_iff.2 keys
  have all : (ofPairs pairs).Perm ms := (perm_insertAll distinct).trans same
  refine List.Perm.eq_of_pairwise (fun a b _ _ ab ba => ?_)
    (List.pairwise_map.1 (pairwise_ofPairs pairs)) (List.pairwise_map.1 sorted) all
  exact absurd ba (String.lt_asymm ab)

/-- Entries in increasing order are listed as they are. -/
theorem ofPairs_eq_self (h : (ms.map (·.1)).Pairwise (· < ·)) : ofPairs ms = ms :=
  ofPairs_eq_of_perm h (.refl ms)

end Keyed

/-! ### Values that may be absent -/

/-- Named values, those that are absent left out. -/
def present {α : Type} (slots : List (String × Option α)) : List (String × α) :=
  slots.filterMap fun s => s.2.map fun value => (s.1, value)

section

variable {α : Type} {slots : List (String × Option α)}

theorem present_nil : present ([] : List (String × Option α)) = [] := rfl

theorem present_cons (name : String) (v : Option α) (slots : List (String × Option α)) :
    present ((name, v) :: slots) = v.toList.map (name, ·) ++ present slots := by
  cases v <;> rfl

theorem mem_present {e : String × α} : e ∈ present slots ↔ (e.1, some e.2) ∈ slots := by
  simp only [present, List.mem_filterMap, Option.map_eq_some_iff]
  constructor
  · rintro ⟨s, mem, v, shown, rfl⟩
    exact shown ▸ mem
  · intro mem
    exact ⟨_, mem, e.2, rfl, rfl⟩

theorem names_present_sublist (slots : List (String × Option α)) :
    ((present slots).map (·.1)).Sublist (slots.map (·.1)) := by
  induction slots with
  | nil => exact .slnil
  | cons s slots ih =>
    obtain ⟨name, v⟩ := s
    rcases v with _ | v
    · exact ih.cons _
    · exact ih.cons_cons _

/-- Under a name that no other value has, its value is found if it is there. -/
theorem lookup_present (distinct : (slots.map (·.1)).Nodup) (name : String) :
    (present slots).lookup name = (slots.lookup name).join := by
  have kept := distinct.sublist (names_present_sublist slots)
  refine Option.ext fun v => ?_
  rw [lookup_eq_some_iff_mem kept, mem_present, ← lookup_eq_some_iff_mem distinct,
    Option.join_eq_some_iff]

/-- The values that are there make a map in the order of their names, however they are put in. -/
theorem ofPairs_present {slots' : List (String × Option α)}
    (sorted : (slots.map (·.1)).Pairwise (· < ·)) (same : slots'.Perm slots) :
    Keyed.ofPairs (present slots') = present slots :=
  Keyed.ofPairs_eq_of_perm (sorted.sublist (names_present_sublist slots)) (same.filterMap _)

end

end SeqScript
