import SeqScript.Json.Reader
import SeqScript.Proofs.Json.Tree

/-!
# Values that are read

The members of every object that is read are listed by increasing keys (`Json.keysSorted_of_read`).
-/

namespace SeqScript.Json

open Reading

variable {α : Type} {p : α → Prop}

/-- What every item that is read satisfies, the items of a list do. -/
theorem readItems_forall {item : List Char → Reading α}
    (h : ∀ cs a rest, item cs = .ok (a, rest) → p a) {bound : List Char} {seen : List α}
    {cs rest : List Char} {as : List α} (before : ∀ a ∈ seen, p a)
    (read : readItems item bound seen cs = .ok (as, rest)) : ∀ a ∈ as, p a := by
  induction bound generalizing seen cs with
  | nil => contradiction
  | cons b bound ih =>
    unfold readItems at read
    split at read
    · contradiction
    · obtain ⟨rfl, -⟩ := Prod.mk.inj (Except.ok.inj read)
      exact fun a ha => before a (List.mem_reverse.1 ha)
    · split at read
      · contradiction
      · contradiction
      · split at read
        · contradiction
        · rename_i a rest found
          exact ih (List.forall_mem_cons.2 ⟨h _ _ _ found, before⟩) read
    · contradiction

theorem readList_forall {item : List Char → Reading α}
    (h : ∀ cs a rest, item cs = .ok (a, rest) → p a) {cs rest : List Char} {as : List α}
    (read : readList item cs = .ok (as, rest)) : ∀ a ∈ as, p a := by
  unfold readList at read
  split at read
  · contradiction
  · obtain ⟨rfl, -⟩ := Prod.mk.inj (Except.ok.inj read)
    exact List.forall_mem_nil _
  · split at read
    · contradiction
    · rename_i a rest found
      exact readItems_forall h (List.forall_mem_singleton.2 (h _ _ _ found)) read

theorem readMember_forall {value : List Char → Reading α}
    (h : ∀ cs a rest, value cs = .ok (a, rest) → p a) {cs rest : List Char} {m : String × α}
    (read : readMember value cs = .ok (m, rest)) : p m.2 := by
  unfold readMember at read
  split at read
  · contradiction
  · split at read
    · contradiction
    · split at read
      · contradiction
      · rename_i v rest found
        obtain ⟨rfl, -⟩ := Prod.mk.inj (Except.ok.inj read)
        exact h _ _ _ found

theorem readMembers_forall {value : List Char → Reading α}
    (h : ∀ cs a rest, value cs = .ok (a, rest) → p a) {bound : List Char}
    {seen : List (String × α)} {cs rest : List Char} {ms : List (String × α)}
    (before : ∀ m ∈ seen, p m.2) (read : readMembers value bound seen cs = .ok (ms, rest)) :
    ∀ m ∈ ms, p m.2 := by
  induction bound generalizing seen cs with
  | nil => contradiction
  | cons b bound ih =>
    unfold readMembers at read
    split at read
    · contradiction
    · obtain ⟨rfl, -⟩ := Prod.mk.inj (Except.ok.inj read)
      exact fun m hm => before m (List.mem_reverse.1 hm)
    · split at read
      · contradiction
      · split at read
        · contradiction
        · rename_i m rest found
          exact ih (List.forall_mem_cons.2 ⟨readMember_forall h found, before⟩) read
      · contradiction
      · contradiction
    · contradiction

theorem readObject_forall {value : List Char → Reading α}
    (h : ∀ cs a rest, value cs = .ok (a, rest) → p a) {cs rest : List Char}
    {ms : List (String × α)} (read : readObject value cs = .ok (ms, rest)) : ∀ m ∈ ms, p m.2 := by
  unfold readObject at read
  split at read
  · contradiction
  · obtain ⟨rfl, -⟩ := Prod.mk.inj (Except.ok.inj read)
    exact List.forall_mem_nil _
  · split at read
    · contradiction
    · rename_i m rest found
      exact readMembers_forall h (List.forall_mem_singleton.2 (readMember_forall h found)) read
  · contradiction

theorem wrap_eq_ok {f : α → Json} {r : Reading α} {v : Json} {rest : List Char}
    (h : wrap f r = .ok (v, rest)) : ∃ a, r = .ok (a, rest) ∧ f a = v := by
  rcases r with stop | ⟨a, cs⟩
  · contradiction
  · obtain ⟨rfl, rfl⟩ := Prod.mk.inj (Except.ok.inj h)
    exact ⟨a, rfl, rfl⟩

theorem keysSorted_of_wrap {f : α → Json} {r : Reading α} {v : Json} {rest : List Char}
    (h : wrap f r = .ok (v, rest)) (plain : ∀ a, (f a).KeysSorted) : v.KeysSorted := by
  obtain ⟨a, -, rfl⟩ := wrap_eq_ok h
  exact plain a

theorem keysSorted_of_readScalar {cs rest : List Char} {v : Json}
    (h : readScalar cs = .ok (v, rest)) : v.KeysSorted := by
  unfold readScalar at h
  split at h
  · contradiction
  · exact keysSorted_of_wrap h fun _ => trivial
  · exact keysSorted_of_wrap h fun _ => trivial
  · exact keysSorted_of_wrap h fun _ => trivial
  · exact keysSorted_of_wrap h fun _ => trivial
  · exact keysSorted_of_wrap h fun _ => trivial
  · split_ifs at h
    · exact keysSorted_of_wrap h fun _ => trivial
    · contradiction

theorem keysSorted_of_readValue {d : Nat} {cs rest : List Char} {v : Json}
    (h : readValue d cs = .ok (v, rest)) : v.KeysSorted := by
  induction d generalizing cs rest v with
  | zero =>
    unfold readValue at h
    split at h
    · contradiction
    · contradiction
    · exact keysSorted_of_readScalar h
  | succ d ih =>
    unfold readValue at h
    split at h
    · obtain ⟨vs, read, rfl⟩ := wrap_eq_ok h
      exact keysSortedItems_iff.2 (readList_forall (fun _ _ _ => ih) read)
    · obtain ⟨ms, read, rfl⟩ := wrap_eq_ok h
      exact Members.keysSorted_ofPairs (readObject_forall (fun _ _ _ => ih) read)
    · exact keysSorted_of_readScalar h

/-- The keys of every object in a value that is read increase. -/
theorem keysSorted_of_read {text : String} {v : Json} (h : read text = .ok v) : v.KeysSorted := by
  unfold read readNested at h
  split at h
  · contradiction
  · rename_i w rest found
    split at h
    · contradiction
    · obtain rfl := Except.ok.inj h
      exact keysSorted_of_readValue found

end SeqScript.Json
