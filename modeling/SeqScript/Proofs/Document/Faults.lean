import SeqScript.Proofs.Document.Stages

/-!
# The first fault

What a fault says of the parts that were read before it.  A list is refused for its first item that
is refused, and the fault is that of the item but for the index in front of its path
(`readFrom_eq_error_iff`).
-/

namespace SeqScript.Document

open Checked

variable {ε α β : Type}

/-! ### Outcomes -/

theorem bind_eq_error {x : Except ε α} {f : α → Except ε β} {e : ε} :
    x >>= f = .error e ↔ x = .error e ∨ ∃ a, x = .ok a ∧ f a = .error e := by
  rcases x with d | a
  · simp [bind, Except.bind]
  · simp [bind, Except.bind]

theorem map_eq_error {x : Except ε α} {f : α → β} {e : ε} :
    x.map f = .error e ↔ x = .error e := by
  rcases x with d | a
  · simp [Except.map]
  · simp [Except.map]

theorem map_bind {γ : Type} (x : Except ε α) (f : α → Except ε β) (g : β → γ) :
    (x >>= f).map g = x >>= fun a => (f a).map g := by
  cases x <;> rfl

theorem under_eq_error {segment : Segment} {x : Checked α} {e : Located} :
    x.under segment = .error e ↔
      ∃ inner, x = .error inner ∧ e = ⟨segment :: inner.path, inner.fault⟩ := by
  rcases x with d | a
  · simp [under, eq_comm]
  · simp [under]

theorem identified_eq_error {id : Option String} {x : Checked α} {e : ValidationError} :
    identified id x = .error e ↔ ∃ inner, x = .error inner ∧ e = ⟨id, inner.path, inner.fault⟩ := by
  rcases x with d | a
  · simp [identified, eq_comm]
  · simp [identified]

/-! ### Records -/

namespace Record

variable {r : Record} {build : Entries → Shaped α}

theorem decode_members (ms : Members) : r.decode build (.object ms) =
    match r.firstMismatch? ms with
    | some m => .error m
    | none => build ⟨ms, .missingField⟩ := by
  simp only [decode, entries, checkLength]
  rcases r.firstMismatch? ms with _ | m
  · rcases build ⟨ms, .missingField⟩ with m | a <;> rfl
  · rfl

end Record

/-! ### Lists -/

section

variable {read : Json → Checked α} {i : Nat} {vs ws : List Json}

/-- The items of the first list are read before those of the second. -/
theorem readFrom_append (read : Json → Checked α) (i : Nat) (vs ws : List Json) :
    readFrom read i (vs ++ ws) = readFrom read i vs >>= fun as =>
      (readFrom read (i + vs.length) ws).map fun bs => as ++ bs := by
  induction vs generalizing i with
  | nil =>
    rw [List.nil_append, readFrom, ok_bind, List.length_nil, Nat.add_zero]
    cases readFrom read i ws <;> rfl
  | cons v vs ih =>
    rw [List.cons_append, readFrom, readFrom, ih, List.length_cons, Nat.add_right_comm,
      Nat.add_assoc]
    rcases (read v).atIndex i with e | a
    · rfl
    · rcases readFrom read (i + 1) vs with e | as
      · rfl
      · rcases readFrom read (i + (vs.length + 1)) ws with e | bs <;> rfl

/-- The fault of a list is that of its first item with a fault. -/
theorem readFrom_eq_error_iff {e : Located} : readFrom read i vs = .error e ↔
    ∃ before v after inner, vs = before ++ v :: after ∧ (∀ w ∈ before, ∃ a, read w = .ok a) ∧
      read v = .error inner ∧ e = ⟨.index (i + before.length) :: inner.path, inner.fault⟩ := by
  constructor
  · intro h
    induction vs generalizing i with
    | nil => contradiction
    | cons v vs ih =>
      rw [readFrom] at h
      rcases bind_eq_error.1 h with h | ⟨a, first, h⟩
      · obtain ⟨inner, fault, rfl⟩ := under_eq_error.1 h
        exact ⟨[], v, vs, inner, rfl, List.forall_mem_nil _, fault, rfl⟩
      · rcases bind_eq_error.1 h with h | ⟨as, -, h⟩
        · obtain ⟨before, w, after, inner, rfl, good, fault, rfl⟩ := ih h
          refine ⟨v :: before, w, after, inner, rfl, ?_, fault, ?_⟩
          · exact List.forall_mem_cons.2 ⟨⟨a, under_eq_ok.1 first⟩, good⟩
          · rw [List.length_cons, Nat.add_right_comm, Nat.add_assoc]
        · contradiction
  · rintro ⟨before, v, after, inner, rfl, good, fault, rfl⟩
    induction before generalizing i with
    | nil =>
      rw [List.nil_append, readFrom, fault]
      rfl
    | cons w before ih =>
      obtain ⟨⟨a, first⟩, rest⟩ := List.forall_mem_cons.1 good
      rw [List.cons_append, readFrom, first, ih rest, List.length_cons, Nat.add_right_comm,
        Nat.add_assoc]
      rfl

/-- Where a list begins does not matter to its items. -/
theorem readFrom_eq_ok_of_shift {as : List α} (j : Nat) (h : readFrom read i vs = .ok as) :
    readFrom read j vs = .ok as := by
  induction vs generalizing i j as with
  | nil => exact h
  | cons v vs ih =>
    obtain ⟨a, rest, first, later, same⟩ := readFrom_cons_eq_ok.1 h
    exact readFrom_cons_eq_ok.2 ⟨a, rest, first, ih (j + 1) later, same⟩

theorem readFrom_append_eq_ok {cs : List α} : readFrom read 0 (vs ++ ws) = .ok cs ↔
    ∃ as bs, readFrom read 0 vs = .ok as ∧ readFrom read 0 ws = .ok bs ∧ as ++ bs = cs := by
  rw [readFrom_append, bind_eq_ok]
  constructor
  · rintro ⟨as, first, h⟩
    obtain ⟨bs, second, same⟩ := map_eq_ok.1 h
    exact ⟨as, bs, first, readFrom_eq_ok_of_shift 0 second, same⟩
  · rintro ⟨as, bs, first, second, same⟩
    exact ⟨as, first, map_eq_ok.2 ⟨bs, readFrom_eq_ok_of_shift _ second, same⟩⟩

theorem readFrom_append_of_error {e : Located} (h : readFrom read 0 vs = .error e) :
    readFrom read 0 (vs ++ ws) = .error e := by
  rw [readFrom_append, h]
  rfl

/-- The fault of the second list is found behind the items of the first. -/
theorem readFrom_append_of_ok_error {as : List α} {e : Located}
    (first : readFrom read 0 vs = .ok as) (second : readFrom read 0 ws = .error e) :
    ∃ j rest, j < ws.length ∧ e.path = .index j :: rest ∧
      readFrom read 0 (vs ++ ws) = .error ⟨.index (vs.length + j) :: rest, e.fault⟩ := by
  obtain ⟨before, w, after, inner, rfl, good, fault, rfl⟩ := readFrom_eq_error_iff.1 second
  refine ⟨before.length, inner.path, ?_, by rw [Nat.zero_add], ?_⟩
  · rw [List.length_append, List.length_cons]
    omega
  · rw [readFrom_append, first, ok_bind, map_eq_error, readFrom_eq_error_iff]
    exact ⟨before, w, after, inner, rfl, good, fault, by simp only [Nat.zero_add]⟩

end

end SeqScript.Document
