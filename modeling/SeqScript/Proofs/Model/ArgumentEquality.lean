import Mathlib.Data.List.Forall2
import SeqScript.Proofs.Model.Collections
import SeqScript.Proofs.Script.Alike

/-!
# Equality of arguments

Collections of arguments are compared by their canonical forms.  That takes the empty collections as
equal, positional arguments in their order and named arguments stably sorted by name, and compares
the arguments of groups in the same way (`equivalent_iff_compareWith`).  Two lists are stably sorted
alike exactly when they have the same values under every name (`sortByName_eq_iff`), which says of
named collections when they are equal without a sort.
-/

namespace SeqScript

/-! ### Values under a name -/

section

variable {α : Type}

/-- The values of the entries of one name, in their order. -/
def valuesOf (name : String) (es : List (String × α)) : List α :=
  (es.filter fun e => e.1 = name).map (·.2)

theorem valuesOf_cons (name : String) (e : String × α) (es : List (String × α)) :
    valuesOf name (e :: es) = (if e.1 = name then [e.2] else []) ++ valuesOf name es := by
  unfold valuesOf
  split_ifs with here <;> simp [here]

theorem valuesOf_ne_nil_iff {name : String} {es : List (String × α)} :
    valuesOf name es ≠ [] ↔ name ∈ es.map (·.1) := by
  simp [valuesOf]

/-- Inserting an entry behind lesser names leaves the order under every name as it is. -/
theorem valuesOf_insertByName (name : String) (entry : String × α) (es : List (String × α)) :
    valuesOf name (insertByName entry es) = valuesOf name (entry :: es) := by
  induction es with
  | nil => rfl
  | cons e es ih =>
    unfold insertByName
    split_ifs with lesser
    · rw [valuesOf_cons, ih, valuesOf_cons, valuesOf_cons name entry, valuesOf_cons]
      by_cases here : e.1 = name
      · have other : entry.1 ≠ name := fun same => String.lt_irrefl name (by
          rwa [here, same] at lesser)
        rw [if_neg other, List.nil_append, List.nil_append]
      · rw [if_neg here, List.nil_append, List.nil_append]
    · rfl

theorem valuesOf_sortByName (name : String) (es : List (String × α)) :
    valuesOf name (sortByName es) = valuesOf name es := by
  induction es with
  | nil => rfl
  | cons e es ih =>
    rw [sortByName, List.foldr_cons, ← sortByName, valuesOf_insertByName, valuesOf_cons, ih,
      valuesOf_cons]

theorem pairwise_insertByName {entry : String × α} {es : List (String × α)}
    (sorted : es.Pairwise fun d e => d.1 ≤ e.1) :
    (insertByName entry es).Pairwise fun d e => d.1 ≤ e.1 := by
  induction es with
  | nil => exact List.pairwise_singleton _ _
  | cons e es ih =>
    obtain ⟨least, rest⟩ := List.pairwise_cons.1 sorted
    unfold insertByName
    split_ifs with lesser
    · refine List.pairwise_cons.2 ⟨fun d hd => ?_, ih rest⟩
      rcases List.mem_cons.1 ((insertByName_perm entry es).mem_iff.1 hd) with rfl | hd
      · exact String.not_lt.1 (String.lt_asymm lesser)
      · exact least d hd
    · have first : entry.1 ≤ e.1 := String.not_lt.1 lesser
      refine List.pairwise_cons.2 ⟨List.forall_mem_cons.2 ⟨first, fun d hd => ?_⟩, sorted⟩
      exact String.le_trans first (least d hd)

theorem pairwise_sortByName (es : List (String × α)) :
    (sortByName es).Pairwise fun d e => d.1 ≤ e.1 := by
  induction es with
  | nil => exact List.Pairwise.nil
  | cons e es ih => exact pairwise_insertByName ih

theorem head_le_of_mem {e : String × α} {es : List (String × α)}
    (sorted : (e :: es).Pairwise fun d e => d.1 ≤ e.1) {name : String}
    (h : name ∈ (e :: es).map (·.1)) : e.1 ≤ name := by
  rcases List.mem_cons.1 h with rfl | h
  · exact String.le_refl _
  · obtain ⟨f, hf, rfl⟩ := List.mem_map.1 h
    exact List.rel_of_pairwise_cons sorted hf

/-- Sorted entries are determined by the values under every name. -/
theorem eq_of_valuesOf {es fs : List (String × α)} (hes : es.Pairwise fun d e => d.1 ≤ e.1)
    (hfs : fs.Pairwise fun d e => d.1 ≤ e.1)
    (same : ∀ name, valuesOf name es = valuesOf name fs) : es = fs := by
  have names : ∀ name, name ∈ es.map (·.1) ↔ name ∈ fs.map (·.1) := by
    intro name
    rw [← valuesOf_ne_nil_iff, ← valuesOf_ne_nil_iff, same]
  induction es generalizing fs with
  | nil =>
    cases fs with
    | nil => rfl
    | cons f fs => exact absurd ((names f.1).2 List.mem_cons_self) List.not_mem_nil
  | cons e es ih =>
    cases fs with
    | nil => exact absurd ((names e.1).1 List.mem_cons_self) List.not_mem_nil
    | cons f fs =>
      -- Each list begins with its least name, and the names are the same.
      have name : e.1 = f.1 := String.le_antisymm
        (head_le_of_mem hes ((names f.1).2 List.mem_cons_self))
        (head_le_of_mem hfs ((names e.1).1 List.mem_cons_self))
      have value : e.2 = f.2 := by
        have here := same e.1
        rw [valuesOf_cons, valuesOf_cons, if_pos rfl, if_pos name.symm] at here
        exact (List.cons.inj here).1
      obtain rfl : e = f := Prod.ext name value
      have rest : ∀ n, valuesOf n es = valuesOf n fs := by
        intro n
        have here := same n
        rw [valuesOf_cons, valuesOf_cons] at here
        exact List.append_cancel_left here
      rw [ih hes.of_cons hfs.of_cons rest fun n => by
        rw [← valuesOf_ne_nil_iff, ← valuesOf_ne_nil_iff, rest]]

theorem valuesOf_map {β : Type} (f : α → β) (name : String) (es : List (String × α)) :
    valuesOf name (es.map fun e => (e.1, f e.2)) = (valuesOf name es).map f := by
  induction es with
  | nil => rfl
  | cons e es ih =>
    rw [List.map_cons, valuesOf_cons, valuesOf_cons, List.map_append, ih]
    split_ifs <;> rfl

theorem sortByName_map {β : Type} (f : α → β) (es : List (String × α)) :
    sortByName (es.map fun e => (e.1, f e.2)) = (sortByName es).map fun e => (e.1, f e.2) := by
  have order : ∀ d ∈ es, ∀ e ∈ es, nameLE d e = nameLE (d.1, f d.2) (e.1, f e.2) :=
    fun _ _ _ _ => rfl
  rw [sortByName_eq_mergeSort, sortByName_eq_mergeSort, List.map_mergeSort order]

theorem sortByName_eq_nil_iff {es : List (String × α)} : sortByName es = [] ↔ es = [] := by
  rw [← List.length_eq_zero_iff, (sortByName_perm es).length_eq, List.length_eq_zero_iff]

theorem sortByName_eq_iff {es fs : List (String × α)} :
    sortByName es = sortByName fs ↔ ∀ name, valuesOf name es = valuesOf name fs := by
  constructor
  · intro sorted name
    rw [← valuesOf_sortByName, sorted, valuesOf_sortByName]
  · intro same
    refine eq_of_valuesOf (pairwise_sortByName es) (pairwise_sortByName fs) fun name => ?_
    rw [valuesOf_sortByName, valuesOf_sortByName, same]

end

/-! ### Comparisons -/

/-- Two lists have the same images exactly when they are as long and agree pointwise. -/
theorem map_eq_map_iff_forall₂ {α β γ : Type} {f : α → γ} {g : β → γ} {as : List α} {bs : List β} :
    as.map f = bs.map g ↔ List.Forall₂ (fun a b => f a = g b) as bs := by
  rw [← List.forall₂_eq_eq_eq, List.forall₂_map_left_iff, List.forall₂_map_right_iff]

/-- Equality of arguments, as that of collections. -/
def Argument.equivalent (a b : Argument) : Bool := a.canonical == b.canonical

/-- Arguments compared by a comparison of the collections in groups. -/
def Argument.CompareWith (R : Arguments → Arguments → Prop) : Argument → Argument → Prop
  | .literal l, .literal m => l.canonical = m.canonical
  | .symbol s, .symbol t => s = t
  | .group a, .group b => R a b
  | _, _ => False

/-- Collections compared by a comparison of their arguments, named ones in order of the names. -/
def Arguments.CompareWith (S : Argument → Argument → Prop) (a b : Arguments) : Prop :=
  a.isEmpty ∧ b.isEmpty ∨
    match a, b with
    | .positional as, .positional bs => List.Forall₂ S as bs
    | .named es, .named fs =>
      List.Forall₂ (fun e f => e.1 = f.1 ∧ S e.2 f.2) (sortByName es) (sortByName fs)
    | _, _ => False

theorem Argument.equivalent_iff {a b : Argument} :
    a.equivalent b ↔ a.canonical = b.canonical := beq_iff_eq

theorem Arguments.equivalent_iff {a b : Arguments} :
    a.equivalent b ↔ a.canonical = b.canonical := beq_iff_eq

theorem Argument.equivalent_iff_compareWith (a b : Argument) :
    a.equivalent b ↔ a.CompareWith (fun c d => c.equivalent d) b := by
  rw [equivalent_iff]
  cases a <;> cases b <;> simp [canonical, CompareWith, Arguments.equivalent_iff]

namespace Arguments

theorem isEmpty_positional {as : List Argument} : (positional as).isEmpty ↔ as = [] := by
  simp [isEmpty, count]

theorem isEmpty_named {es : List (String × Argument)} : (named es).isEmpty ↔ es = [] := by
  simp [isEmpty, count]

theorem canonicalItems_eq_iff {as bs : List Argument} :
    canonicalItems as = canonicalItems bs ↔ List.Forall₂ (fun c d => c.equivalent d) as bs := by
  simp only [canonicalItems_eq_map, map_eq_map_iff_forall₂, Argument.equivalent_iff]

theorem sortByName_canonicalNamed (es : List (String × Argument)) :
    sortByName (canonicalNamed es) = canonicalNamed (sortByName es) := by
  rw [canonicalNamed_eq_map, canonicalNamed_eq_map, sortByName_map]

theorem canonicalNamed_eq_iff {es fs : List (String × Argument)} :
    canonicalNamed es = canonicalNamed fs ↔
      List.Forall₂ (fun e f => e.1 = f.1 ∧ e.2.equivalent f.2) es fs := by
  simp only [canonicalNamed_eq_map, map_eq_map_iff_forall₂, Prod.mk.injEq,
    Argument.equivalent_iff]

theorem equivalent_positional_iff {as bs : List Argument} :
    (positional as).equivalent (positional bs) ↔
      List.Forall₂ (fun c d => c.equivalent d) as bs := by
  rw [equivalent_iff, canonical, canonical, positional.injEq, canonicalItems_eq_iff]

theorem equivalent_named_iff {es fs : List (String × Argument)} :
    (named es).equivalent (named fs) ↔
      sortByName (canonicalNamed es) = sortByName (canonicalNamed fs) := by
  have empty : ∀ {gs}, sortByName (canonicalNamed gs) = [] ↔ gs = [] := by
    intro gs
    rw [sortByName_eq_nil_iff, canonicalNamed_eq_map, List.map_eq_nil_iff]
  rw [equivalent_iff, canonical_named, canonical_named]
  split_ifs with hes hfs hfs
  · rw [hes, hfs]
    exact iff_of_true rfl rfl
  · rw [hes]
    exact iff_of_false nofun fun same => hfs (empty.1 same.symm)
  · rw [hfs]
    exact iff_of_false nofun fun same => hes (empty.1 same)
  · rw [named.injEq]

theorem equivalent_mixed_iff {as : List Argument} {es : List (String × Argument)} :
    (positional as).equivalent (named es) ↔ as = [] ∧ es = [] := by
  rw [equivalent_iff, canonical_named, canonical, canonicalItems_eq_map]
  split_ifs with hes
  · simp [hes]
  · simp [hes]

theorem equivalent_comm {a b : Arguments} : a.equivalent b ↔ b.equivalent a := by
  rw [equivalent_iff, equivalent_iff, eq_comm]

theorem isEmpty_eq_of_equivalent {a b : Arguments} (h : a.equivalent b) :
    a.isEmpty = b.isEmpty := by
  rw [← isEmpty_canonical a, equivalent_iff.1 h, isEmpty_canonical]

/-- The empty collections are equal, and other collections as their forms are. -/
theorem equivalent_iff_compareWith (a b : Arguments) :
    a.equivalent b ↔ a.CompareWith (fun c d => c.equivalent d) b := by
  unfold CompareWith
  rcases a with as | es <;> rcases b with bs | fs
  · rw [equivalent_positional_iff, isEmpty_positional, isEmpty_positional, or_iff_right_of_imp]
    rintro ⟨rfl, rfl⟩
    exact .nil
  · rw [equivalent_mixed_iff, isEmpty_positional, isEmpty_named, or_false]
  · rw [equivalent_comm, equivalent_mixed_iff, isEmpty_positional, isEmpty_named, or_false,
      and_comm]
  · rw [equivalent_named_iff, sortByName_canonicalNamed, sortByName_canonicalNamed,
      canonicalNamed_eq_iff, isEmpty_named, isEmpty_named, or_iff_right_of_imp]
    rintro ⟨rfl, rfl⟩
    exact .nil

/-- Named collections are equal when their values under every name are. -/
theorem equivalent_named_iff_valuesOf {es fs : List (String × Argument)} :
    (named es).equivalent (named fs) ↔
      ∀ name, List.Forall₂ (fun c d => c.equivalent d) (valuesOf name es) (valuesOf name fs) := by
  rw [equivalent_named_iff, sortByName_eq_iff]
  refine forall_congr' fun name => ?_
  rw [canonicalNamed_eq_map, canonicalNamed_eq_map, valuesOf_map, valuesOf_map,
    map_eq_map_iff_forall₂]
  simp only [Argument.equivalent_iff]

/-- Equality is the comparison by one another of collections and their arguments, and an
equivalence: the empty collections are equal, positional arguments are compared in their order, and
named ones in their order under every name. -/
theorem equivalence_and_iff_valuesOf :
    ((∀ a b : Arguments, a.equivalent b ↔ a.CompareWith (fun c d => c.equivalent d) b) ∧
      ∀ c d : Argument, c.equivalent d ↔ c.CompareWith (fun a b => a.equivalent b) d) ∧
    Equivalence (fun a b : Arguments => a.equivalent b = true) ∧
    ∀ a b : Arguments, a.equivalent b ↔
      a.isEmpty ∧ b.isEmpty ∨
      (∃ as bs, as ≠ [] ∧ bs ≠ [] ∧ a = .positional as ∧ b = .positional bs ∧
        List.Forall₂ (fun c d => c.equivalent d) as bs) ∨
      ∃ es fs, es ≠ [] ∧ fs ≠ [] ∧ a = .named es ∧ b = .named fs ∧
        ∀ name, List.Forall₂ (fun c d => c.equivalent d) (valuesOf name es)
          (valuesOf name fs) := by
  refine ⟨⟨equivalent_iff_compareWith, Argument.equivalent_iff_compareWith⟩,
    ⟨fun a => ?_, fun same => equivalent_comm.1 same, fun first second => ?_⟩, fun a b => ?_⟩
  · rw [equivalent_iff]
  · rw [equivalent_iff] at first second ⊢
    exact first.trans second
  · constructor
    · intro same
      by_cases empty : a.isEmpty
      · exact .inl ⟨empty, isEmpty_eq_of_equivalent same ▸ empty⟩
      · have other : ¬ b.isEmpty := isEmpty_eq_of_equivalent same ▸ empty
        rcases a with as | es <;> rcases b with bs | fs
        · rw [isEmpty_positional] at empty other
          exact .inr (.inl ⟨as, bs, empty, other, rfl, rfl, equivalent_positional_iff.1 same⟩)
        · exact absurd (isEmpty_positional.2 (equivalent_mixed_iff.1 same).1) empty
        · exact absurd (isEmpty_positional.2 (equivalent_mixed_iff.1 (equivalent_comm.1 same)).1)
            other
        · rw [isEmpty_named] at empty other
          exact .inr (.inr ⟨es, fs, empty, other, rfl, rfl, equivalent_named_iff_valuesOf.1 same⟩)
    · rintro (empty | ⟨as, bs, -, -, rfl, rfl, each⟩ | ⟨es, fs, -, -, rfl, rfl, each⟩)
      · exact (equivalent_iff_compareWith a b).2 (.inl empty)
      · exact equivalent_positional_iff.2 each
      · exact equivalent_named_iff_valuesOf.2 each

/-- Entries of one name keep their order, in which they are compared. -/
example :
    (named [("b", .symbol "y"), ("a", .symbol "x"), ("a", .symbol "z")]).equivalent
        (named [("a", .symbol "x"), ("b", .symbol "y"), ("a", .symbol "z")]) = true ∧
      (named [("a", .symbol "x"), ("a", .symbol "z")]).equivalent
        (named [("a", .symbol "z"), ("a", .symbol "x")]) = false := by
  decide +kernel

end Arguments

end SeqScript
