import Mathlib.Data.List.Perm.Basic
import SeqScript.Model.Equivalence

/-!
# Collections of arguments

A property of collections is asked of a collection and of every group inside it at once
(`Arguments.Everywhere`).  The canonical form of a collection has the same names and the same number
of arguments, so distinct names stay distinct in it (`Arguments.namesDistinct_canonical`).  What
documents cannot tell apart is the form of an empty collection: `Arguments.settle` makes every one
of them positional, which changes no canonical form (`Arguments.canonical_settle`).
-/

namespace SeqScript

/-! ### Properties at every depth -/

mutual

def Argument.Everywhere (p : Arguments → Prop) : Argument → Prop
  | .literal _ => True
  | .symbol _ => True
  | .group a => Arguments.Everywhere p a

/-- The property of the collection and of every group inside it. -/
def Arguments.Everywhere (p : Arguments → Prop) : Arguments → Prop
  | .positional items => p (.positional items) ∧ Arguments.EverywhereItems p items
  | .named items => p (.named items) ∧ Arguments.EverywhereNamed p items

def Arguments.EverywhereItems (p : Arguments → Prop) : List Argument → Prop
  | [] => True
  | a :: as => Argument.Everywhere p a ∧ Arguments.EverywhereItems p as

def Arguments.EverywhereNamed (p : Arguments → Prop) : List (String × Argument) → Prop
  | [] => True
  | (_, a) :: as => Argument.Everywhere p a ∧ Arguments.EverywhereNamed p as

end

namespace Arguments

theorem everywhereItems_iff {p : Arguments → Prop} {as : List Argument} :
    EverywhereItems p as ↔ ∀ a ∈ as, a.Everywhere p := by
  induction as with
  | nil => simp [EverywhereItems]
  | cons a as ih => simp [EverywhereItems, ih]

theorem everywhereNamed_iff {p : Arguments → Prop} {as : List (String × Argument)} :
    EverywhereNamed p as ↔ ∀ e ∈ as, e.2.Everywhere p := by
  induction as with
  | nil => simp [EverywhereNamed]
  | cons e as ih =>
    obtain ⟨name, a⟩ := e
    simp [EverywhereNamed, ih]

end Arguments

mutual

theorem Argument.Everywhere.mono {p q : Arguments → Prop} (h : ∀ a, p a → q a) :
    ∀ a : Argument, a.Everywhere p → a.Everywhere q
  | .literal _, _ => trivial
  | .symbol _, _ => trivial
  | .group a, ha => Arguments.Everywhere.mono h a ha

theorem Arguments.Everywhere.mono {p q : Arguments → Prop} (h : ∀ a, p a → q a) :
    ∀ a : Arguments, a.Everywhere p → a.Everywhere q
  | .positional items, ha => ⟨h _ ha.1, Arguments.EverywhereItems.mono h items ha.2⟩
  | .named items, ha => ⟨h _ ha.1, Arguments.EverywhereNamed.mono h items ha.2⟩

theorem Arguments.EverywhereItems.mono {p q : Arguments → Prop} (h : ∀ a, p a → q a) :
    ∀ as : List Argument, Arguments.EverywhereItems p as → Arguments.EverywhereItems q as
  | [], _ => trivial
  | a :: as, ha => ⟨Argument.Everywhere.mono h a ha.1, Arguments.EverywhereItems.mono h as ha.2⟩

theorem Arguments.EverywhereNamed.mono {p q : Arguments → Prop} (h : ∀ a, p a → q a) :
    ∀ as : List (String × Argument),
      Arguments.EverywhereNamed p as → Arguments.EverywhereNamed q as
  | [], _ => trivial
  | (_, a) :: as, ha =>
    ⟨Argument.Everywhere.mono h a ha.1, Arguments.EverywhereNamed.mono h as ha.2⟩

end

namespace Arguments

def names : Arguments → List String
  | positional _ => []
  | named items => items.map (·.1)

/-- No named collection gives a name twice, at any depth. -/
def NamesDistinct (a : Arguments) : Prop := a.Everywhere fun b => b.names.Nodup

/-- Every empty collection is positional, at any depth. -/
def IsSettled (a : Arguments) : Prop := a.Everywhere fun b => b ≠ named []

end Arguments

/-! ### Entries in order of their names -/

theorem insertByName_perm {α : Type} (entry : String × α) (es : List (String × α)) :
    (insertByName entry es).Perm (entry :: es) := by
  induction es with
  | nil => exact List.Perm.refl _
  | cons e es ih =>
    unfold insertByName
    split_ifs with h
    · exact (ih.cons e).trans (List.Perm.swap entry e es)
    · exact List.Perm.refl _

theorem sortByName_perm {α : Type} (es : List (String × α)) : (sortByName es).Perm es := by
  induction es with
  | nil => exact List.Perm.refl _
  | cons e es ih => exact (insertByName_perm e _).trans (ih.cons e)

theorem insertByName_append {α : Type} {entry : String × α} {es fs : List (String × α)}
    (lesser : ∀ e ∈ es, e.1 < entry.1) (rest : ∀ e ∈ fs, entry.1 ≤ e.1) :
    insertByName entry (es ++ fs) = es ++ entry :: fs := by
  induction es with
  | nil =>
    cases fs with
    | nil => rfl
    | cons f fs => exact if_neg (String.not_lt.2 (rest f List.mem_cons_self))
  | cons e es ih =>
    rw [List.forall_mem_cons] at lesser
    rw [List.cons_append, insertByName, if_pos lesser.1, ih lesser.2]
    rfl

/-- The order of entries by their names alone. -/
def nameLE {α : Type} (a b : String × α) : Bool := decide (a.1 ≤ b.1)

/-- Entries are sorted by a stable sort. -/
theorem sortByName_eq_mergeSort {α : Type} (es : List (String × α)) :
    sortByName es = es.mergeSort nameLE := by
  have trans : ∀ a b c : String × α, nameLE a b → nameLE b c → nameLE a c := by
    intro a b c first second
    exact decide_eq_true (String.le_trans (of_decide_eq_true first) (of_decide_eq_true second))
  have total : ∀ a b : String × α, nameLE a b || nameLE b a := by
    intro a b
    simpa [nameLE] using String.le_total a.1 b.1
  induction es with
  | nil => exact List.mergeSort_nil.symm
  | cons e es ih =>
    obtain ⟨before, after, whole, tail, lesser⟩ := List.mergeSort_cons trans total e es
    have sorted : (e :: after).Pairwise fun a b => nameLE a b := by
      have all := List.pairwise_mergeSort trans total (e :: es)
      rw [whole] at all
      exact (List.pairwise_append.1 all).2.1
    rw [whole, sortByName, List.foldr_cons, ← sortByName, ih, tail]
    apply insertByName_append
    · intro b hb
      simpa [nameLE] using lesser b hb
    · intro b hb
      exact of_decide_eq_true (List.rel_of_pairwise_cons sorted hb)

/-! ### Canonical collections -/

namespace Arguments

theorem canonicalItems_eq_map (as : List Argument) :
    canonicalItems as = as.map Argument.canonical := by
  induction as with
  | nil => rfl
  | cons a as ih => rw [canonicalItems, ih, List.map_cons]

theorem canonicalNamed_eq_map (es : List (String × Argument)) :
    canonicalNamed es = es.map fun e => (e.1, e.2.canonical) := by
  induction es with
  | nil => rfl
  | cons e es ih => rw [canonicalNamed, ih, List.map_cons]

theorem length_canonicalItems (as : List Argument) :
    (canonicalItems as).length = as.length := by
  rw [canonicalItems_eq_map, List.length_map]

theorem names_canonicalNamed (as : List (String × Argument)) :
    (canonicalNamed as).map (·.1) = as.map (·.1) := by
  rw [canonicalNamed_eq_map, List.map_map]
  rfl

theorem canonical_named (as : List (String × Argument)) :
    (named as).canonical =
      if as = [] then positional [] else named (sortByName (canonicalNamed as)) := by
  rcases as with _ | ⟨e, as⟩
  · rfl
  · rw [if_neg (List.cons_ne_nil e as)]
    rfl

theorem names_canonical_perm (a : Arguments) : a.canonical.names.Perm a.names := by
  rcases a with items | items
  · exact List.Perm.refl _
  · rw [canonical_named]
    split_ifs with h
    · rw [h]
      exact List.Perm.refl _
    · show ((sortByName (canonicalNamed items)).map (·.1)).Perm (items.map (·.1))
      rw [← names_canonicalNamed items]
      exact (sortByName_perm _).map _

theorem isEmpty_canonical (a : Arguments) : a.canonical.isEmpty = a.isEmpty := by
  have counts : a.canonical.count = a.count := by
    rcases a with items | items
    · exact length_canonicalItems items
    · rw [canonical_named]
      split_ifs with h
      · rw [h]
        rfl
      · show (sortByName (canonicalNamed items)).length = items.length
        rw [(sortByName_perm _).length_eq, ← List.length_map (·.1), names_canonicalNamed,
          List.length_map]
  rw [isEmpty, isEmpty, counts]

theorem isNamed_canonical {a : Arguments} (h : a.isEmpty = false) :
    a.canonical.isNamed = a.isNamed := by
  rcases a with items | items
  · rfl
  · rw [canonical_named]
    split_ifs with empty
    · rw [empty] at h
      contradiction
    · rfl

theorem everywhere_sorted {p : Arguments → Prop} {as : List (String × Argument)} :
    EverywhereNamed p (sortByName as) ↔ EverywhereNamed p as := by
  simp only [everywhereNamed_iff, (sortByName_perm as).mem_iff]

end Arguments

mutual

theorem Argument.namesDistinct_canonical : ∀ a : Argument,
    a.canonical.Everywhere (fun b => b.names.Nodup) ↔ a.Everywhere fun b => b.names.Nodup
  | .literal _ => Iff.rfl
  | .symbol _ => Iff.rfl
  | .group a => Arguments.namesDistinct_canonical a

/-- The names of a collection are distinct at every depth if those of its canonical form are. -/
theorem Arguments.namesDistinct_canonical : ∀ a : Arguments,
    a.canonical.NamesDistinct ↔ a.NamesDistinct
  | .positional items => and_congr Iff.rfl (Arguments.distinctItems_canonical items)
  | .named [] => Iff.rfl
  | .named (item :: items) =>
    and_congr (Arguments.names_canonical_perm (.named (item :: items))).nodup_iff
      (Arguments.everywhere_sorted.trans (Arguments.distinctNamed_canonical (item :: items)))

theorem Arguments.distinctItems_canonical : ∀ as : List Argument,
    Arguments.EverywhereItems (fun b => b.names.Nodup) (Arguments.canonicalItems as) ↔
      Arguments.EverywhereItems (fun b => b.names.Nodup) as
  | [] => Iff.rfl
  | a :: as => and_congr (Argument.namesDistinct_canonical a) (Arguments.distinctItems_canonical as)

theorem Arguments.distinctNamed_canonical : ∀ as : List (String × Argument),
    Arguments.EverywhereNamed (fun b => b.names.Nodup) (Arguments.canonicalNamed as) ↔
      Arguments.EverywhereNamed (fun b => b.names.Nodup) as
  | [] => Iff.rfl
  | (_, a) :: as =>
    and_congr (Argument.namesDistinct_canonical a) (Arguments.distinctNamed_canonical as)

end

/-! ### Empty collections -/

mutual

def Argument.settle : Argument → Argument
  | .literal value => .literal value
  | .symbol name => .symbol name
  | .group arguments => .group (Arguments.settle arguments)

/-- The collection with every empty collection positional, at any depth. -/
def Arguments.settle : Arguments → Arguments
  | .positional items => .positional (Arguments.settleItems items)
  | .named [] => .positional []
  | .named (item :: items) => .named (Arguments.settleNamed (item :: items))

def Arguments.settleItems : List Argument → List Argument
  | [] => []
  | a :: as => Argument.settle a :: Arguments.settleItems as

def Arguments.settleNamed : List (String × Argument) → List (String × Argument)
  | [] => []
  | (name, a) :: as => (name, Argument.settle a) :: Arguments.settleNamed as

end

mutual

theorem Argument.canonical_settle : ∀ a : Argument, a.settle.canonical = a.canonical
  | .literal _ => rfl
  | .symbol _ => rfl
  | .group a => congrArg Argument.group (Arguments.canonical_settle a)

/-- A collection and its settled form are equivalent. -/
theorem Arguments.canonical_settle : ∀ a : Arguments, a.settle.canonical = a.canonical
  | .positional items => congrArg Arguments.positional (Arguments.canonicalItems_settle items)
  | .named [] => rfl
  | .named ((name, a) :: items) => by
    have sorted := congrArg (fun es => Arguments.named (sortByName es))
      (Arguments.canonicalNamed_settle ((name, a) :: items))
    exact sorted

theorem Arguments.canonicalItems_settle : ∀ as : List Argument,
    Arguments.canonicalItems (Arguments.settleItems as) = Arguments.canonicalItems as
  | [] => rfl
  | a :: as => by
    simp only [Arguments.settleItems, Arguments.canonicalItems, Argument.canonical_settle a,
      Arguments.canonicalItems_settle as]

theorem Arguments.canonicalNamed_settle : ∀ as : List (String × Argument),
    Arguments.canonicalNamed (Arguments.settleNamed as) = Arguments.canonicalNamed as
  | [] => rfl
  | (name, a) :: as => by
    simp only [Arguments.settleNamed, Arguments.canonicalNamed, Argument.canonical_settle a,
      Arguments.canonicalNamed_settle as]

end

mutual

theorem Argument.settle_eq_self : ∀ a : Argument,
    a.Everywhere (· ≠ Arguments.named []) → a.settle = a
  | .literal _, _ => rfl
  | .symbol _, _ => rfl
  | .group a, h => congrArg Argument.group (Arguments.settle_eq_self a h)

theorem Arguments.settle_eq_self : ∀ a : Arguments, a.IsSettled → a.settle = a
  | .positional items, h =>
    congrArg Arguments.positional (Arguments.settleItems_eq_self items h.2)
  | .named [], h => absurd rfl h.1
  | .named (item :: items), h =>
    congrArg Arguments.named (Arguments.settleNamed_eq_self (item :: items) h.2)

theorem Arguments.settleItems_eq_self : ∀ as : List Argument,
    Arguments.EverywhereItems (· ≠ Arguments.named []) as → Arguments.settleItems as = as
  | [], _ => rfl
  | a :: as, h => by
    rw [Arguments.settleItems, Argument.settle_eq_self a h.1, Arguments.settleItems_eq_self as h.2]

theorem Arguments.settleNamed_eq_self : ∀ as : List (String × Argument),
    Arguments.EverywhereNamed (· ≠ Arguments.named []) as → Arguments.settleNamed as = as
  | [], _ => rfl
  | (name, a) :: as, h => by
    rw [Arguments.settleNamed, Argument.settle_eq_self a h.1, Arguments.settleNamed_eq_self as h.2]

end

mutual

theorem Argument.settled_canonical : ∀ a : Argument,
    a.canonical.Everywhere (· ≠ Arguments.named [])
  | .literal _ => trivial
  | .symbol _ => trivial
  | .group a => Arguments.isSettled_canonical a

/-- Canonical collections are settled. -/
theorem Arguments.isSettled_canonical : ∀ a : Arguments, a.canonical.IsSettled
  | .positional items => ⟨fun h => Arguments.noConfusion h, Arguments.settledItems_canonical items⟩
  | .named [] => ⟨fun h => Arguments.noConfusion h, trivial⟩
  | .named ((name, a) :: items) => by
    refine ⟨fun empty => ?_, Arguments.everywhere_sorted.2
      (Arguments.settledNamed_canonical ((name, a) :: items))⟩
    have permuted := sortByName_perm (Arguments.canonicalNamed ((name, a) :: items))
    rw [Arguments.named.inj empty] at permuted
    exact List.cons_ne_nil _ _ permuted.symm.eq_nil

theorem Arguments.settledItems_canonical : ∀ as : List Argument,
    Arguments.EverywhereItems (· ≠ Arguments.named []) (Arguments.canonicalItems as)
  | [] => trivial
  | a :: as => ⟨Argument.settled_canonical a, Arguments.settledItems_canonical as⟩

theorem Arguments.settledNamed_canonical : ∀ as : List (String × Argument),
    Arguments.EverywhereNamed (· ≠ Arguments.named []) (Arguments.canonicalNamed as)
  | [] => trivial
  | (_, a) :: as => ⟨Argument.settled_canonical a, Arguments.settledNamed_canonical as⟩

end

end SeqScript
