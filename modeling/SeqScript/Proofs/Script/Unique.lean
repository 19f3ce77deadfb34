import Mathlib.Data.List.Forall2
import Mathlib.Tactic.Common
import SeqScript.Proofs.Keyed
import SeqScript.Proofs.Text.Digit

/-!
# Texts that tell what they are of

Two texts, each in front of some tail, are the same exactly when a relation holds of what they are
texts of, and then so are the tails (`Unique`).  This is what makes a text readable: where it ends
and what it says do not depend on what follows.  The rules here build such texts from parts: one
after the other, lists of any length, and sections with names that may be left out.
-/

namespace SeqScript.Script

/-- What may follow a text. -/
abbrev Tail := List Char → Prop

/-- The texts, in front of tails of the kind, are the same exactly when the relation holds, and
then the tails are the same. -/
def Unique (F : Tail) (p q : String) (R : Prop) : Prop :=
  ∀ x y, F x → F y → (p.toList ++ x = q.toList ++ y ↔ R ∧ x = y)

/-! ### Tails -/

namespace Tail

def Any : Tail := fun _ => True

/-- Nothing, or a character that is not of the class. -/
def Stops (k : Char → Bool) : Tail := fun x => ∀ c ∈ x.head?, k c = false

/-- A text that begins with `s`. -/
def Begins (s : String) : Tail := fun x => ∃ z, x = s.toList ++ z

theorem begins_append (s : String) (x : List Char) : Begins s (s.toList ++ x) := ⟨x, rfl⟩

theorem begins_of_append {s t : String} {x : List Char} (h : Begins (s ++ t) x) : Begins s x := by
  obtain ⟨z, rfl⟩ := h
  exact ⟨t.toList ++ z, by rw [String.toList_append, List.append_assoc]⟩

theorem begins_append_iff {s t : String} {x : List Char} :
    Begins (s ++ t) (s.toList ++ x) ↔ Begins t x := by
  simp only [Begins, String.toList_append, List.append_assoc, List.append_cancel_left_eq]

end Tail

open Tail

namespace Unique

variable {F G : Tail} {p p' q q' : String} {R S : Prop}

theorem mono (h : Unique G p q R) (sub : ∀ x, F x → G x) : Unique F p q R :=
  fun x y hx hy => h x y (sub x hx) (sub y hy)

theorem congr (h : Unique F p q R) (same : R ↔ S) : Unique F p q S :=
  fun x y hx hy => (h x y hx hy).trans (and_congr_left' same)

theorem symm (h : Unique F p q R) : Unique F q p R :=
  fun x y hx hy => eq_comm.trans ((h y x hy hx).trans (and_congr_right' eq_comm))

theorem refl (p : String) : Unique F p p True := by
  intro x y _ _
  rw [List.append_cancel_left_eq, true_and]

/-- One text after another; the second may rely on what the first says. -/
theorem append (first : Unique G p q R) (second : R → Unique F p' q' S)
    (hp : ∀ x, F x → G (p'.toList ++ x)) (hq : ∀ x, F x → G (q'.toList ++ x)) :
    Unique F (p ++ p') (q ++ q') (R ∧ S) := by
  intro x y hx hy
  rw [String.toList_append, String.toList_append, List.append_assoc, List.append_assoc,
    first _ _ (hp x hx) (hq y hy), and_assoc]
  exact and_congr_right fun r => second r x y hx hy

/-- The same text in front of both. -/
theorem before (s : String) (h : Unique F p q R) : Unique F (s ++ p) (s ++ q) R := by
  intro x y hx hy
  rw [String.toList_append, String.toList_append, List.append_assoc, List.append_assoc,
    List.append_cancel_left_eq]
  exact h x y hx hy

/-- The same text behind both. -/
theorem after (h : Unique G p q R) (s : String) (tail : ∀ x, F x → G (s.toList ++ x)) :
    Unique F (p ++ s) (q ++ s) R :=
  (h.append (fun _ => refl s) tail tail).congr (and_iff_left trivial)

/-- A first text that needs no particular tail. -/
theorem andThen (first : Unique Any p q R) (second : R → Unique F p' q' S) :
    Unique F (p ++ p') (q ++ q') (R ∧ S) :=
  first.append second (fun _ _ => trivial) fun _ _ => trivial

/-- Texts closed by what they must be followed by. -/
theorem closed {s : String} (h : Unique (Begins s) p q R) : Unique F (p ++ s) (q ++ s) R :=
  h.after s fun x _ => begins_append s x

/-- Texts that never agree. -/
theorem apart (h : ∀ x y, F x → F y → p.toList ++ x ≠ q.toList ++ y) : Unique F p q False :=
  fun x y hx hy => ⟨fun same => absurd same (h x y hx hy), fun h => h.1.elim⟩

/-- Nothing, and a text that cannot follow. -/
theorem nothing {opening s : String} (ends : ∀ x, F x → ¬ Begins opening x) :
    Unique F "" (opening ++ s) False := by
  refine apart fun x y hx _ same => ends x hx ?_
  have opened := begins_append (opening ++ s) y
  rw [← same] at opened
  exact begins_of_append opened

end Unique

/-! ### First characters -/

def Starts (c : Char) (p : String) : Prop := ∃ cs, p.toList = c :: cs

theorem Starts.append {c : Char} {p : String} (h : Starts c p) (s : String) :
    Starts c (p ++ s) := by
  obtain ⟨cs, text⟩ := h
  exact ⟨cs ++ s.toList, by rw [String.toList_append, text, List.cons_append]⟩

theorem Starts.apart {F : Tail} {c d : Char} {p q : String} (hp : Starts c p) (hq : Starts d q)
    (h : c ≠ d) : Unique F p q False := by
  obtain ⟨cs, left⟩ := hp
  obtain ⟨ds, right⟩ := hq
  refine .apart fun x y _ _ same => ?_
  rw [left, right] at same
  exact h (List.cons.inj same).1

/-! ### Runs of characters -/

theorem Unique.of_run {k : Char → Bool} {p q : String} (hp : ∀ c ∈ p.toList, k c)
    (hq : ∀ c ∈ q.toList, k c) : Unique (Stops k) p q (p = q) := by
  intro x y hx hy
  rw [Text.append_run_iff hp hq hx hy, String.toList_inj]

/-! ### Parts that are left out -/

/-- Two parts that are left out are meant to agree, but neither with one that is there. -/
structure LeftOut (a b : Bool) (R : Prop) : Prop where
  both : a → b → R
  same : R → a = b

/-- A short text in place of a part that is left out. -/
theorem Unique.unless {F : Tail} {p q short opening : String} {a b : Bool} {R : Prop}
    (h : LeftOut a b R)
    (differ : ∀ s, Unique F short (opening ++ s) False)
    (part : a = false → b = false → Unique F p q R) :
    Unique F (if a then short else opening ++ p) (if b then short else opening ++ q) R := by
  rcases a with _ | _ <;> rcases b with _ | _
  · exact (part rfl rfl).before opening
  · exact (differ p).symm.congr (iff_of_false id fun alike => nomatch h.same alike)
  · exact (differ q).congr (iff_of_false id fun alike => nomatch h.same alike)
  · exact (Unique.refl _).congr (iff_of_true trivial (h.both rfl rfl))

/-! ### Lists -/

section

variable {α : Type} {p q : α → String}

theorem toList_join_nil (x : List Char) : (String.join ([].map p)).toList ++ x = x := by
  rw [List.map_nil, String.join_nil]
  rfl

theorem toList_join_cons (a : α) (as : List α) (x : List Char) :
    (String.join ((a :: as).map p)).toList ++ x =
      (p a).toList ++ ((String.join (as.map p)).toList ++ x) := by
  rw [List.map_cons, String.join_cons, String.toList_append, List.append_assoc]

/-- A list of items in front of its end goes on with an item or ends. -/
theorem join_tail {F O : Tail} {as : List α} (opens : ∀ a ∈ as, ∀ x, O ((p a).toList ++ x))
    {x : List Char} (hx : F x) :
    F ((String.join (as.map p)).toList ++ x) ∨ O ((String.join (as.map p)).toList ++ x) := by
  rcases as with _ | ⟨a, as⟩
  · rw [toList_join_nil]
    exact .inl hx
  · rw [toList_join_cons]
    exact .inr (opens a List.mem_cons_self _)

/-- Lists of items that are told from what follows them by how they open. -/
theorem Unique.join {F G O : Tail} {as bs : List α} {R : α → α → Prop}
    (items : ∀ a ∈ as, ∀ b ∈ bs, Unique G (p a) (q b) (R a b))
    (hp : ∀ a ∈ as, ∀ x, O ((p a).toList ++ x)) (hq : ∀ b ∈ bs, ∀ x, O ((q b).toList ++ x))
    (stop : ∀ x, F x → ¬ O x) (next : ∀ x, F x ∨ O x → G x) :
    Unique F (String.join (as.map p)) (String.join (bs.map q)) (List.Forall₂ R as bs) := by
  intro x y hx hy
  induction as generalizing bs with
  | nil =>
    rcases bs with _ | ⟨b, bs⟩
    · rw [toList_join_nil, toList_join_nil, List.forall₂_nil_left_iff, eq_self, true_and]
    · rw [toList_join_nil, toList_join_cons]
      refine iff_of_false (fun same => stop x hx ?_) (fun h => nomatch h.1)
      rw [same]
      exact hq b List.mem_cons_self _
  | cons a as ih =>
    rcases bs with _ | ⟨b, bs⟩
    · rw [toList_join_nil, toList_join_cons]
      refine iff_of_false (fun same => stop y hy ?_) (fun h => nomatch h.1)
      rw [← same]
      exact hp a List.mem_cons_self _
    · have tailA := next _ (join_tail (fun a ha => hp a (List.mem_cons_of_mem _ ha)) hx)
      have tailB := next _ (join_tail (fun b hb => hq b (List.mem_cons_of_mem _ hb)) hy)
      have rest := @ih bs
        (fun a ha b hb => items a (List.mem_cons_of_mem _ ha) b (List.mem_cons_of_mem _ hb))
        (fun a ha => hp a (List.mem_cons_of_mem _ ha))
        (fun b hb => hq b (List.mem_cons_of_mem _ hb))
      rw [toList_join_cons, toList_join_cons,
        items a List.mem_cons_self b List.mem_cons_self _ _ tailA tailB, rest,
        List.forall₂_cons, and_assoc]

end

theorem leftOut_forall₂ {α : Type} {R : α → α → Prop} {as bs : List α} :
    LeftOut as.isEmpty bs.isEmpty (List.Forall₂ R as bs) where
  both ha hb := by
    rw [List.isEmpty_iff.1 ha, List.isEmpty_iff.1 hb]
    exact .nil
  same h := by cases h <;> rfl

/-! ### Sections -/

/-- A text of sections, each with a name and the text of a value. -/
def sections {α : Type} (pre sep post : String) (text : α → String)
    (slots : List (String × Option α)) : String :=
  String.join ((present slots).map fun s => pre ++ s.1 ++ sep ++ text s.2 ++ post)

section

variable {α : Type} {pre sep post name : String} {text : α → String} {value : α}
  {ss : List (String × Option α)}

theorem sections_none :
    sections pre sep post text ((name, none) :: ss) = sections pre sep post text ss := rfl

theorem sections_some : sections pre sep post text ((name, some value) :: ss) =
    pre ++ name ++ sep ++ (text value ++ post) ++ sections pre sep post text ss := by
  show String.join (_ :: _) = _
  rw [String.join_cons, ← String.append_assoc]
  rfl

theorem toList_sections_some (x : List Char) :
    (sections pre sep post text ((name, some value) :: ss)).toList ++ x =
      (pre ++ name ++ sep).toList ++ ((text value ++ post).toList ++
        ((sections pre sep post text ss).toList ++ x)) := by
  rw [sections_some]
  simp only [String.toList_append, List.append_assoc]

/-- Sections in front of a tail begin with the name of one of them, or are left out. -/
theorem sections_tail (ss : List (String × Option α)) (x : List Char) :
    (sections pre sep post text ss).toList ++ x = x ∨
      ∃ s ∈ ss, Begins (pre ++ s.1 ++ sep) ((sections pre sep post text ss).toList ++ x) := by
  induction ss with
  | nil => exact .inl rfl
  | cons s ss ih =>
    obtain ⟨name, v⟩ := s
    rcases v with _ | v
    · rw [sections_none]
      exact ih.imp_right fun ⟨s, hs, h⟩ => ⟨s, List.mem_cons_of_mem _ hs, h⟩
    · refine .inr ⟨_, List.mem_cons_self, ?_⟩
      rw [toList_sections_some]
      exact begins_append _ _

end

/-- The same section of two texts: its name, the two values, and when they are meant to agree. -/
structure Section (α : Type) where
  name : String
  left : Option α
  right : Option α
  alike : Prop

namespace Section

variable {α β : Type} {text : α → String} {G : Tail} {name : String} {v w : α} {R : Prop}

/-- The values in front of a tail tell whether they are meant to agree. -/
def IsUnique (text : α → String) (G : Tail) (s : Section α) : Prop :=
  match s.left, s.right with
  | some v, some w => Unique G (text v) (text w) s.alike
  | none, none => s.alike
  | _, _ => ¬ s.alike

/-- Each section tells whether its values are meant to agree, once those before it agree. -/
def AreUnique (text : α → String) (G : Tail) : List (Section α) → Prop
  | [] => True
  | s :: ss => s.IsUnique text G ∧ (s.alike → AreUnique text G ss)

theorem IsUnique.congr {left right : Option α} {S : Prop}
    (h : IsUnique text G ⟨name, left, right, R⟩) (same : R ↔ S) :
    IsUnique text G ⟨name, left, right, S⟩ :=
  propext same ▸ h

theorem isUnique_unless {a b : Bool} (h : LeftOut a b R)
    (value : a = false → b = false → Unique G (text v) (text w) R) :
    IsUnique text G ⟨name, if a then none else some v, if b then none else some w, R⟩ := by
  rcases a with _ | _ <;> rcases b with _ | _
  · exact value rfl rfl
  · exact fun alike => nomatch h.same alike
  · exact fun alike => nomatch h.same alike
  · exact h.both rfl rfl

theorem isUnique_option {f : β → α} {R : β → β → Prop}
    (h : ∀ a b, Unique G (text (f a)) (text (f b)) (R a b)) (o o' : Option β) :
    IsUnique text G ⟨name, o.map f, o'.map f, Option.Rel R o o'⟩ := by
  rcases o with _ | a <;> rcases o' with _ | b
  · exact .none
  · exact nofun
  · exact nofun
  · exact (h a b).congr ⟨.some, fun | .some r => r⟩

theorem isUnique_option_eq {f : β → α}
    (h : ∀ a b, Unique G (text (f a)) (text (f b)) (a = b)) (o o' : Option β) :
    IsUnique text G ⟨name, o.map f, o'.map f, o = o'⟩ := by
  rcases o with _ | a <;> rcases o' with _ | b
  · exact rfl
  · exact nofun
  · exact nofun
  · exact (h a b).congr (Option.some_inj).symm

end Section

section

variable {α : Type} {F : Tail} {k : Char → Bool} {pre sep post : String} {text : α → String}

/-- The word between an opening and what stops it. -/
theorem begins_word {m n : String} {x : List Char} (hm : ∀ c ∈ m.toList, k c)
    (hn : ∀ c ∈ n.toList, k c) (stop : ∀ z, Stops k (sep.toList ++ z))
    (first : Begins (pre ++ m ++ sep) x) (second : Begins (pre ++ n ++ sep) x) : m = n := by
  obtain ⟨y, rfl⟩ := first
  obtain ⟨z, same⟩ := second
  simp only [String.toList_append, List.append_assoc, List.append_cancel_left_eq] at same
  exact String.toList_inj.1 ((Text.append_run_iff hm hn (stop y) (stop z)).1 same).1

/-- A section that is not there does not begin where sections do. -/
theorem not_begins_sections {name : String} {ss : List (String × Option α)}
    (new : name ∉ ss.map (·.1)) (hn : ∀ c ∈ name.toList, k c)
    (words : ∀ s ∈ ss, ∀ c ∈ s.1.toList, k c) (stop : ∀ z, Stops k (sep.toList ++ z))
    {x : List Char} (ends : ¬ Begins pre x) :
    ¬ Begins (pre ++ name ++ sep) ((sections pre sep post text ss).toList ++ x) := by
  intro opened
  rcases sections_tail ss x with none | ⟨s, hs, other⟩
  · rw [none] at opened
    exact ends (begins_of_append (begins_of_append opened))
  · refine new (List.mem_map.2 ⟨s, hs, ?_⟩)
    exact begins_word (words s hs) hn stop other opened

/-- A section that only one of two texts has tells them apart. -/
theorem Unique.sections_of_new {name : String} {q : α} {ss ts : List (String × Option α)}
    (new : name ∉ ss.map (·.1)) (hn : ∀ c ∈ name.toList, k c)
    (words : ∀ s ∈ ss, ∀ c ∈ s.1.toList, k c) (stop : ∀ z, Stops k (sep.toList ++ z))
    (ends : ∀ x, F x → ¬ Begins pre x) :
    Unique F (sections pre sep post text ss)
      (sections pre sep post text ((name, some q) :: ts)) False := by
  refine apart fun x y hx _ same => ?_
  have opened :
      Begins (pre ++ name ++ sep) ((Script.sections pre sep post text ss).toList ++ x) := by
    rw [same, toList_sections_some]
    exact begins_append _ _
  exact not_begins_sections new hn words stop (ends x hx) opened

/-- Sections whose names are distinct words are read one by one. -/
theorem Unique.sections {ss : List (Section α)} (distinct : (ss.map (·.name)).Nodup)
    (words : ∀ n ∈ ss.map (·.name), ∀ c ∈ n.toList, k c)
    (stop : ∀ z, Stops k (sep.toList ++ z)) (values : Section.AreUnique text (Begins post) ss)
    (ends : ∀ x, F x → ¬ Begins pre x) :
    Unique F (Script.sections pre sep post text (ss.map fun s => (s.name, s.left)))
      (Script.sections pre sep post text (ss.map fun s => (s.name, s.right)))
      (∀ s ∈ ss, s.alike) := by
  induction ss with
  | nil => exact (refl _).congr (iff_of_true trivial (List.forall_mem_nil _))
  | cons s ss ih =>
    obtain ⟨name, left, right, alike⟩ := s
    rw [List.map_cons, List.nodup_cons] at distinct
    rw [List.map_cons] at words
    obtain ⟨word, others⟩ := List.forall_mem_cons.1 words
    obtain ⟨value, later⟩ := values
    have rest (h : alike) := ih distinct.2 others (later h)
    have others := List.forall_mem_map.1 others
    have lefts : name ∉ (ss.map fun s => (s.name, s.left)).map (·.1) := by
      rw [List.map_map]
      exact distinct.1
    have rights : name ∉ (ss.map fun s => (s.name, s.right)).map (·.1) := by
      rw [List.map_map]
      exact distinct.1
    simp only [List.map_cons, List.forall_mem_cons]
    rcases left with _ | p
    · rw [sections_none]
      rcases right with _ | q
      · rw [sections_none]
        exact (rest value).congr (and_iff_right value).symm
      · refine (Unique.sections_of_new lefts word (List.forall_mem_map.2 others) stop ends).congr ?_
        exact iff_of_false id fun h => value h.1
    · rcases right with _ | q
      · rw [sections_none]
        refine (Unique.sections_of_new rights word (List.forall_mem_map.2 others) stop
          ends).symm.congr ?_
        exact iff_of_false id fun h => value h.1
      · rw [sections_some, sections_some]
        exact (Unique.before _ (Unique.closed value)).andThen rest

end

end SeqScript.Script
