import Mathlib.Data.List.Basic
import Mathlib.Logic.Function.Basic
import Mathlib.Tactic.Common
import SeqScript.CommandLine.FileTree
import SeqScript.Proofs.Document.Decoding

/-!
# What a write changes

A tree of files is seen through what stands at each location (`FileTree.content?`).  A text that is
written to a path changes what stands at the place of the path and nothing else
(`FileTree.content?_write`), and it is what is then read from the path, unless a device stands there
(`FileTree.text_write`).
-/

namespace SeqScript.CommandLine

open Document (ok_bind bind_eq_ok)

/-- What an entry is by itself, without what is in it. -/
inductive Content where
  | folder
  | file (text : String)
  | device
  deriving DecidableEq

/-- What stands at a place after a text was written to it. -/
def Content.written (text : String) : Option Content → Content
  | some device => device
  | _ => file text

theorem Content.written_of_ne {old : Option Content} (h : old ≠ some device) (text : String) :
    written text old = file text := by
  unfold written
  split
  · contradiction
  · rfl

def Entry.content : Entry → Content
  | folder _ => .folder
  | file text => .file text
  | device => .device

/-! ### Entries of a folder -/

theorem lookup_filter_ne {α : Type} {n name : String} (h : n ≠ name)
    (entries : List (String × α)) :
    (entries.filter (·.1 != name)).lookup n = entries.lookup n := by
  induction entries with
  | nil => rfl
  | cons entry entries ih =>
    obtain ⟨m, e⟩ := entry
    by_cases other : m = name
    · have different : (n == m) = false := beq_false_of_ne fun same => h (same.trans other)
      rw [List.filter_cons_of_neg (by simp [other]), ih, List.lookup_cons, different]
    · rw [List.filter_cons_of_pos (by simp [other]), List.lookup_cons, List.lookup_cons, ih]

namespace Entry

/-- What stands at a location below the entry. -/
def content? (e : Entry) (l : Location) : Option Content := (e.at? l).map content

theorem content?_nil (e : Entry) : e.content? [] = some e.content := by cases e <;> rfl

theorem content?_folder_cons (entries : List (String × Entry)) (n : String) (ns : Location) :
    (folder entries).content? (n :: ns) = (entries.lookup n).bind (·.content? ns) := by
  unfold content?
  rw [at?]
  cases entries.lookup n <;> rfl

theorem eq_folder {e : Entry} (h : e.content? [] = some .folder) :
    ∃ entries, e = folder entries := by
  rw [content?_nil, Option.some.injEq] at h
  cases e with
  | folder entries => exact ⟨entries, rfl⟩
  | file text => contradiction
  | device => contradiction

/-- Only a folder has something below it. -/
theorem exists_folder {e : Entry} {n : String} {ns : Location} {c : Content}
    (h : e.content? (n :: ns) = some c) :
    ∃ entries child, e = folder entries ∧ entries.lookup n = some child ∧
      child.content? ns = some c := by
  cases e with
  | folder entries =>
    rw [content?_folder_cons] at h
    obtain ⟨child, found, below⟩ := Option.bind_eq_some_iff.1 h
    exact ⟨entries, child, rfl, found, below⟩
  | file text => contradiction
  | device => contradiction

/-- An entry in the place of the one that a name stood for. -/
theorem content?_replace (entries : List (String × Entry)) (name : String) (new : Entry)
    (m : Location) :
    (folder ((name, new) :: entries.filter (·.1 != name))).content? m =
      match m with
      | [] => some .folder
      | n :: ns => if n = name then new.content? ns else (folder entries).content? (n :: ns) := by
  cases m with
  | nil => rfl
  | cons n ns =>
    rw [content?_folder_cons, List.lookup_cons]
    by_cases same : n = name
    · rw [same, beq_self_eq_true]
      simp only [if_true, Option.bind_some]
    · rw [beq_false_of_ne same]
      refine Eq.trans ?_ (if_neg same).symm
      rw [content?_folder_cons]
      exact congrArg (Option.bind · _) (lookup_filter_ne same entries)

/-- A text in the place of what is no folder, if anything. -/
theorem content?_write_leaf {old : Option Entry} (leaf : old.map content ≠ some .folder)
    (text : String) (ns : Location) :
    ((old.getD (file "")).write text []).content? ns =
      if ns = [] then some (Content.written text (old.map content))
      else old.bind (·.content? ns) := by
  rcases old with _ | (entries | before | _)
  · cases ns <;> rfl
  · exact absurd rfl leaf
  · cases ns <;> rfl
  · cases ns <;> rfl

/-- A text that is written to a name in an existing folder, where the name stands for no folder. -/
theorem content?_write {e : Entry} {l : Location} {name : String}
    (inside : e.content? l = some .folder) (leaf : e.content? (l ++ [name]) ≠ some .folder)
    (text : String) (m : Location) :
    (e.write text (l ++ [name])).content? m =
      if m = l ++ [name] then some (Content.written text (e.content? (l ++ [name])))
      else e.content? m := by
  induction l generalizing e m with
  | nil =>
    obtain ⟨entries, rfl⟩ := eq_folder inside
    have old : (folder entries).content? [name] = (entries.lookup name).map content := by
      rw [content?_folder_cons]
      cases entries.lookup name with
      | none => rfl
      | some child => exact content?_nil child
    rw [List.nil_append, old] at leaf
    rw [List.nil_append, old, write, content?_replace]
    cases m with
    | nil => rfl
    | cons n ns =>
      by_cases same : n = name
      · subst same
        simp only [if_true, content?_write_leaf leaf, content?_folder_cons, List.cons.injEq,
          true_and]
      · simp only [List.cons.injEq, same, false_and, if_false]
  | cons k ks ih =>
    obtain ⟨entries, child, rfl, found, below⟩ := exists_folder inside
    have under (ns : Location) : (folder entries).content? (k :: ns) = child.content? ns := by
      rw [content?_folder_cons, found, Option.bind_some]
    rw [List.cons_append, under] at leaf
    rw [List.cons_append, under, write, content?_replace, found, Option.getD_some]
    cases m with
    | nil => rfl
    | cons n ns =>
      by_cases same : n = k
      · subst same
        simp only [if_true, ih below leaf, under, List.cons.injEq, true_and]
      · simp only [List.cons.injEq, same, false_and, if_false]

theorem at?_append (e : Entry) (l ns : Location) : e.at? (l ++ ns) = (e.at? l).bind (·.at? ns) := by
  induction l generalizing e with
  | nil => cases e <;> rfl
  | cons n l ih =>
    cases e with
    | folder entries =>
      rw [List.cons_append, at?, at?]
      cases entries.lookup n with
      | none => rfl
      | some child => exact ih child
    | file text => rfl
    | device => rfl

end Entry

/-! ### Paths -/

namespace FileTree

variable {t t' : FileTree} {path text name : String} {l m : Location}

/-- What stands at a location, if anything. -/
def content? (t : FileTree) (l : Location) : Option Content := t.root.content? l

theorem folderAt_eq_ok {entries : List (String × Entry)} :
    t.folderAt l = .ok entries ↔ t.root.at? l = some (.folder entries) := by
  unfold folderAt
  split <;> simp_all

theorem content?_eq_folder :
    t.content? l = some .folder ↔ ∃ entries, t.root.at? l = some (.folder entries) := by
  unfold content? Entry.content?
  rcases t.root.at? l with _ | (entries | text | _) <;> simp [Entry.content]

/-- What a name in a folder stands for. -/
theorem content?_concat {entries : List (String × Entry)}
    (h : t.root.at? l = some (.folder entries)) (name : String) :
    t.content? (l ++ [name]) = (entries.lookup name).map Entry.content := by
  rw [content?, Entry.content?, Entry.at?_append, h, Option.bind_some, Entry.at?]
  rcases entries.lookup name with _ | (children | text | _) <;> rfl

theorem lookUp_eq_ok {entries : List (String × Entry)} {found : Option Entry} :
    lookUp entries name = .ok found ↔
      name.utf8ByteSize ≤ nameLimit ∧ entries.lookup name = found := by
  unfold lookUp
  by_cases long : nameLimit < name.utf8ByteSize
  · rw [if_pos long]
    exact iff_of_false nofun fun h => absurd h.1 (Nat.not_le.2 long)
  · rw [if_neg long, Except.ok.injEq]
    exact (and_iff_right (Nat.not_lt.1 long)).symm

/-- A name is followed from a folder: to the folder itself, to the one above it, or to what the name
stands for. -/
theorem follow_eq_ok : t.follow l name = .ok m ↔ t.content? l = some .folder ∧
    if name = hereName then m = l
    else if name = aboveName then m = l.dropLast
    else name.utf8ByteSize ≤ nameLimit ∧ t.content? (l ++ [name]) ≠ none ∧ m = l ++ [name] := by
  have stays {n : Location} : (pure n : Except PathFault Location) = .ok m ↔ m = n :=
    Except.ok.injEq n m ▸ eq_comm
  rw [follow, bind_eq_ok, content?_eq_folder, ← exists_and_right]
  refine exists_congr fun entries => ?_
  rw [folderAt_eq_ok]
  refine and_congr_right fun folder => ?_
  by_cases here : name = hereName
  · rw [if_pos here, if_pos here]
    exact stays
  by_cases above : name = aboveName
  · rw [if_neg here, if_neg here, if_pos above, if_pos above]
    exact stays
  rw [if_neg here, if_neg here, if_neg above, if_neg above, bind_eq_ok, content?_concat folder]
  constructor
  · rintro ⟨found, looked, h⟩
    obtain ⟨short, rfl⟩ := lookUp_eq_ok.1 looked
    cases found : entries.lookup name with
    | none =>
      rw [found] at h
      contradiction
    | some e =>
      rw [found] at h
      exact ⟨short, nofun, stays.1 h⟩
  · rintro ⟨short, there, rfl⟩
    refine ⟨entries.lookup name, lookUp_eq_ok.2 ⟨short, rfl⟩, ?_⟩
    cases found : entries.lookup name with
    | none =>
      rw [found] at there
      exact absurd rfl there
    | some e => rfl

/-- Where the folders of a tree are folders and what stands somewhere is not gone, paths lead where
they led. -/
theorem walk_mono (folders : ∀ l, t.content? l = some .folder → t'.content? l = some .folder)
    (all : ∀ l, t.content? l ≠ none → t'.content? l ≠ none) (working : t'.working = t.working)
    {names : List String} (h : t.walk path names = .ok m) : t'.walk path names = .ok m := by
  have step {l m : Location} {name : String} (h : t.follow l name = .ok m) :
      t'.follow l name = .ok m := by
    obtain ⟨folder, leads⟩ := follow_eq_ok.1 h
    refine follow_eq_ok.2 ⟨folders l folder, ?_⟩
    split_ifs at leads ⊢
    · exact leads
    · exact leads
    · exact ⟨leads.1, all _ leads.2.1, leads.2.2⟩
  unfold walk at h ⊢
  rw [working]
  generalize (if startsAtRoot path then [] else t.working) = start at h ⊢
  induction names generalizing start with
  | nil => exact h
  | cons name names ih =>
    rw [List.foldlM_cons, bind_eq_ok] at h ⊢
    obtain ⟨next, first, rest⟩ := h
    exact ⟨next, step first, ih next rest⟩

/-- The place of a path: a name in an existing folder, where it stands for no folder. -/
structure IsPlace (t : FileTree) (path : String) (l : Location) (name : String) : Prop where
  checked : checkPath path = .ok ()
  last : names path = (names path).dropLast ++ [name]
  walked : t.walk path (names path).dropLast = .ok l
  inside : t.content? l = some .folder
  leaf : t.content? (l ++ [name]) ≠ some .folder
  short : name.utf8ByteSize ≤ nameLimit
  notHere : name ≠ hereName
  notAbove : name ≠ aboveName
  noSlash : endsInSlash path = false

theorem exists_isPlace (h : t.place path = .ok m) :
    ∃ l name, m = l ++ [name] ∧ t.IsPlace path l name := by
  obtain ⟨⟨⟩, checked, h⟩ := bind_eq_ok.1 h
  cases last : (names path).getLast? with
  | none =>
    rw [last] at h
    contradiction
  | some name =>
    rw [last] at h
    obtain ⟨l, walked, h⟩ := bind_eq_ok.1 h
    obtain ⟨entries, folder, h⟩ := bind_eq_ok.1 h
    rw [folderAt_eq_ok] at folder
    by_cases refused : (name = hereName || name = aboveName || endsInSlash path) = true
    · rw [if_pos refused] at h
      contradiction
    · rw [if_neg refused] at h
      obtain ⟨found, looked, h⟩ := bind_eq_ok.1 h
      obtain ⟨short, rfl⟩ := lookUp_eq_ok.1 looked
      rw [Bool.not_eq_true, Bool.or_eq_false_iff, Bool.or_eq_false_iff, decide_eq_false_iff_not,
        decide_eq_false_iff_not] at refused
      obtain ⟨⟨notHere, notAbove⟩, noSlash⟩ := refused
      have leaf : m = l ++ [name] ∧ t.content? (l ++ [name]) ≠ some .folder := by
        rw [content?_concat folder]
        rcases found : entries.lookup name with _ | (children | before | _)
        · rw [found] at h
          exact ⟨(Except.ok.inj h).symm, nofun⟩
        · rw [found] at h
          contradiction
        · rw [found] at h
          exact ⟨(Except.ok.inj h).symm, nofun⟩
        · rw [found] at h
          exact ⟨(Except.ok.inj h).symm, nofun⟩
      exact ⟨l, name, leaf.1, checked, (List.dropLast_append_getLast? name last).symm, walked,
        content?_eq_folder.2 ⟨entries, folder⟩, leaf.2, short, notHere, notAbove, noSlash⟩

/-! ### Writing -/

/-- A text that is written to a path changes what stands at its place, and nothing else. -/
theorem content?_write (h : t.place path = .ok l) (text : String) :
    (t.write path text).content? =
      Function.update t.content? l (some (Content.written text (t.content? l))) := by
  obtain ⟨folder, name, rfl, place⟩ := exists_isPlace h
  funext m
  rw [Function.update_apply, write, h]
  exact Entry.content?_write place.inside place.leaf text m

theorem walk_concat (names : List String) : t.walk path (names ++ [name]) = .ok m ↔
    ∃ l, t.walk path names = .ok l ∧ t.follow l name = .ok m := by
  unfold walk
  rw [List.foldlM_append, bind_eq_ok]
  simp only [List.foldlM_cons, List.foldlM_nil, bind_pure]

theorem at?_of_content? (h : t.content? l = some (.file text)) :
    t.root.at? l = some (.file text) := by
  obtain ⟨e, found, same⟩ := Option.map_eq_some_iff.1 h
  cases e with
  | folder entries => contradiction
  | file before =>
    obtain rfl := Content.file.inj same
    exact found
  | device => contradiction

/-- What is written to a path is read from it, unless a device stands there. -/
theorem text_write (h : t.place path = .ok l) (kept : t.content? l ≠ some .device) (text : String) :
    (t.write path text).text path = .ok text := by
  have content := content?_write h text
  obtain ⟨folder, name, rfl, place⟩ := exists_isPlace h
  have working : (t.write path text).working = t.working := by
    rw [write, h]
  have elsewhere {m : Location} (hm : m ≠ folder ++ [name]) :
      (t.write path text).content? m = t.content? m := by
    rw [content, Function.update_of_ne hm]
  have there : (t.write path text).content? (folder ++ [name]) = some (.file text) := by
    rw [content, Function.update_self, Content.written_of_ne kept]
  have folders (m : Location) (hm : t.content? m = some .folder) :
      (t.write path text).content? m = some .folder := by
    refine (elsewhere ?_).trans hm
    rintro rfl
    exact place.leaf hm
  have all (m : Location) (hm : t.content? m ≠ none) : (t.write path text).content? m ≠ none := by
    by_cases same : m = folder ++ [name]
    · rw [same, there]
      nofun
    · rw [elsewhere same]
      exact hm
  have walked : (t.write path text).walk path (names path) = .ok (folder ++ [name]) := by
    rw [place.last, walk_concat]
    refine ⟨folder, walk_mono folders all working place.walked, follow_eq_ok.2 ?_⟩
    rw [if_neg place.notHere, if_neg place.notAbove, there]
    exact ⟨folders folder place.inside, place.short, nofun, rfl⟩
  rw [FileTree.text, place.checked, ok_bind, place.noSlash, if_neg Bool.false_ne_true,
    List.append_nil, walked, ok_bind, at?_of_content? there]
  rfl

end FileTree

end SeqScript.CommandLine
