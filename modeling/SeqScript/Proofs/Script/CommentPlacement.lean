import Mathlib.Data.Finset.Card
import SeqScript.Proofs.Script.Diagnostics
import SeqScript.Proofs.Script.Lines
import SeqScript.Proofs.Text.Lines

/-!
# Placement of comments

The comment of an unknown symbol stands behind the comma of its member, or in front of it with the
legacy option.  A script is laid out around its symbols in the same way with either option
(`laidOut_sequence`), and the text of an unknown symbol ends its line.  So the two scripts have the
same lines, but for one line of each occurrence of an unknown symbol, whose comma is moved
(`render_comment_placement`).
-/

namespace SeqScript

/-! ### Lists that differ at some places -/

/-- The lists agree but for some places, whose number is counted, and are related there. -/
inductive SameBut {α : Type} (R : α → α → Prop) : List α → List α → Nat → Prop
  | nil : SameBut R [] [] 0
  | same {as bs : List α} {n : Nat} (a : α) (rest : SameBut R as bs n) :
    SameBut R (a :: as) (a :: bs) n
  | related {as bs : List α} {n : Nat} {a b : α} (h : R a b) (rest : SameBut R as bs n) :
    SameBut R (a :: as) (b :: bs) (n + 1)

namespace SameBut

variable {α : Type} {R : α → α → Prop} {as bs : List α} {n : Nat}

theorem refl (as : List α) : SameBut R as as 0 := by
  induction as with
  | nil => exact nil
  | cons a as ih => exact same a ih

theorem append (first : List α) (h : SameBut R as bs n) :
    SameBut R (first ++ as) (first ++ bs) n := by
  induction first with
  | nil => exact h
  | cons a first ih => exact same a ih

theorem length_eq (h : SameBut R as bs n) : as.length = bs.length := by
  induction h with
  | nil => rfl
  | same a _ ih => rw [List.length_cons, List.length_cons, ih]
  | related _ _ ih => rw [List.length_cons, List.length_cons, ih]

/-- The places of a list behind one more item. -/
def shifted (places : Finset Nat) : Finset Nat := places.map ⟨Nat.succ, Nat.succ_injective⟩

theorem succ_mem_shifted {places : Finset Nat} {i : Nat} : i + 1 ∈ shifted places ↔ i ∈ places :=
  Finset.mem_map' ⟨Nat.succ, Nat.succ_injective⟩

theorem zero_notMem_shifted (places : Finset Nat) : 0 ∉ shifted places := by
  intro zero
  obtain ⟨i, -, hi⟩ := Finset.mem_map.1 zero
  exact Nat.succ_ne_zero i hi

/-- The places where the lists differ. -/
theorem exists_places (h : SameBut R as bs n) : ∃ places : Finset Nat, places.card = n ∧
    (∀ i ∈ places, ∃ a b, as[i]? = some a ∧ bs[i]? = some b ∧ R a b) ∧
    ∀ i ∉ places, as[i]? = bs[i]? := by
  induction h with
  | nil => exact ⟨∅, rfl, by simp, fun _ _ => rfl⟩
  | same a _ ih =>
    obtain ⟨places, card, inside, outside⟩ := ih
    refine ⟨shifted places, ?_, ?_, ?_⟩
    · rw [shifted, Finset.card_map, card]
    · rintro (_ | i) hi
      · exact absurd hi (zero_notMem_shifted places)
      · exact inside i (succ_mem_shifted.1 hi)
    · rintro (_ | i) hi
      · rfl
      · exact outside i (mt succ_mem_shifted.2 hi)
  | related h _ ih =>
    obtain ⟨places, card, inside, outside⟩ := ih
    refine ⟨insert 0 (shifted places), ?_, ?_, ?_⟩
    · rw [Finset.card_insert_of_notMem (zero_notMem_shifted places), shifted, Finset.card_map, card]
    · rintro (_ | i) hi
      · exact ⟨_, _, rfl, rfl, h⟩
      · exact inside i (succ_mem_shifted.1 (Finset.mem_of_mem_insert_of_ne hi (Nat.succ_ne_zero i)))
    · rintro (_ | i) hi
      · exact absurd (Finset.mem_insert_self 0 _) hi
      · exact outside i fun mem => hi (Finset.mem_insert_of_mem (succ_mem_shifted.2 mem))

end SameBut

namespace Script

open Context

/-! ### Unknown symbols -/

/-- The comma of the first line is moved behind the comment of the second. -/
def CommaMoved (a b : String) : Prop :=
  ∃ p m, a = p ++ ", //ERROR: " ++ m ∧ b = p ++ " //ERROR: " ++ m ++ ","

/-- A literal or declared symbol is written alike with all options. -/
theorem leafText_declared {c d : Context} (scope : c.scope = d.scope) {l : Leaf}
    (h : l.undeclared? c.scope = none) : leafText c l = leafText d l := by
  cases l with
  | literal l => rfl
  | symbol name =>
    by_cases declared : (Scope.declares c.scope.locals name ||
        Scope.declares c.scope.parameters name) = true
    · rw [Bool.or_eq_true] at declared
      rw [leafText, leafText, ← scope]
      by_cases locals : Scope.declares c.scope.locals name = true
      · rw [if_pos locals, if_pos locals]
      · have parameters := declared.resolve_left locals
        rw [if_neg locals, if_neg locals, if_pos parameters, if_pos parameters]
    · rw [Leaf.undeclared?, if_neg declared] at h
      contradiction

/-- What follows the path of an unknown symbol on its line. -/
def commentText (o : Options) (name : String) : String :=
  if o.legacyErrorComments then " //ERROR: " ++ Warning.undefinedMessage name ++ ","
  else ", //ERROR: " ++ Warning.undefinedMessage name

theorem commentText_oneLine (o : Options) {name : String} (h : '\n' ∉ name.toList) :
    '\n' ∉ (commentText o name).toList := by
  have fixed : lineEnds '\n' ", //ERROR: " = 0 ∧ lineEnds '\n' " //ERROR: " = 0 ∧
      lineEnds '\n' "," = 0 ∧ lineEnds '\n' "Variable '" = 0 ∧
      lineEnds '\n' "' is not defined as a local or parameter" = 0 := by decide
  rw [← lineEnds_eq_zero_iff] at h ⊢
  rw [commentText]
  split_ifs <;> simp only [lineEnds_append, Warning.undefinedMessage, fixed, h]

/-- An unknown symbol up to the end of its line. -/
theorem leafText_undeclared (c : Context) {l : Leaf} {name : String}
    (h : l.undeclared? c.scope = some name) :
    leafText c l = "unknown." ++ name ++ commentText c.options name ++ "\n" := by
  cases l with
  | literal l => contradiction
  | symbol symbol =>
    rw [Leaf.undeclared?] at h
    by_cases declared : (Scope.declares c.scope.locals symbol ||
        Scope.declares c.scope.parameters symbol) = true
    · rw [if_pos declared] at h
      contradiction
    · rw [if_neg declared] at h
      obtain rfl := Option.some.inj h
      rw [Bool.or_eq_true, not_or] at declared
      have behind : ", //ERROR: " = ", " ++ ("//" ++ "ERROR: ") := rfl
      have inFront : " //ERROR: " = " " ++ ("//" ++ "ERROR: ") := rfl
      rw [leafText, if_neg declared.1, if_neg declared.2, diagnosticText, commentText, behind,
        inFront]
      split_ifs <;> simp only [String.append_assoc, String.append_empty]

/-- An unknown symbol is on the line that the text in front of it ends with, and ends that line. -/
theorem exists_lines_undeclared {l : Leaf} {name : String} (oneLine : '\n' ∉ name.toList)
    (start : String) : ∃ first last, ∀ c : Context, l.undeclared? c.scope = some name →
      ∀ rest, Text.lines (start ++ leafText c l ++ rest) =
        first ++ (last ++ commentText c.options name) :: Text.lines rest := by
  obtain ⟨first, last, lines⟩ := Text.exists_last_line (start ++ ("unknown." ++ name))
  refine ⟨first, last, fun c h rest => ?_⟩
  have text : start ++ leafText c l ++ rest =
      start ++ ("unknown." ++ name) ++ commentText c.options name ++ ("\n" ++ rest) := by
    rw [leafText_undeclared c h]
    simp only [String.append_assoc]
  rw [text, Text.lines_append_newline, lines _ (commentText_oneLine c.options oneLine),
    List.append_assoc, List.singleton_append]

/-! ### Scripts -/

section

variable {c d : Context} (scope : c.scope = d.scope)

include scope

theorem assemble_eq_of_declared {pieces : List Piece}
    (h : (pieces.filterMap Piece.leaf?).filterMap (Leaf.undeclared? c.scope) = []) :
    assemble c pieces = assemble d pieces := by
  rw [List.filterMap_eq_nil_iff] at h
  apply congrArg String.join
  apply List.map_congr_left
  intro piece mem
  cases piece with
  | layout text => rfl
  | leaf l => exact leafText_declared scope (h l (List.mem_filterMap.2 ⟨_, mem, rfl⟩))

/-- Pieces behind some text have the same lines with either placement, but for those of the unknown
symbols. -/
theorem sameBut_assemble (hc : c.options.legacyErrorComments = false)
    (hd : d.options.legacyErrorComments = true) {pieces : List Piece}
    (names : ∀ name ∈ (pieces.filterMap Piece.leaf?).filterMap (Leaf.undeclared? c.scope),
      '\n' ∉ name.toList) (start : String) :
    SameBut CommaMoved (Text.lines (start ++ assemble c pieces))
      (Text.lines (start ++ assemble d pieces))
      ((pieces.filterMap Piece.leaf?).filterMap (Leaf.undeclared? c.scope)).length := by
  induction pieces generalizing start with
  | nil => exact .refl _
  | cons piece pieces ih =>
    have next (c : Context) : start ++ assemble c (piece :: pieces) =
        start ++ piece.text c ++ assemble c pieces := by
      rw [assemble, List.map_cons, String.join_cons, ← String.append_assoc, assemble]
    rw [next, next]
    cases piece with
    | layout text => exact ih names (start ++ text)
    | leaf l =>
      have leaves : (Piece.leaf l :: pieces).filterMap Piece.leaf? =
        l :: pieces.filterMap Piece.leaf? := rfl
      rw [leaves] at names ⊢
      cases unknown : l.undeclared? c.scope with
      | none =>
        rw [List.filterMap_cons_none unknown] at names ⊢
        have same : (Piece.leaf l).text c = (Piece.leaf l).text d := leafText_declared scope unknown
        rw [same]
        exact ih names (start ++ (Piece.leaf l).text d)
      | some name =>
        rw [List.filterMap_cons_some unknown] at names ⊢
        obtain ⟨oneLine, others⟩ := List.forall_mem_cons.1 names
        obtain ⟨first, last, ended⟩ := exists_lines_undeclared oneLine start
        have rest := ih others ""
        rw [String.empty_append, String.empty_append] at rest
        rw [Piece.text, Piece.text, ended c unknown, ended d (scope ▸ unknown), commentText,
          commentText, hc, hd]
        refine .append first (.related ⟨last, Warning.undefinedMessage name, ?_, ?_⟩ rest)
        · simp [String.append_assoc]
        · simp [String.append_assoc]

end

/-- The scripts with either placement of comments have as many lines, and differ on as many of them
as there are occurrences of unknown symbols, if these have names on one line.  On each of these
lines the comma is moved from the front of the comment to its end.  Without unknown symbols the
scripts are the same. -/
theorem render_comment_placement (s : Sequence) (o : Options) :
    let behind := (render s { o with legacyErrorComments := false }).value
    let inFront := (render s { o with legacyErrorComments := true }).value
    let unknown := s.leaves.filterMap (Leaf.undeclared? s.scope)
    ((∀ name ∈ unknown, '\n' ∉ name.toList) →
      (Text.lines behind).length = (Text.lines inFront).length ∧
      ∃ places : Finset Nat, places.card = unknown.length ∧
        (∀ i ∈ places, ∃ p m, (Text.lines behind)[i]? = some (p ++ ", //ERROR: " ++ m) ∧
          (Text.lines inFront)[i]? = some (p ++ " //ERROR: " ++ m ++ ",")) ∧
        ∀ i ∉ places, (Text.lines behind)[i]? = (Text.lines inFront)[i]?) ∧
    (unknown = [] → behind = inFront) := by
  intro behind inFront unknown
  let c : Context := ⟨s.scope, { o with legacyErrorComments := false }⟩
  let d : Context := ⟨s.scope, { o with legacyErrorComments := true }⟩
  obtain ⟨pieces, leaves, -, text⟩ := laidOut_sequence s
  have hc : behind = assemble c pieces := text c
  have hd : inFront = assemble d pieces := text d
  rw [hc, hd]
  refine ⟨fun names => ?_, fun none => ?_⟩
  · have oneLine : ∀ name ∈ (pieces.filterMap Piece.leaf?).filterMap (Leaf.undeclared? c.scope),
        '\n' ∉ name.toList := by
      rw [leaves]
      exact names
    have lines := sameBut_assemble (c := c) (d := d) rfl rfl rfl oneLine ""
    rw [String.empty_append, String.empty_append, leaves] at lines
    obtain ⟨places, card, inside, outside⟩ := lines.exists_places
    refine ⟨lines.length_eq, places, card, fun i mem => ?_, outside⟩
    obtain ⟨a, b, ha, hb, p, m, rfl, rfl⟩ := inside i mem
    exact ⟨p, m, ha, hb⟩
  · apply assemble_eq_of_declared (c := c) (d := d) rfl
    rw [leaves]
    exact none

/-- A command and a ground block with symbols, of which two are not declared. -/
def strangers : Sequence :=
  { id := "a", locals := some [⟨none, .float, "x", {}⟩], steps := some [
    .command { stem := "ADD", arguments := .positional [.symbol "x", .group (.named [
      ("k", .symbol "y"), ("l", .literal (.string "// z"))])] },
    .groundBlock { name := "b", arguments := .named [("m", .symbol "z")] }] }

/-- The scripts differ on two lines, one in a group of a command and one in a typed argument. -/
theorem render_comment_placement_strangers :
    (∀ name ∈ strangers.leaves.filterMap (Leaf.undeclared? strangers.scope), '\n' ∉ name.toList) ∧
    strangers.leaves.filterMap (Leaf.undeclared? strangers.scope) = ["y", "z"] ∧
    ∃ places : Finset Nat, places.card = 2 ∧
      (∀ i ∈ places, ∃ p m,
        (Text.lines (render strangers {}).value)[i]? = some (p ++ ", //ERROR: " ++ m) ∧
        (Text.lines (render strangers { legacyErrorComments := true }).value)[i]? =
          some (p ++ " //ERROR: " ++ m ++ ",")) ∧
      ∀ i ∉ places, (Text.lines (render strangers {}).value)[i]? =
        (Text.lines (render strangers { legacyErrorComments := true }).value)[i]? := by
  have names : ∀ name ∈ strangers.leaves.filterMap (Leaf.undeclared? strangers.scope),
      '\n' ∉ name.toList := by decide
  exact ⟨names, rfl, ((render_comment_placement strangers {}).1 names).2⟩

end Script

end SeqScript
