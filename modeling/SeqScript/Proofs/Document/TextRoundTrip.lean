import SeqScript.Proofs.Document.Injective
import SeqScript.Proofs.Document.Numbers
import SeqScript.Proofs.Document.RoundTrip
import SeqScript.Proofs.Document.Sorted
import SeqScript.Proofs.Json.Sorted
import SeqScript.Proofs.Json.TextRoundTrip

/-!
# Reading printed documents

A sequence that was read from a text is written and printed.  The text is read again as the same
sequence exactly when its document is not nested too deep for the reader and every double in it is
read with the value that was printed (`Json.IsReread`, `readText_printed_iff`).  Neither is always
so: a bare list of arguments becomes an object and a list, which nest twice as deep, and a double
is not always read as the nearest one to its digits.
-/

namespace SeqScript

/-- The text of the number is read as a number of the same value. -/
def Number.IsReread (n : Number) : Prop := ∃ m, n.reread? = some m ∧ m.canonical = n.canonical

theorem Number.isReread_integer (i : Int) (lower : -0x8000000000000000 ≤ i)
    (upper : i < 0x10000000000000000) : (Number.integer i lower upper).IsReread :=
  ⟨_, reread?_integer i lower upper, rfl⟩

theorem Number.isReread_iff (n : Number) :
    n.IsReread ↔ n.reread?.isSome ∧ n.reread.canonical = n.canonical := by
  unfold IsReread reread
  rcases n.reread? with _ | m
  · simp
  · simp

/-- The text of the value is read as the value: it does not nest too deep, and its doubles are read
as they were printed. -/
def Json.IsReread (v : Json) : Prop :=
  v.depth ≤ nestingLimit ∧ ∀ x, .real x ∈ v.numbers → (Number.real x).IsReread

theorem Json.isReread_iff (v : Json) :
    v.IsReread ↔ v.depth ≤ nestingLimit ∧ ∀ n ∈ v.numbers, n.IsReread := by
  refine and_congr_right fun _ => ⟨fun h n hn => ?_, fun h x hx => h _ hx⟩
  rcases n with ⟨i, lower, upper⟩ | x
  · exact Number.isReread_integer i lower upper
  · exact h x hn

end SeqScript

namespace SeqScript.Document

theorem keepsEngines_reread : KeepsEngines Number.reread := by
  intro e
  unfold Number.reread Number.ofInt64
  rw [Number.reread?_integer]
  rfl

theorem value_readText_eq_ok {text : String} {s : Sequence} :
    (readText text).value = .ok s ↔ ∃ doc, Json.read text = .ok doc ∧ (read doc).value = .ok s := by
  unfold readText
  rcases Json.read text with e | doc
  · simp [identified, Checked.fail]
  · simp

/-- The numbers of a sequence keep their values under a function exactly when those of its document
do. -/
theorem equivalent_mapNumbers_iff {f : Number → Number} (hf : KeepsEngines f) {s : Sequence}
    (wellFormed : s.WellFormed) (settled : s.IsSettled) :
    (s.mapNumbers f).equivalent s ↔ ∀ n ∈ (write s).numbers, (f n).canonical = n.canonical := by
  have image : KeepsEngines fun n => (f n).canonical := fun e => by
    show (f _).canonical = _
    rw [hf]
    rfl
  have plain : KeepsEngines Number.canonical := fun _ => rfl
  rw [← Json.mapNumbers_eq_iff, ← write_mapNumbers image, ← write_mapNumbers plain,
    Sequence.equivalent, beq_iff_eq, Sequence.canonical_mapNumbers_iff]
  constructor
  · exact congrArg write
  · exact write_injective (Sequence.wellFormed_mapNumbers wellFormed).isTagged
      (Sequence.isSettled_mapNumbers settled) (Sequence.wellFormed_mapNumbers wellFormed).isTagged
      (Sequence.isSettled_mapNumbers settled)

/-- The text of the document of a sequence is read as the sequence with its numbers as they are
read. -/
theorem readText_textWith {spacing : Json.Spacing} (hs : spacing.IsBlank) {s t : Sequence}
    (wellFormed : s.WellFormed) (settled : s.IsSettled) (sorted : s.IsSorted) :
    (readText (Json.textWith spacing 0 (write s))).value = .ok t ↔
      ((write s).depth ≤ Json.nestingLimit ∧ ∀ n ∈ (write s).numbers, n.reread?.isSome) ∧
        s.mapNumbers Number.reread = t := by
  have text := Json.toOption_read hs (keysSorted_write sorted)
  have again : (read ((write s).mapNumbers Number.reread)).value =
      .ok (s.mapNumbers Number.reread) := by
    rw [← write_mapNumbers keepsEngines_reread,
      read_write (Sequence.wellFormed_mapNumbers wellFormed),
      Sequence.settle_eq_self (Sequence.isSettled_mapNumbers settled)]
  rw [value_readText_eq_ok]
  unfold Json.reread? at text
  split_ifs at text with accepted
  · rw [Json.toOption_eq_some text]
    constructor
    · rintro ⟨doc, same, found⟩
      obtain rfl := Except.ok.inj same
      exact ⟨accepted, Except.ok.inj (again.symm.trans found)⟩
    · rintro ⟨-, rfl⟩
      exact ⟨_, rfl, again⟩
  · obtain ⟨e, refused⟩ := Json.toOption_eq_none text
    rw [refused]
    constructor
    · rintro ⟨doc, found, -⟩
      contradiction
    · exact fun h => absurd h.1 accepted

theorem readText_textWith_equivalent_iff {spacing : Json.Spacing} (hs : spacing.IsBlank)
    {s : Sequence} (wellFormed : s.WellFormed) (settled : s.IsSettled) (sorted : s.IsSorted) :
    (∃ t, (readText (Json.textWith spacing 0 (write s))).value = .ok t ∧ t.equivalent s) ↔
      (write s).IsReread := by
  have same := equivalent_mapNumbers_iff keepsEngines_reread wellFormed settled
  simp only [readText_textWith hs wellFormed settled sorted, Json.isReread_iff,
    Number.isReread_iff]
  constructor
  · rintro ⟨t, ⟨⟨shallow, read⟩, rfl⟩, kept⟩
    exact ⟨shallow, fun n hn => ⟨read n hn, same.1 kept n hn⟩⟩
  · rintro ⟨shallow, numbers⟩
    exact ⟨_, ⟨⟨shallow, fun n hn => (numbers n hn).1⟩, rfl⟩,
      same.2 fun n hn => (numbers n hn).2⟩

/-- The document of a sequence that was read from a text, printed in either spacing, is read as an
equivalent sequence exactly when its depth and its doubles allow it. -/
theorem readText_printed_iff {text : String} {s : Sequence} (h : (readText text).value = .ok s) :
    ((∃ t, (readText (write s).compact).value = .ok t ∧ t.equivalent s) ↔ (write s).IsReread) ∧
    ((∃ t, (readText (write s).spread).value = .ok t ∧ t.equivalent s) ↔ (write s).IsReread) := by
  obtain ⟨doc, parsed, found⟩ := value_readText_eq_ok.1 h
  have wellFormed := wellFormed_of_read found
  have settled := isSettled_of_read found
  have sorted := isSorted_of_read (Json.keysSorted_of_read parsed) found
  exact ⟨readText_textWith_equivalent_iff Json.isBlank_compact wellFormed settled sorted,
    readText_textWith_equivalent_iff Json.isBlank_spread wellFormed settled sorted⟩

/-! ### Nested arguments -/

/-- Bare lists of arguments, one in the other, around an empty one. -/
def nestedArgument : Nat → Json
  | 0 => .array []
  | n + 1 => .array [nestedArgument n]

def nestedGroup : Nat → Argument
  | 0 => .group (.positional [])
  | n + 1 => .group (.positional [nestedGroup n])

/-- A document with one command, whose argument is nested. -/
def nestedDocument (n : Nat) : Json :=
  .object [("id", .string "deep"), ("metadata", .object []),
    ("steps", .array [.object [("args", .array [nestedArgument n]), ("stem", .string "NOOP"),
      ("type", .string "command")]])]

def nestedSequence (n : Nat) : Sequence where
  id := "deep"
  steps := some [.command { stem := "NOOP", arguments := .positional [nestedGroup n] }]

theorem readItem_nestedArgument (n : Nat) :
    readItem (nestedArgument n) = .ok (none, nestedGroup n) := by
  induction n with
  | zero => rfl
  | succ n ih =>
    simp only [nestedArgument, readItem, readItems, ih]
    rfl

theorem argumentsOf_nestedArgument (n : Nat) :
    argumentsOf [nestedArgument n] = .ok (.positional [nestedGroup n]) := by
  simp only [argumentsOf, readArguments, readItems, readItem_nestedArgument]
  rfl

theorem value_read_nestedDocument (n : Nat) :
    (read (nestedDocument n)).value = .ok (nestedSequence n) := by
  have decoded : Shape.Step.decode (.object [("args", .array [nestedArgument n]),
      ("stem", .string "NOOP"), ("type", .string "command")]) =
      .ok (.command ⟨"NOOP", none, [nestedArgument n], none, []⟩) := rfl
  have step : readStep (.object [("args", .array [nestedArgument n]), ("stem", .string "NOOP"),
      ("type", .string "command")]) =
      .ok (.command { stem := "NOOP", arguments := .positional [nestedGroup n] }) := by
    simp only [readStep, decoded, shaped, ok_bind, stepOf, timingOf, argumentsOf_nestedArgument]
    rfl
  have steps : readFrom readStep 0 [_] = .ok [_] :=
    readFrom_cons_eq_ok.2 ⟨_, [], step, rfl, rfl⟩
  exact value_read_eq_ok.2 ⟨_, rfl, rfl, rfl, rfl, rfl, rfl, rfl,
    map_eq_ok.2 ⟨_, under_eq_ok.2 steps, rfl⟩, rfl⟩

theorem depth_nestedArgument (n : Nat) : (nestedArgument n).depth = n + 1 := by
  induction n with
  | zero => rfl
  | succ n ih =>
    simp only [nestedArgument, Json.depth, Json.depthItems, ih]
    omega

theorem numbers_nestedArgument (n : Nat) : (nestedArgument n).numbers = [] := by
  induction n with
  | zero => rfl
  | succ n ih => simp only [nestedArgument, Json.numbers, Json.numbersItems, ih, List.nil_append]

theorem mapNumbers_nestedArgument (f : Number → Number) (n : Nat) :
    (nestedArgument n).mapNumbers f = nestedArgument n := by
  induction n with
  | zero => rfl
  | succ n ih => simp only [nestedArgument, Json.mapNumbers, Json.mapNumbersItems, ih]

theorem keysSorted_nestedArgument (n : Nat) : (nestedArgument n).KeysSorted := by
  induction n with
  | zero => trivial
  | succ n ih => exact ⟨ih, trivial⟩

theorem keysSorted_nestedDocument (n : Nat) : (nestedDocument n).KeysSorted :=
  ⟨(by decide : ["id", "metadata", "steps"].Pairwise (· < ·)), trivial,
    ⟨List.Pairwise.nil, trivial⟩,
    ⟨⟨(by decide : ["args", "stem", "type"].Pairwise (· < ·)),
      ⟨keysSorted_nestedArgument n, trivial⟩, trivial, trivial, trivial⟩, trivial⟩, trivial⟩

/-- The text of a document with nested arguments is read up to the limit. -/
theorem readText_nestedDocument {n : Nat} (h : n + 5 ≤ Json.nestingLimit) :
    (readText (nestedDocument n).compact).value = .ok (nestedSequence n) := by
  have shallow : (nestedDocument n).depth ≤ Json.nestingLimit := by
    simp only [nestedDocument, Json.depth, Json.depthItems, Json.depthMembers,
      depth_nestedArgument]
    omega
  have plain : (nestedDocument n).numbers = [] := by
    simp only [nestedDocument, Json.numbers, Json.numbersItems, Json.numbersMembers,
      numbers_nestedArgument, List.nil_append]
  have same : (nestedDocument n).mapNumbers Number.reread = nestedDocument n := by
    simp only [nestedDocument, Json.mapNumbers, Json.mapNumbersItems, Json.mapNumbersMembers,
      mapNumbers_nestedArgument]
  have text := Json.toOption_read Json.isBlank_compact (keysSorted_nestedDocument n)
  rw [Json.reread?, plain, same, if_pos ⟨shallow, List.forall_mem_nil _⟩] at text
  exact value_readText_eq_ok.2 ⟨_, Json.toOption_eq_some text, value_read_nestedDocument n⟩

theorem depth_writeArgument_nestedGroup (n : Nat) :
    (writeArgument (nestedGroup n)).depth = 2 * n + 1 := by
  induction n with
  | zero => rfl
  | succ n ih =>
    simp only [nestedGroup, writeArgument, writeArguments, writePositional, Json.depth,
      Json.depthItems, Json.depthMembers, ih]
    omega

/-- Each list of arguments nests twice as deep in the document that is written. -/
theorem depth_write_nestedSequence (n : Nat) : (write (nestedSequence n)).depth = 2 * n + 6 := by
  have written : write (nestedSequence n) = .object [("id", .string "deep"),
      ("metadata", .object []), ("steps", .array [.object [
        ("args", .array [.object [("type", .string "repeat"),
          ("value", writeArgument (nestedGroup n))]]),
        ("stem", .string "NOOP"), ("time", writeTiming .commandComplete),
        ("type", .string "command")]])] := by
    cases n <;> rfl
  have time : (writeTiming .commandComplete).depth = 1 := rfl
  rw [written]
  simp only [Json.depth, Json.depthItems, Json.depthMembers, depth_writeArgument_nestedGroup, time]
  omega

/-- A document that nests well below the limit is read, but not the document that is written for
it. -/
theorem readText_printed_nested :
    (readText (nestedDocument 61).compact).value = .ok (nestedSequence 61) ∧
    (¬ ∃ t, (readText (write (nestedSequence 61)).compact).value = .ok t ∧
      t.equivalent (nestedSequence 61)) ∧
    ¬ ∃ t, (readText (write (nestedSequence 61)).spread).value = .ok t ∧
      t.equivalent (nestedSequence 61) := by
  have read : (readText (nestedDocument 61).compact).value = .ok (nestedSequence 61) :=
    readText_nestedDocument (by decide)
  have deep : ¬ (write (nestedSequence 61)).IsReread := by
    intro h
    have shallow := h.1
    rw [depth_write_nestedSequence] at shallow
    exact absurd shallow (by decide)
  obtain ⟨compact, spread⟩ := readText_printed_iff read
  exact ⟨read, fun h => deep (compact.1 h), fun h => deep (spread.1 h)⟩

end SeqScript.Document
