import SeqScript.Proofs.Script.Attributes
import SeqScript.Proofs.Script.Phrases

/-!
# Comments of scripts

The comments of a source are what stands between two slashes outside a literal and the end of the
line (`comments`).  A text that begins no literal and no comment that it does not end adds its
comments to those of what follows, whatever that is (`HasComments`).
-/

namespace SeqScript.Source

open Script

/-! ### Comments -/

/-- Reads a text to its end: the rest of the comment that is open, if one is, and the comments
behind it.  Nothing is read behind a literal that is not closed on its line. -/
def scan : Mode → List Char → List Char × List (List Char)
  | _, [] => ([], [])
  | m, c :: cs =>
    match step m c with
    | none => ([], [])
    | some (next, _) =>
      let (rest, later) := scan next cs
      if next = .comment then if m = .comment then (c :: rest, later) else ([], rest :: later)
      else ([], later)

/-- The comments of a text, without their slashes. -/
def comments (text : String) : List String :=
  (scan (.outside none) text.toList).2.map String.ofList

/-- A text with comments of its own, behind which other comments follow. -/
def HasComments (p : String) (ds : List String) : Prop :=
  ∀ run, ∃ run', ∀ x, (scan (.outside run) (p.toList ++ x)).2 =
    ds.map String.toList ++ (scan (.outside run') x).2

variable {p q : String} {ds es : List String} {m next : Mode} {c : Char} {cs x : List Char}
  {ts : List Token}

theorem comments_of_hasComments (h : HasComments p ds) : comments p = ds := by
  obtain ⟨run, text⟩ := h none
  have whole := text []
  rw [List.append_nil, scan, List.append_nil] at whole
  rw [comments, whole, List.map_map]
  exact (List.map_congr_left fun d _ => String.ofList_toList).trans (List.map_id ds)

namespace HasComments

theorem nil : HasComments "" [] := fun run => ⟨run, fun _ => rfl⟩

theorem append (hp : HasComments p ds) (hq : HasComments q es) :
    HasComments (p ++ q) (ds ++ es) := by
  intro run
  obtain ⟨middle, first⟩ := hp run
  obtain ⟨last, second⟩ := hq middle
  refine ⟨last, fun x => ?_⟩
  rw [String.toList_append, List.append_assoc, first, second, List.map_append, List.append_assoc]

theorem join {α : Type} {as : List α} {f : α → String} {ds : α → List String}
    (h : ∀ a ∈ as, HasComments (f a) (ds a)) :
    HasComments (String.join (as.map f)) (as.flatMap ds) := by
  induction as with
  | nil => exact nil
  | cons a as ih =>
    obtain ⟨first, rest⟩ := List.forall_mem_cons.1 h
    rw [List.map_cons, String.join_cons, List.flatMap_cons]
    exact first.append (ih rest)

end HasComments

theorem scan_cons (first : step m c = some (next, ts)) (outside : next ≠ .comment) :
    (scan m (c :: cs)).2 = (scan next cs).2 := by
  simp only [scan, first, outside, if_false]

/-- A text without comments. -/
abbrev Quiet (p : String) : Prop := HasComments p []

theorem Quiet.append (hp : Quiet p) (hq : Quiet q) : Quiet (p ++ q) := HasComments.append hp hq

theorem Quiet.join {texts : List String} (h : ∀ p ∈ texts, Quiet p) :
    Quiet (String.join texts) := by
  have comments : HasComments (String.join (texts.map id)) (texts.flatMap fun _ => []) := .join h
  rwa [List.map_id, List.flatMap_eq_nil_iff.2 fun _ _ => rfl] at comments

/-! ### Bare characters -/

/-- A character that begins neither a literal nor a comment. -/
def isBareChar (c : Char) : Bool := !isDelimiter c && c != '/'

theorem start_of_isBareChar (h : isBareChar c) : ∃ run ts, start c = (.outside run, ts) := by
  simp only [isBareChar, Bool.and_eq_true, Bool.not_eq_true', bne_iff_ne] at h
  simp only [start, h.1, Bool.false_eq_true, if_false, beq_iff_eq, h.2]
  split_ifs
  · exact ⟨_, _, rfl⟩
  · exact ⟨_, _, rfl⟩
  · exact ⟨_, _, rfl⟩

theorem step_of_isBareChar (h : isBareChar c) (run : Option Run) :
    ∃ run' ts, step (.outside run) c = some (.outside run', ts) := by
  obtain ⟨run', ts, first⟩ := start_of_isBareChar h
  rcases run with _ | k
  · exact ⟨run', ts, congrArg some first⟩
  · rw [step, first]
    split_ifs
    · exact ⟨_, _, rfl⟩
    · exact ⟨_, _, rfl⟩

theorem quiet_bare (h : ∀ c ∈ p.toList, isBareChar c) : Quiet p := by
  unfold Quiet HasComments
  generalize p.toList = cs at h
  induction cs with
  | nil => exact fun run => ⟨run, fun x => rfl⟩
  | cons c cs ih =>
    intro run
    obtain ⟨first, rest⟩ := List.forall_mem_cons.1 h
    obtain ⟨middle, ts, read⟩ := step_of_isBareChar first run
    obtain ⟨last, silent⟩ := ih rest middle
    refine ⟨last, fun x => ?_⟩
    rw [List.cons_append, scan_cons read nofun, silent]

theorem quiet_text (h : p.toList.all isBareChar) : Quiet p := quiet_bare (List.all_eq_true.1 h)

theorem quiet_pad (level : Nat) : Quiet (pad level) := by
  refine quiet_bare fun c mem => ?_
  rw [toList_pad] at mem
  rw [List.eq_of_mem_replicate mem]
  rfl

theorem isBareChar_of_class {f : Char → Bool} (h : f c)
    (outside : f '\'' = false ∧ f '"' = false ∧ f '\x60' = false ∧ f '/' = false) :
    isBareChar c := by
  simp only [isBareChar, isDelimiter, bne, beq_eq_false_of_class h _ outside.1,
    beq_eq_false_of_class h _ outside.2.1, beq_eq_false_of_class h _ outside.2.2.1,
    beq_eq_false_of_class h _ outside.2.2.2, Bool.or_false, Bool.not_false, Bool.and_self]

theorem quiet_identifier (h : isIdentifier p) : Quiet p :=
  quiet_bare fun c mem =>
    isBareChar_of_class (isIdentifierRest_of_isIdentifier h c mem) ⟨rfl, rfl, rfl, rfl⟩

theorem quiet_number (n : Number) : Quiet (number n) :=
  quiet_bare fun c mem => isBareChar_of_class (isNumeralChar_number n c mem) ⟨rfl, rfl, rfl, rfl⟩

theorem quiet_decimalText (i : Int) : Quiet (decimalText i) := by
  obtain ⟨cs, numeral, text⟩ := isNumeral_decimalText i
  have digits := isNumeralChar_of_isNumeral numeral
  refine quiet_bare fun c mem => isBareChar_of_class (f := isNumeralChar) ?_ ⟨rfl, rfl, rfl, rfl⟩
  rcases text with text | text
  · exact digits c (text ▸ mem)
  · rw [text] at mem
    exact (List.forall_mem_cons (p := fun c => isNumeralChar c = true)).2 ⟨rfl, digits⟩ c mem

/-! ### Literals -/

/-- Characters of a literal that do not end it. -/
def IsBody (d : Char) (cs : List Char) : Prop :=
  ∀ x, (scan (.literal d) (cs ++ x)).2 = (scan (.literal d) x).2

theorem isBody_of_silent {d : Char}
    (h : ∀ c ∈ cs, step (.literal d) c = some (.literal d, [])) : IsBody d cs := by
  intro x
  induction cs with
  | nil => rfl
  | cons c cs ih =>
    obtain ⟨first, rest⟩ := List.forall_mem_cons.1 h
    rw [List.cons_append, scan_cons first nofun, ih rest]

theorem isBody_escapeChar (c : Char) : IsBody '\'' (escapeChar c) := by
  unfold escapeChar
  split
  · exact fun x => rfl
  · exact fun x => rfl
  · exact fun x => rfl
  · exact fun x => rfl
  · -- Only an escaped character could have closed the literal.
    rename_i backslash quote newline carriage
    refine isBody_of_silent (List.forall_mem_singleton.2 ?_)
    have lineEnd : isLineEnd c = false := by
      rw [isLineEnd, beq_false_of_ne newline, beq_false_of_ne carriage, Bool.or_false]
    rw [step, lineEnd, beq_false_of_ne quote, beq_false_of_ne backslash]
    rfl

/-- A literal is closed by its delimiter. -/
theorem quiet_delimited {d : Char} (delimiter : isDelimiter d) (body : IsBody d cs)
    (text : p.toList = d :: (cs ++ [d])) : Quiet p := by
  have opening (run : Option Run) : step (.outside run) d = some (.literal d, []) := by
    simp only [isDelimiter, Bool.or_eq_true, beq_iff_eq] at delimiter
    rcases delimiter with (rfl | rfl) | rfl <;> rcases run with _ | _ | _ <;> rfl
  have closing : step (.literal d) d = some (.outside none, [literalToken d]) := by
    simp only [isDelimiter, Bool.or_eq_true, beq_iff_eq] at delimiter
    rcases delimiter with (rfl | rfl) | rfl <;> rfl
  refine fun run => ⟨none, fun x => ?_⟩
  rw [text, List.cons_append, scan_cons (opening run) (by simp), List.append_assoc, body,
    List.singleton_append, scan_cons closing (by simp)]
  rfl

/-- A string literal has no comments, whatever the string is. -/
theorem quiet_quote (s : String) : Quiet (quote s) := by
  refine quiet_delimited (d := '\'') rfl (fun x => ?_) (toList_quote s)
  induction s.toList with
  | nil => rfl
  | cons c cs ih => rw [List.flatMap_cons, List.append_assoc, isBody_escapeChar, ih]

theorem quiet_key (name : String) : Quiet (key name) := by
  unfold key
  split_ifs with h
  · exact quiet_identifier h
  · exact quiet_quote name

theorem quiet_literal (l : Literal) : Quiet (literal l) := by
  cases l with
  | string s => exact quiet_quote s
  | number n => exact quiet_number n
  | boolean b => cases b <;> exact quiet_text rfl

theorem quiet_timing (t : Timing) : Quiet (timing t) := by
  have tagged {text : String} (head : String) (hh : isIdentifier head)
      (times : ∀ c ∈ text.toList, isTimeChar c) :
      Quiet (head ++ "\x60" ++ text ++ "\x60") := by
    have quoted : Quiet ("\x60" ++ (text ++ "\x60")) := by
      refine quiet_delimited (d := '\x60') rfl (isBody_of_silent fun c mem => ?_)
        (by rw [String.toList_append, String.toList_append]; rfl)
      have other := beq_eq_false_of_class (times c mem)
      simp only [step, isLineEnd_of_class (times c mem) rfl rfl, other '\x60' rfl, other '\\' rfl,
        Bool.false_eq_true, if_false]
    rw [String.append_assoc, String.append_assoc]
    exact (quiet_identifier hh).append quoted
  cases t with
  | absolute i => exact tagged "A" (by decide) (isTimeChar_instant i)
  | relative d => exact tagged "R" (by decide) (isTimeChar_duration d)
  | epoch d => exact tagged "E" (by decide) (isTimeChar_duration d)
  | commandComplete => exact quiet_text rfl

/-! ### Comments at the end of a line -/

theorem scan_comment {d : List Char} (h : ∀ c ∈ d, isLineEnd c = false) (x : List Char) :
    scan .comment (d ++ '\n' :: x) = (d, (scan (.outside none) x).2) := by
  induction d with
  | nil => rfl
  | cons c d ih =>
    obtain ⟨first, rest⟩ := List.forall_mem_cons.1 h
    have goesOn : step .comment c = some (.comment, []) := by
      rw [step, first, if_neg Bool.false_ne_true]
    simp only [List.cons_append, scan, goesOn, ih rest, if_true]

theorem hasComments_comment {d : String} (h : ∀ c ∈ d.toList, isLineEnd c = false) :
    HasComments ("//" ++ (d ++ "\n")) [d] := by
  have slash (run : Option Run) : step (.outside run) '/' = some (.slash, []) := by
    rcases run with _ | _ | _ <;> rfl
  have begins : step .slash '/' = some (.comment, []) := rfl
  refine fun run => ⟨none, fun x => ?_⟩
  have text : ("//" ++ (d ++ "\n")).toList ++ x = '/' :: '/' :: (d.toList ++ '\n' :: x) := by
    simp
  rw [text, scan_cons (slash run) nofun]
  simp only [scan, begins, scan_comment h x]
  rfl

/-! ### Layout -/

section

variable (o : Options) (level : Nat)

theorem quiet_array {items : List String} (h : ∀ p ∈ items, Quiet p) :
    Quiet (array o level (items.map .plain)) := by
  unfold array itemLines
  split_ifs
  · exact quiet_text rfl
  · rw [List.map_map]
    refine (((quiet_text rfl).append (.join ?_)).append (quiet_pad level)).append (quiet_text rfl)
    refine List.forall_mem_map.2 fun p mem => ?_
    exact ((quiet_pad (level + 1)).append ((h p mem).append (quiet_text rfl))).append
      (quiet_text rfl)

theorem quiet_object {entries : List (String × String)} (h : ∀ e ∈ entries, Quiet e.2) :
    Quiet (object o level (entries.map fun e => (e.1, .plain e.2))) := by
  unfold object memberLines
  split_ifs
  · exact quiet_text rfl
  · rw [List.map_map]
    refine (((quiet_text rfl).append (.join ?_)).append (quiet_pad level)).append (quiet_text rfl)
    refine List.forall_mem_map.2 fun e mem => ?_
    exact ((((quiet_pad (level + 1)).append (quiet_key e.1)).append (quiet_text rfl)).append
      ((h e mem).append (quiet_text rfl))).append (quiet_text rfl)

theorem quiet_json (v : Json) : Quiet (json level v) := by
  induction v using Json.treeInduction generalizing level with
  | null =>
    rw [json]
    exact quiet_text rfl
  | bool b =>
    rw [json]
    exact quiet_literal (.boolean b)
  | number n => exact quiet_number n
  | string s => exact quiet_quote s
  | array vs ih =>
    have items : jsonItems (level + 1) vs = (vs.map (json (level + 1))).map .plain := by
      rw [jsonItems_eq, List.map_map]
      rfl
    rw [json, items]
    exact quiet_array {} level (List.forall_mem_map.2 fun v mem => ih v mem (level + 1))
  | object ms ih =>
    have entries : jsonMembers (level + 1) ms =
        (ms.map fun m => (m.1, json (level + 1) m.2)).map fun e => (e.1, .plain e.2) := by
      rw [jsonMembers_eq, List.map_map]
      rfl
    rw [json, entries]
    exact quiet_object {} level (List.forall_mem_map.2 fun m mem => ih m mem (level + 1))

/-! ### Attributes -/

/-- Attributes whose names and values have no comments. -/
def AreQuiet (attributes : List Attribute) : Prop := ∀ a ∈ attributes, Quiet a.1 ∧ Quiet a.2

theorem AreQuiet.append {as bs : List Attribute} (ha : AreQuiet as) (hb : AreQuiet bs) :
    AreQuiet (as ++ bs) :=
  List.forall_mem_append.2 ⟨ha, hb⟩

theorem areQuiet_option {α : Type} {name : String} {f : α → String} (hn : Quiet name)
    (h : ∀ a, Quiet (f a)) (v : Option α) : AreQuiet (v.toList.map fun a => (name, f a)) :=
  List.forall_mem_map.2 fun a _ => ⟨hn, h a⟩

theorem areQuiet_description (a : Annotations) : AreQuiet (descriptionAttribute a) := by
  have name : Quiet "DESCRIPTION" := quiet_text rfl
  exact areQuiet_option name quiet_quote _

theorem areQuiet_engine (engine : Option Int64) : AreQuiet (engineAttribute engine) := by
  have name : Quiet "ENGINE" := quiet_text rfl
  have value (e : Int64) : Quiet (decimalText e.toInt) := quiet_decimalText e.toInt
  exact areQuiet_option name value engine

theorem areQuiet_epoch (epoch : Option String) : AreQuiet (epochAttribute epoch) := by
  have name : Quiet "EPOCH" := quiet_text rfl
  exact areQuiet_option name quiet_quote epoch

theorem areQuiet_metadata (a : Annotations) : AreQuiet (metadataAttribute level a) := by
  unfold metadataAttribute
  split_ifs
  · exact List.forall_mem_nil _
  · have name : Quiet "METADATA" := quiet_text rfl
    exact List.forall_mem_singleton.2 ⟨name, quiet_json level _⟩

theorem areQuiet_annotations (a : Annotations) : AreQuiet (annotationAttributes level a) :=
  fun e mem => ((areQuiet_description a).append (areQuiet_metadata level a)) e
    (Keyed.mem_ofPairs mem)

/-- What is chained to a head. -/
theorem quiet_chain {head : String} {attributes : List Attribute} (hp : Quiet head)
    (h : AreQuiet attributes) : Quiet (chain level head attributes) := by
  refine hp.append (.join (List.forall_mem_map.2 fun a mem => ?_))
  obtain ⟨name, value⟩ := h a mem
  exact ((((((quiet_text rfl).append (quiet_pad level)).append (quiet_text rfl)).append
    name).append (quiet_text rfl)).append value).append (quiet_text rfl)

end

end SeqScript.Source
