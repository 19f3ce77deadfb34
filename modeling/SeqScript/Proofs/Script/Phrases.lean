import SeqScript.Proofs.Script.Source

/-!
# Texts of phrases

The texts of literals, lists, objects, calls and chains are those of expressions, whatever strings
they are made of.  A member ends in a comma on its line, and a diagnostic behind the comma is a
comment, so that the line still reads as the member and the comma (`IsLine`).
-/

namespace SeqScript.Source

open Script

variable {p q : String} {b : Bracket} {o : Options} {level : Nat}

/-- A text of one expression. -/
def IsExpression (p : String) : Prop :=
  ∃ run ts, Reads p run ts ∧ Derives .expression ts

/-- A text of members, without the brackets around them. -/
def IsMembers (b : Bracket) (p : String) : Prop :=
  ∃ run ts, Reads p run ts ∧ Derives (.members b) ts

/-- A text of members that ends at a token or a blank. -/
def IsLines (b : Bracket) (p : String) : Prop :=
  ∃ ts, Reads p none ts ∧ Derives (.members b) ts

/-- A text of a member and the comma behind it. -/
def IsLine (b : Bracket) (p : String) : Prop :=
  ∃ ts, Reads p none (ts ++ [.comma]) ∧ Derives (.member b) ts

/-! ### Words, numbers and strings -/

theorem reads_run {run : Run} {c : Char} {cs : List Char} {t : Token} (text : p.toList = c :: cs)
    (first : start c = (.outside (some run), [t])) (rest : ∀ d ∈ cs, run.continues d) :
    Reads p (some run) [t] := by
  have goesOn : lex (.outside (some run)) cs = some (.outside (some run), []) :=
    lex_silent fun d mem => by rw [step, rest d mem, if_pos rfl]
  have opening : step (.outside none) c = some (.outside (some run), [t]) := congrArg some first
  rw [Reads, text]
  exact lex_cons opening goesOn

/-- A character of a class is no character outside of it. -/
theorem beq_eq_false_of_class {f : Char → Bool} {c : Char} (h : f c) (d : Char)
    (outside : f d = false) : (c == d) = false := by
  refine beq_false_of_ne ?_
  rintro rfl
  rw [h] at outside
  contradiction

theorem isLineEnd_of_class {f : Char → Bool} {c : Char} (h : f c) (newline : f '\n' = false)
    (carriage : f '\r' = false) : isLineEnd c = false := by
  rw [isLineEnd, beq_eq_false_of_class h _ newline, beq_eq_false_of_class h _ carriage,
    Bool.or_false]

theorem start_of_isIdentifierStart {c : Char} (h : isIdentifierStart c) :
    start c = (.outside (some .word), [.word]) := by
  have other := beq_eq_false_of_class h
  simp only [start, isDelimiter, other '\'' rfl, other '"' rfl, other '\x60' rfl, other '/' rfl, h,
    Bool.or_self, Bool.false_eq_true, if_false, if_true]

theorem reads_identifier {s : String} (h : isIdentifier s) : Reads s (some .word) [.word] := by
  obtain ⟨c, cs, text, start, rest⟩ := exists_of_isIdentifier h
  exact reads_run text (start_of_isIdentifierStart start) rest

theorem isExpression_identifier {s : String} (h : isIdentifier s) : IsExpression s :=
  ⟨_, _, reads_identifier h, .word⟩

theorem start_of_isDigit {c : Char} (h : c.isDigit) :
    start c = (.outside (some .number), [.number]) := by
  have other := beq_eq_false_of_class h
  have letter : isIdentifierStart c = false := by
    simp only [Char.isDigit, Bool.and_eq_true, decide_eq_true_eq, UInt32.le_iff_toNat_le,
      ge_iff_le] at h
    have alpha : c.isAlpha = (decide (c.val ≥ 'A'.val ∧ c.val ≤ 'Z'.val) ||
        (decide (c.val ≥ 'a'.val) && decide (c.val ≤ 'z'.val))) := rfl
    simp only [isIdentifierStart, alpha, other '_' rfl,
      other '$' rfl, Bool.or_false, Bool.or_eq_false_iff, Bool.and_eq_false_iff,
      decide_eq_false_iff_not, UInt32.le_iff_toNat_le, ge_iff_le]
    have last : '9'.val.toNat = 57 := rfl
    have upper : 'A'.val.toNat = 65 := rfl
    have lower : 'a'.val.toNat = 97 := rfl
    omega
  simp only [start, isDelimiter, other '\'' rfl, other '"' rfl, other '\x60' rfl, other '/' rfl,
    letter, h, Bool.or_self, Bool.true_or, Bool.false_eq_true, if_false, if_true]

/-- A numeral, with a minus sign in front or without. -/
theorem reads_numeral {cs : List Char} (numeral : IsNumeral cs)
    (text : p.toList = cs ∨ p.toList = '-' :: cs) : Reads p (some .number) [.number] := by
  have digits := isNumeralChar_of_isNumeral numeral
  rcases text with text | text
  · obtain ⟨c, ds, rfl, digit⟩ := numeral.exists_cons
    exact reads_run text (start_of_isDigit digit) (List.forall_mem_cons.1 digits).2
  · exact reads_run text rfl digits

theorem isExpression_number (n : Number) : IsExpression (number n) := by
  obtain ⟨cs, numeral, text⟩ := isNumeral_number n
  exact ⟨_, _, reads_numeral numeral text, .number⟩

theorem isExpression_decimalText (i : Int) : IsExpression (decimalText i) := by
  obtain ⟨cs, numeral, text⟩ := isNumeral_decimalText i
  exact ⟨_, _, reads_numeral numeral text, .number⟩

/-- An escaped character neither closes a string nor ends its line. -/
theorem lex_escapeChar (c : Char) :
    lex (.literal '\'') (escapeChar c) = some (.literal '\'', []) := by
  unfold escapeChar
  split
  · rfl
  · rfl
  · rfl
  · rfl
  · -- All characters that mean something in a string are among the cases above.
    rename_i backslash quote newline carriage
    refine lex_silent fun d mem => ?_
    obtain rfl := List.mem_singleton.1 mem
    have lineEnd : isLineEnd d = false := by
      rw [isLineEnd, beq_false_of_ne newline, beq_false_of_ne carriage, Bool.or_false]
    rw [step, lineEnd, beq_false_of_ne quote, beq_false_of_ne backslash]
    rfl

/-- A string literal is one token, whatever the string is. -/
theorem reads_quote (s : String) : Reads (quote s) none [.string] := by
  have body (cs : List Char) :
      lex (.literal '\'') (cs.flatMap escapeChar) = some (.literal '\'', []) := by
    induction cs with
    | nil => rfl
    | cons c cs ih =>
      rw [List.flatMap_cons]
      exact lex_append (lex_escapeChar c) ih
  have closing : lex (.literal '\'') ['\''] = some (.outside none, [.string]) := rfl
  have opening : step (.outside none) '\'' = some (.literal '\'', []) := rfl
  rw [Reads, toList_quote]
  exact lex_cons opening (lex_append (body s.toList) closing)

theorem isExpression_quote (s : String) : IsExpression (quote s) := ⟨_, _, reads_quote s, .string⟩

theorem isExpression_boolean (b : Bool) : IsExpression (if b then "true" else "false") := by
  rcases b with _ | _
  · exact isExpression_identifier (by decide)
  · exact isExpression_identifier (by decide)

theorem isExpression_literal (l : Literal) : IsExpression (literal l) := by
  cases l with
  | string s => exact isExpression_quote s
  | number n => exact isExpression_number n
  | boolean b => exact isExpression_boolean b

/-! ### Members -/

theorem isMembers_nil : IsMembers b "" := ⟨_, _, Reads.nil, .none⟩

theorem IsExpression.isMembers (h : IsExpression p) (hb : b ≠ .curly) : IsMembers b p := by
  obtain ⟨run, ts, reads, derived⟩ := h
  exact ⟨run, ts, reads, .last (.item hb derived)⟩

/-- A member in front of the other members. -/
theorem IsExpression.isMembers_append (hp : IsExpression p) (hq : IsMembers b q) (hb : b ≠ .curly)
    {comma : String} (starts : Starts ',' comma) (reads : Reads comma none [.comma]) :
    IsMembers b (p ++ (comma ++ q)) := by
  obtain ⟨run, ts, first, member⟩ := hp
  obtain ⟨run', us, rest, members⟩ := hq
  refine ⟨run', ts ++ .comma :: us, ?_, .more (.item hb member) members⟩
  exact first.close (reads.glue rest) (starts.append q) rfl rfl

/-- Lines of members, one after the other. -/
theorem isLines_join {lines : List String} (h : ∀ l ∈ lines, IsLine b l) :
    IsLines b (String.join lines) := by
  induction lines with
  | nil => exact ⟨[], Reads.nil, .none⟩
  | cons l lines ih =>
    obtain ⟨first, rest⟩ := List.forall_mem_cons.1 h
    obtain ⟨ts, line, member⟩ := first
    obtain ⟨us, lines, members⟩ := ih rest
    rw [String.join_cons]
    refine ⟨ts ++ .comma :: us, ?_, .more member members⟩
    rw [← List.singleton_append, ← List.append_assoc]
    exact line.glue lines

/-- A member whose diagnostic, if it has one, ends on its line. -/
structure IsMember (f : Fragment) : Prop where
  text : IsExpression f.text
  diagnostic : ∀ d ∈ f.diagnostic, ∀ c ∈ d.toList, isLineEnd c = false

theorem isMember_plain (h : IsExpression p) : IsMember (.plain p) := ⟨h, nofun⟩

/-- A comment gives no token. -/
theorem reads_comment {d : String} (h : ∀ c ∈ d.toList, isLineEnd c = false) :
    Reads (", //" ++ d ++ "\n") none [.comma] := by
  have body : lex .comment d.toList = some (.comment, []) :=
    lex_silent fun c mem => by rw [step, h c mem, if_neg Bool.false_ne_true]
  have opening : lex (.outside none) ", //".toList = some (.comment, [.comma]) := rfl
  have closing : lex .comment "\n".toList = some (.outside none, []) := rfl
  rw [Reads, String.toList_append, String.toList_append]
  exact lex_append (lex_append opening body) closing

/-- A member, its comma and its diagnostic read as the member and the comma. -/
theorem reads_member {f : Fragment} (h : IsMember f) (ho : o.legacyErrorComments = false) :
    ∃ ts, Reads (f.member o ++ "\n") none (ts ++ [.comma]) ∧ Derives .expression ts := by
  obtain ⟨text, diagnostic⟩ := f
  obtain ⟨⟨run, ts, reads, derived⟩, lines⟩ := h
  refine ⟨ts, ?_, derived⟩
  cases diagnostic with
  | none =>
    have comma : Reads (text ++ ("," ++ "\n")) none (ts ++ [.comma]) :=
      reads.close (c := ',') rfl ⟨_, rfl⟩ rfl rfl
    rwa [← String.append_assoc] at comma
  | some d =>
    have commented : Reads (text ++ (", //" ++ d ++ "\n")) none (ts ++ [.comma]) :=
      reads.close (c := ',') (reads_comment (lines d rfl))
        ((Starts.append ⟨_, rfl⟩ _).append _) rfl rfl
    simp only [Fragment.member, ho, Bool.false_eq_true, if_false]
    simpa only [String.append_assoc] using commented

theorem isLine_item {f : Fragment} (h : IsMember f) (ho : o.legacyErrorComments = false)
    (hb : b ≠ .curly) : IsLine b (pad level ++ f.member o ++ "\n") := by
  obtain ⟨ts, reads, derived⟩ := reads_member h ho
  refine ⟨ts, ?_, .item hb derived⟩
  rw [String.append_assoc]
  exact (Reads.pad level).glue reads

theorem reads_key (name : String) :
    ∃ run t, Reads (key name) run [t] ∧ (t = .word ∨ t = .string) := by
  unfold key
  split_ifs with h
  · exact ⟨_, _, reads_identifier h, .inl rfl⟩
  · exact ⟨_, _, reads_quote name, .inr rfl⟩

theorem reads_entry (level : Nat) (name : String) {text : String} {ts : List Token}
    (h : Reads text none (ts ++ [.comma])) (derived : Derives .expression ts) :
    IsLine .curly (pad level ++ (key name ++ (": " ++ text))) := by
  obtain ⟨run, t, first, kind⟩ := reads_key name
  have mark : Reads ": " none [.mark ':'] := rfl
  have colon : Reads (": " ++ text) none (.mark ':' :: ts ++ [.comma]) := mark.glue h
  refine ⟨t :: .mark ':' :: ts, ?_, .entry kind derived⟩
  exact (Reads.pad level).glue (first.close colon (Starts.append ⟨_, rfl⟩ _) rfl rfl)

theorem isLine_entry {name : String} {f : Fragment} (h : IsMember f)
    (ho : o.legacyErrorComments = false) :
    IsLine .curly (pad level ++ key name ++ ": " ++ f.member o ++ "\n") := by
  obtain ⟨ts, reads, derived⟩ := reads_member h ho
  simpa only [String.append_assoc] using reads_entry level name reads derived

/-- An entry of an object that has a fixed name. -/
theorem isLine_field {name : String} (hn : isIdentifier name) (h : IsExpression p) :
    IsLine .curly (pad level ++ name ++ ": " ++ p ++ ",\n") := by
  obtain ⟨run, ts, reads, derived⟩ := h
  have comma : Reads (p ++ ",\n") none (ts ++ [.comma]) :=
    reads.close (c := ',') rfl ⟨_, rfl⟩ rfl rfl
  have bare : key name = name := if_pos hn
  have line := reads_entry level name comma derived
  rw [bare] at line
  simpa only [String.append_assoc] using line

/-! ### Brackets -/

theorem isExpression_list (level : Nat) (h : IsLines .square p) :
    IsExpression ("[\n" ++ p ++ pad level ++ "]") := by
  obtain ⟨ts, reads, derived⟩ := h
  have opening : Reads "[\n" none [.opening .square] := rfl
  have closing : Reads "]" none [.closing .square] := rfl
  refine ⟨none, _, ((opening.glue reads).glue (.pad level)).glue closing, ?_⟩
  simpa using Derives.list derived

theorem isExpression_object (level : Nat) (h : IsLines .curly p) :
    IsExpression ("\x7b\n" ++ p ++ pad level ++ "\x7d") := by
  obtain ⟨ts, reads, derived⟩ := h
  have opening : Reads "\x7b\n" none [.opening .curly] := rfl
  have closing : Reads "\x7d" none [.closing .curly] := rfl
  refine ⟨none, _, ((opening.glue reads).glue (.pad level)).glue closing, ?_⟩
  simpa using Derives.object derived

theorem isExpression_emptyList : IsExpression "[]" :=
  ⟨none, [.opening .square, .closing .square], rfl, .list .none⟩

theorem isExpression_emptyObject : IsExpression "\x7b\x7d" :=
  ⟨none, [.opening .curly, .closing .curly], rfl, .object .none⟩

/-- A call with the text of its members. -/
theorem isExpression_call (hp : IsExpression p) (hq : IsMembers .round q) :
    IsExpression (p ++ ("(" ++ (q ++ ")"))) := by
  obtain ⟨run, ts, first, head⟩ := hp
  obtain ⟨run', us, rest, members⟩ := hq
  have opening : Reads "(" none [.opening .round] := rfl
  have closing : Reads ")" none [.closing .round] := rfl
  have inner := opening.glue (rest.close closing ⟨[], rfl⟩ rfl rfl)
  refine ⟨none, _, first.close inner (Starts.append ⟨[], rfl⟩ _) rfl rfl, ?_⟩
  simpa using Derives.call head members

/-! ### Objects and lists -/

theorem isExpression_entries (ho : o.legacyErrorComments = false)
    {entries : List (String × Fragment)} (h : ∀ e ∈ entries, IsMember e.2) :
    IsExpression (object o level entries) := by
  unfold object
  split_ifs
  · exact isExpression_emptyObject
  · refine isExpression_object level (isLines_join fun line mem => ?_)
    obtain ⟨e, he, rfl⟩ := List.mem_map.1 mem
    exact isLine_entry (h e he) ho

theorem isExpression_items (ho : o.legacyErrorComments = false) {items : List Fragment}
    (h : ∀ f ∈ items, IsMember f) : IsExpression (array o level items) := by
  unfold array
  split_ifs
  · exact isExpression_emptyList
  · refine isExpression_list level (isLines_join fun line mem => ?_)
    obtain ⟨f, hf, rfl⟩ := List.mem_map.1 mem
    exact isLine_item (h f hf) ho nofun

/-- Lines with commas only between them. -/
theorem isMembers_commaLines (level : Nat) {items : List String} (h : ∀ i ∈ items, IsExpression i) :
    IsMembers .square (commaLines level items) := by
  have indented {i : String} (h : IsExpression i) : IsExpression (pad level ++ i) := by
    obtain ⟨run, ts, reads, derived⟩ := h
    exact ⟨run, ts, (Reads.pad level).glue reads, derived⟩
  unfold commaLines
  induction items with
  | nil => exact isMembers_nil
  | cons i items ih =>
    obtain ⟨first, rest⟩ := List.forall_mem_cons.1 h
    rcases items with _ | ⟨j, items⟩
    · rw [List.map_cons, List.map_nil, String.intercalate_singleton]
      exact (indented first).isMembers nofun
    · rw [List.map_cons, List.map_cons, String.intercalate_cons_cons, ← List.map_cons,
        String.append_assoc]
      exact (indented first).isMembers_append (ih rest) nofun ⟨_, rfl⟩ rfl

/-- The line feed that the last member stands in front of. -/
theorem IsMembers.newline (h : IsMembers b p) : IsLines b (p ++ "\n") := by
  obtain ⟨run, ts, reads, derived⟩ := h
  have newline : Reads (p ++ "\n") none (ts ++ []) := reads.close (c := '\n') rfl ⟨_, rfl⟩ rfl rfl
  rw [List.append_nil] at newline
  exact ⟨ts, newline, derived⟩

theorem isExpression_separated {items : List String} (h : ∀ i ∈ items, IsExpression i) :
    IsExpression (separated level items) := by
  unfold separated
  split_ifs
  · exact isExpression_emptyList
  · have list := isExpression_list level (isMembers_commaLines (level + 1) h).newline
    rwa [← String.append_assoc] at list

theorem isExpression_json (level : Nat) (v : Json) : IsExpression (json level v) := by
  induction v using Json.treeInduction generalizing level with
  | null =>
    rw [json]
    exact isExpression_identifier (by decide)
  | bool b => exact isExpression_boolean b
  | number n => exact isExpression_number n
  | string s => exact isExpression_quote s
  | array vs ih =>
    rw [json, jsonItems_eq]
    refine isExpression_items rfl fun f mem => ?_
    obtain ⟨v, hv, rfl⟩ := List.mem_map.1 mem
    exact isMember_plain (ih v hv (level + 1))
  | object ms ih =>
    rw [json, jsonMembers_eq]
    refine isExpression_entries rfl fun e mem => ?_
    obtain ⟨m, hm, rfl⟩ := List.mem_map.1 mem
    exact isMember_plain (ih m hm (level + 1))

end SeqScript.Source
