import SeqScript.Proofs.Number.Numeral
import SeqScript.Proofs.Script.Alike
import SeqScript.Proofs.Script.Unique
import SeqScript.Script.Renderer

/-!
# Literals that are told apart

A string literal ends where it says (`unique_quote`), a number and an identifier where a character
follows that continues neither, and the first character of a value tells which kind of value it is
(`Leads`).
-/

namespace SeqScript.Script

open Tail

variable {F : Tail} {p q : String}

/-! ### Strings -/

theorem escapeChar_append_iff {c d : Char} {x y : List Char} :
    escapeChar c ++ x = escapeChar d ++ y ↔ c = d ∧ x = y := by
  unfold escapeChar
  split <;> split <;> grind

theorem escapeChar_append_ne (c : Char) (x y : List Char) : escapeChar c ++ x ≠ '\'' :: y := by
  unfold escapeChar
  split <;> simp_all

theorem escaped_append_iff {cs ds x y : List Char} :
    cs.flatMap escapeChar ++ '\'' :: x = ds.flatMap escapeChar ++ '\'' :: y ↔
      cs = ds ∧ x = y := by
  induction cs generalizing ds with
  | nil =>
    rcases ds with _ | ⟨d, ds⟩
    · simp
    · rw [List.flatMap_cons, List.append_assoc]
      exact iff_of_false (escapeChar_append_ne d _ _).symm nofun
  | cons c cs ih =>
    rcases ds with _ | ⟨d, ds⟩
    · rw [List.flatMap_cons, List.append_assoc]
      exact iff_of_false (escapeChar_append_ne c _ _) nofun
    · rw [List.flatMap_cons, List.flatMap_cons, List.append_assoc, List.append_assoc,
        escapeChar_append_iff, ih, List.cons.injEq, and_assoc]

theorem toList_quote (s : String) :
    (quote s).toList = '\'' :: (s.toList.flatMap escapeChar ++ ['\'']) :=
  String.toList_ofList

/-- A string literal tells the string and where it ends, whatever follows. -/
theorem unique_quote (s t : String) : Unique F (quote s) (quote t) (s = t) := by
  intro x y _ _
  rw [toList_quote, toList_quote, List.cons_append, List.cons_append, List.cons.injEq, eq_self,
    true_and, List.append_assoc, List.append_assoc, List.singleton_append, List.singleton_append,
    escaped_append_iff, String.toList_inj]

/-! ### Identifiers -/

theorem exists_of_isIdentifier {s : String} (h : isIdentifier s) : ∃ c cs, s.toList = c :: cs ∧
    isIdentifierStart c ∧ ∀ d ∈ cs, isIdentifierRest d := by
  unfold isIdentifier at h
  split at h
  · contradiction
  · rename_i c cs text
    rw [Bool.and_eq_true, List.all_eq_true] at h
    exact ⟨c, cs, text, h⟩

theorem isIdentifierRest_of_isIdentifier {s : String} (h : isIdentifier s) :
    ∀ c ∈ s.toList, isIdentifierRest c := by
  obtain ⟨c, cs, text, start, rest⟩ := exists_of_isIdentifier h
  rw [text]
  refine List.forall_mem_cons.2 ⟨?_, rest⟩
  rw [isIdentifierRest, start, Bool.true_or]

/-- An identifier ends in front of a character that continues none. -/
theorem unique_identifier {s t : String} (hs : isIdentifier s) (ht : isIdentifier t) :
    Unique (Stops isIdentifierRest) s t (s = t) :=
  .of_run (isIdentifierRest_of_isIdentifier hs) (isIdentifierRest_of_isIdentifier ht)

theorem stops_of_begins {k : Char → Bool} {s : String} {c : Char} {cs : List Char}
    (text : s.toList = c :: cs) (other : k c = false) {x : List Char} (h : Begins s x) :
    Stops k x := by
  obtain ⟨z, rfl⟩ := h
  rw [text]
  rintro _ ⟨⟩
  exact other

/-- An identifier does not begin like a string literal. -/
theorem identifier_apart {s t : String} (hs : isIdentifier s) : Unique F s (quote t) False := by
  obtain ⟨c, cs, text, start, -⟩ := exists_of_isIdentifier hs
  refine Starts.apart ⟨cs, text⟩ ⟨_, toList_quote t⟩ ?_
  rintro rfl
  exact absurd start (by decide)

/-- The key of a member tells its name in front of the colon. -/
theorem unique_key (m n : String) : Unique (Begins ": ") (key m) (key n) (m = n) := by
  unfold key
  split_ifs with hm hn hn
  · exact (unique_identifier hm hn).mono fun x => stops_of_begins rfl rfl
  · exact (identifier_apart hm).congr (iff_of_false id fun same => hn (same ▸ hm))
  · exact (identifier_apart hn).symm.congr (iff_of_false id fun same => hm (same ▸ hn))
  · exact unique_quote m n

/-! ### Numbers -/

/-- The characters of numbers. -/
def isNumeralChar (c : Char) : Bool :=
  c.isDigit || c == '-' || c == '+' || c == '.' || c == 'e'

theorem isNumeralChar_of_isDigit {c : Char} (h : c.isDigit) : isNumeralChar c := by
  simp [isNumeralChar, h]

theorem isNumeralChar_of_isNumeral {cs : List Char} (h : IsNumeral cs) :
    ∀ c ∈ cs, isNumeralChar c := by
  obtain ⟨whole, part, power, rfl, digits, hpart, hpower⟩ := h
  intro c hc
  rcases List.mem_append.1 hc with hc | hc
  · exact isNumeralChar_of_isDigit (digits.2 c hc)
  · rcases List.mem_append.1 hc with hc | hc
    · rcases hpart with rfl | ⟨ds, rfl, digits⟩
      · contradiction
      · rcases List.mem_cons.1 hc with rfl | hc
        · decide
        · exact isNumeralChar_of_isDigit (digits.2 c hc)
    · rcases hpower with rfl | ⟨sign, ds, rfl, hsign, digits⟩
      · contradiction
      · rcases List.mem_cons.1 hc with rfl | hc
        · decide
        · rcases List.mem_cons.1 hc with rfl | hc
          · rcases hsign with rfl | rfl <;> decide
          · exact isNumeralChar_of_isDigit (digits.2 c hc)

theorem isNumeral_decimalText (i : Int) : ∃ cs, IsNumeral cs ∧
    ((decimalText i).toList = cs ∨ (decimalText i).toList = '-' :: cs) := by
  refine ⟨Nat.toDigits 10 i.natAbs, (isDigits_toDigits _).isNumeral, ?_⟩
  rw [decimalText, String.toList_ofList]
  split_ifs
  · exact .inr rfl
  · exact .inl rfl

/-- A number is written as a numeral, with a minus sign in front or without. -/
theorem isNumeral_number (n : Number) :
    ∃ cs, IsNumeral cs ∧ ((number n).toList = cs ∨ (number n).toList = '-' :: cs) := by
  cases n with
  | integer i lower upper => exact isNumeral_decimalText i
  | real x =>
    rw [number]
    generalize wholeNumber? x = whole
    cases whole with
    | none => exact Number.isNumeral_text (.real x)
    | some i => exact isNumeral_decimalText i

theorem isNumeralChar_number (n : Number) : ∀ c ∈ (number n).toList, isNumeralChar c := by
  obtain ⟨cs, numeral, text | text⟩ := isNumeral_number n
  · exact text ▸ isNumeralChar_of_isNumeral numeral
  · rw [text]
    exact List.forall_mem_cons.2 ⟨rfl, isNumeralChar_of_isNumeral numeral⟩

theorem unique_number (m n : Number) :
    Unique (Stops isNumeralChar) (number m) (number n) (number m = number n) :=
  .of_run (isNumeralChar_number m) (isNumeralChar_number n)

theorem unique_decimalText (i j : Int) :
    Unique (Stops isNumeralChar) (decimalText i) (decimalText j) (i = j) := by
  intro x y hx hy
  have digits {z : List Char} (h : Stops isNumeralChar z) : ∀ c ∈ z.head?, c.isDigit = false :=
    fun c hc => Bool.eq_false_iff.2 fun digit =>
      Bool.false_ne_true ((h c hc).symm.trans (isNumeralChar_of_isDigit digit))
  have padded (k : Int) : (decimalText k).toList = Text.padded 0 k := by
    simp only [decimalText, String.toList_ofList, Text.padded, Nat.zero_sub, List.replicate_zero,
      List.nil_append]
  rw [padded, padded]
  exact Text.padded_append_iff (digits hx) (digits hy)

/-! ### Kinds of values -/

/-- What the first character of a value tells. -/
inductive Lead where
  | null
  | boolean
  | number
  | string
  | list
  | object
  | symbol

def lead (c : Char) : Lead :=
  if c.isDigit || c == '-' then .number
  else if c == 'n' then .null
  else if c == 't' || c == 'f' then .boolean
  else if c == '\'' then .string
  else if c == '[' then .list
  else if c == '\x7b' then .object
  else .symbol

/-- The text begins like a value of the kind. -/
def Leads (k : Lead) (p : String) : Prop := ∃ c, Starts c p ∧ lead c = k

theorem Leads.append {k : Lead} (h : Leads k p) (s : String) : Leads k (p ++ s) := by
  obtain ⟨c, starts, kind⟩ := h
  exact ⟨c, starts.append s, kind⟩

theorem Leads.apart {k l : Lead} (hp : Leads k p) (hq : Leads l q) (h : k ≠ l) :
    Unique F p q False := by
  obtain ⟨c, left, rfl⟩ := hp
  obtain ⟨d, right, rfl⟩ := hq
  exact left.apart right (ne_of_apply_ne lead h)

theorem leads_quote (s : String) : Leads .string (quote s) := ⟨_, ⟨_, toList_quote s⟩, rfl⟩

theorem leads_number (n : Number) : Leads .number (number n) := by
  obtain ⟨cs, numeral, text | text⟩ := isNumeral_number n
  · obtain ⟨c, ds, rfl, digit⟩ := numeral.exists_cons
    exact ⟨c, ⟨ds, text⟩, by simp [lead, digit]⟩
  · exact ⟨'-', ⟨cs, text⟩, rfl⟩

theorem leads_boolean (b : Bool) : Leads .boolean (if b then "true" else "false") := by
  rcases b with _ | _
  · exact ⟨'f', ⟨_, rfl⟩, rfl⟩
  · exact ⟨'t', ⟨_, rfl⟩, rfl⟩

theorem unique_boolean (a b : Bool) :
    Unique F (if a then "true" else "false") (if b then "true" else "false") (a = b) := by
  rcases a with _ | _ <;> rcases b with _ | _
  · exact (Unique.refl _).congr (iff_of_true trivial rfl)
  · exact (Starts.apart ⟨_, rfl⟩ ⟨_, rfl⟩ (by decide)).congr (iff_of_false id nofun)
  · exact (Starts.apart ⟨_, rfl⟩ ⟨_, rfl⟩ (by decide)).congr (iff_of_false id nofun)
  · exact (Unique.refl _).congr (iff_of_true trivial rfl)

/-- What the first character of a literal tells. -/
def literalLead : Literal → Lead
  | .string _ => .string
  | .number _ => .number
  | .boolean _ => .boolean

theorem leads_literal (l : Literal) : Leads (literalLead l) (literal l) := by
  cases l with
  | string s => exact leads_quote s
  | number n => exact leads_number n
  | boolean b => exact leads_boolean b

theorem unique_literal (l m : Literal) :
    Unique (Stops isNumeralChar) (literal l) (literal m) (l.Alike m) := by
  cases l with
  | string s => cases m with
    | string t => exact unique_quote s t
    | _ => exact (leads_literal _).apart (leads_literal _) nofun
  | number n => cases m with
    | number n' => exact unique_number n n'
    | _ => exact (leads_literal _).apart (leads_literal _) nofun
  | boolean a => cases m with
    | boolean b => exact unique_boolean a b
    | _ => exact (leads_literal _).apart (leads_literal _) nofun

end SeqScript.Script
