import SeqScript.Proofs.Script.Literal

/-!
# Quotations

A string literal is scanned from its opening quote on: a backslash takes the next character with
it, and the first quote that is not taken is the closing one (`scanString`).  The literal of a
string is scanned as the string, whatever follows, and is the only text of one line that is
(`scanString_quote`, `eq_quote_of_scanString`).  The first character of a key tells whether it is
quoted, and a bare key is scanned up to the first character that continues no identifier
(`scanKey`).  So quotations and keys are encodings that tell their own end (`scanned_quote_key`).
-/

namespace SeqScript.Script

open Tail

/-! ### Scanning -/

/-- The character that an escape stands for, by the one behind its backslash. -/
def unescape? (c : Char) : Option Char :=
  match c with
  | '\\' => some '\\'
  | '\'' => some '\''
  | 'n' => some '\n'
  | 'r' => some '\r'
  | _ => none

/-- The string up to its closing quote, and the text behind the quote. -/
def scanBody : List Char → Option (List Char × List Char)
  | [] => none
  | '\'' :: x => some ([], x)
  | ['\\'] => none
  | '\\' :: c :: cs => (unescape? c).bind fun d => (scanBody cs).map fun r => (d :: r.1, r.2)
  | c :: cs => (scanBody cs).map fun r => (c :: r.1, r.2)

/-- The string of the literal that a text begins with, and the text behind the literal. -/
def scanString : List Char → Option (String × List Char)
  | '\'' :: cs => (scanBody cs).map fun r => (String.ofList r.1, r.2)
  | _ => none

inductive KeyForm where
  | bare
  | quoted
  deriving DecidableEq

/-- The form and the name of the key that a text begins with, and the text behind the key. -/
def scanKey (cs : List Char) : Option (KeyForm × String × List Char) :=
  if cs.head? = some '\'' then (scanString cs).map fun r => (.quoted, r)
  else
    let name := String.ofList (cs.takeWhile isIdentifierRest)
    if isIdentifier name then some (.bare, name, cs.dropWhile isIdentifierRest) else none

/-! ### Escapes -/

/-- A character is written behind a backslash, as the escape that stands for it, or as itself. -/
theorem escapeChar_cases (c : Char) :
    (∃ d, unescape? d = some c ∧ escapeChar c = ['\\', d]) ∨
      (c ≠ '\\' ∧ c ≠ '\'' ∧ c ≠ '\n' ∧ c ≠ '\r') ∧ escapeChar c = [c] := by
  unfold escapeChar
  split
  · exact .inl ⟨'\\', rfl, rfl⟩
  · exact .inl ⟨'\'', rfl, rfl⟩
  · exact .inl ⟨'n', rfl, rfl⟩
  · exact .inl ⟨'r', rfl, rfl⟩
  · rename_i backslash quote newline carriage
    exact .inr ⟨⟨backslash, quote, newline, carriage⟩, rfl⟩

theorem escapeChar_plain {c : Char} (backslash : c ≠ '\\') (quote : c ≠ '\'') (newline : c ≠ '\n')
    (carriage : c ≠ '\r') : escapeChar c = [c] := by
  unfold escapeChar
  split <;> trivial

theorem escapeChar_of_unescape? {c d : Char} (h : unescape? c = some d) :
    escapeChar d = ['\\', c] := by
  unfold unescape? at h
  split at h
  · obtain rfl := Option.some.inj h
    rfl
  · obtain rfl := Option.some.inj h
    rfl
  · obtain rfl := Option.some.inj h
    rfl
  · obtain rfl := Option.some.inj h
    rfl
  · contradiction

/-- No character is written with a line end. -/
theorem escapeChar_oneLine (c : Char) : '\n' ∉ escapeChar c ∧ '\r' ∉ escapeChar c := by
  rcases escapeChar_cases c with ⟨d, escape, text⟩ | ⟨⟨-, -, newline, carriage⟩, text⟩
  · -- No line end stands behind a backslash.
    have newline : '\n' ≠ d := by
      rintro rfl
      contradiction
    have carriage : '\r' ≠ d := by
      rintro rfl
      contradiction
    simp [text, newline, carriage]
  · simp [text, Ne.symm newline, Ne.symm carriage]

theorem length_le_escaped (cs : List Char) : cs.length ≤ (cs.flatMap escapeChar).length := by
  induction cs with
  | nil => exact Nat.le_refl 0
  | cons c cs ih =>
    have positive : 0 < (escapeChar c).length := by
      rcases escapeChar_cases c with ⟨d, -, text⟩ | ⟨-, text⟩
      · rw [text]
        exact Nat.zero_lt_succ 1
      · rw [text]
        exact Nat.zero_lt_one
    rw [List.flatMap_cons, List.length_append, List.length_cons]
    omega

theorem scanBody_plain {c : Char} (quote : c ≠ '\'') (backslash : c ≠ '\\') (cs : List Char) :
    scanBody (c :: cs) = (scanBody cs).map fun r => (c :: r.1, r.2) := by
  rw [scanBody]
  · exact quote
  · exact fun same _ => backslash same
  · exact fun _ _ same _ => backslash same

/-- A written character is scanned as itself. -/
theorem scanBody_escapeChar (c : Char) (cs : List Char) :
    scanBody (escapeChar c ++ cs) = (scanBody cs).map fun r => (c :: r.1, r.2) := by
  rcases escapeChar_cases c with ⟨d, escape, text⟩ | ⟨⟨backslash, quote, -, -⟩, text⟩
  · rw [text, List.cons_append, List.singleton_append, scanBody, escape]
    rfl
  · rw [text]
    exact scanBody_plain quote backslash cs

/-! ### Literals -/

theorem scanBody_escaped (s x : List Char) :
    scanBody (s.flatMap escapeChar ++ '\'' :: x) = some (s, x) := by
  induction s with
  | nil => rfl
  | cons c s ih =>
    rw [List.flatMap_cons, List.append_assoc, scanBody_escapeChar, ih]
    rfl

/-- What is scanned is a text in front of the rest, and if that text stays on its line, each of its
characters is escaped as it has to be. -/
theorem exists_of_scanBody {cs s x : List Char} (h : scanBody cs = some (s, x)) :
    ∃ p, cs = p ++ x ∧ ('\n' ∉ p → '\r' ∉ p → p = s.flatMap escapeChar ++ ['\'']) := by
  fun_induction scanBody cs generalizing s with
  | case1 => contradiction
  | case2 y =>
    obtain ⟨rfl, rfl⟩ := Prod.mk.inj (Option.some.inj h)
    exact ⟨['\''], rfl, fun _ _ => rfl⟩
  | case3 => contradiction
  | case4 c cs ih =>
    obtain ⟨d, escape, h⟩ := Option.bind_eq_some_iff.1 h
    obtain ⟨⟨t, y⟩, scanned, same⟩ := Option.map_eq_some_iff.1 h
    obtain ⟨rfl, rfl⟩ := Prod.mk.inj same
    obtain ⟨p, rfl, literal⟩ := ih scanned
    refine ⟨'\\' :: c :: p, rfl, fun newline carriage => ?_⟩
    simp only [List.mem_cons, not_or] at newline carriage
    rw [literal newline.2.2 carriage.2.2, List.flatMap_cons, escapeChar_of_unescape? escape]
    rfl
  | case5 c cs quote alone backslash ih =>
    have plain : c ≠ '\\' := by
      rintro rfl
      rcases cs with _ | ⟨d, ds⟩
      · exact alone rfl rfl
      · exact backslash d ds rfl rfl
    obtain ⟨⟨t, y⟩, scanned, same⟩ := Option.map_eq_some_iff.1 h
    obtain ⟨rfl, rfl⟩ := Prod.mk.inj same
    obtain ⟨p, rfl, literal⟩ := ih scanned
    refine ⟨c :: p, rfl, fun newline carriage => ?_⟩
    simp only [List.mem_cons, not_or] at newline carriage
    rw [literal newline.2 carriage.2, List.flatMap_cons,
      escapeChar_plain plain quote (Ne.symm newline.1) (Ne.symm carriage.1)]
    rfl

/-- A string is scanned from its literal, whatever follows. -/
theorem scanString_quote (s : String) (x : List Char) :
    scanString ((quote s).toList ++ x) = some (s, x) := by
  rw [toList_quote, List.cons_append, List.append_assoc, List.singleton_append, scanString,
    scanBody_escaped, Option.map_some, String.ofList_toList]

/-- No other text of one line is scanned as the string. -/
theorem eq_quote_of_scanString {p x : List Char} {s : String} (newline : '\n' ∉ p)
    (carriage : '\r' ∉ p) (h : scanString (p ++ x) = some (s, x)) : p = (quote s).toList := by
  unfold scanString at h
  split at h
  · rename_i cs text
    obtain ⟨⟨t, y⟩, scanned, same⟩ := Option.map_eq_some_iff.1 h
    obtain ⟨rfl, rfl⟩ := Prod.mk.inj same
    obtain ⟨q, rfl, literal⟩ := exists_of_scanBody scanned
    obtain rfl : p = '\'' :: q := List.append_cancel_right text
    rw [List.mem_cons, not_or] at newline carriage
    rw [toList_quote, String.toList_ofList, literal newline.2 carriage.2]
  · contradiction

theorem quote_oneLine (s : String) : '\n' ∉ (quote s).toList ∧ '\r' ∉ (quote s).toList := by
  simp only [toList_quote, List.mem_cons, List.mem_append, List.mem_flatMap, not_or, not_exists,
    not_and, List.not_mem_nil, not_false_eq_true, and_true]
  exact ⟨⟨by decide, fun c _ => (escapeChar_oneLine c).1, by decide⟩,
    by decide, fun c _ => (escapeChar_oneLine c).2, by decide⟩

/-! ### Keys -/

theorem head?_of_isIdentifier {s : String} (h : isIdentifier s) (x : List Char) :
    (s.toList ++ x).head? ≠ some '\'' := by
  obtain ⟨c, cs, text, start, -⟩ := exists_of_isIdentifier h
  rw [text]
  rintro ⟨⟩
  exact absurd start (by decide)

/-- A bare key is scanned up to a character that continues no identifier, a quoted one up to its
closing quote. -/
theorem scanKey_key {name : String} {x : List Char}
    (ends : isIdentifier name → Stops isIdentifierRest x) :
    scanKey ((key name).toList ++ x) =
      some (if isIdentifier name then .bare else .quoted, name, x) := by
  unfold key scanKey
  by_cases h : isIdentifier name
  · have rest := isIdentifierRest_of_isIdentifier h
    have run : (name.toList ++ x).takeWhile isIdentifierRest = name.toList :=
      Text.takeWhile_run rest (ends h)
    have behind : (name.toList ++ x).dropWhile isIdentifierRest = x := by
      have whole := List.takeWhile_append_dropWhile (p := isIdentifierRest) (l := name.toList ++ x)
      rw [run] at whole
      exact List.append_cancel_left whole
    rw [if_pos h, if_pos h, if_neg (head?_of_isIdentifier h x), run, String.ofList_toList,
      if_pos h, behind]
  · have opening : ((quote name).toList ++ x).head? = some '\'' := by
      rw [toList_quote]
      rfl
    rw [if_neg h, if_neg h, if_pos opening, scanString_quote]
    rfl

/-- A key is bare exactly when it is an identifier. -/
theorem key_eq_self_iff (name : String) : key name = name ↔ isIdentifier name := by
  unfold key
  by_cases h : isIdentifier name
  · exact iff_of_true (if_pos h) h
  · refine iff_of_false (fun same => ?_) h
    -- The literal is longer than the name, by its two quotes at least.
    rw [if_neg h, ← String.toList_inj, toList_quote] at same
    have longer := length_le_escaped name.toList
    have length := congrArg List.length same
    rw [List.length_cons, List.length_append, List.length_singleton] at length
    omega

/-! ### Encodings that tell their end -/

/-- The literal of a string has one line and is scanned as the string in front of any text, and no
other text of one line is; a key is scanned as its name, bare or quoted, in front of any text that
does not go on with a bare one. -/
theorem scanned_quote_key (s : String) (x : List Char) :
    ('\n' ∉ (quote s).toList ∧ '\r' ∉ (quote s).toList) ∧
    scanString ((quote s).toList ++ x) = some (s, x) ∧
    (∀ p : List Char, '\n' ∉ p → '\r' ∉ p → scanString (p ++ x) = some (s, x) →
      p = (quote s).toList) ∧
    ((isIdentifier s → Stops isIdentifierRest x) →
      scanKey ((key s).toList ++ x) = some (if isIdentifier s then .bare else .quoted, s, x)) ∧
    (key s = s ↔ isIdentifier s) :=
  ⟨quote_oneLine s, scanString_quote s x, fun _ => eq_quote_of_scanString, scanKey_key,
    key_eq_self_iff s⟩

/-- A string that ends in a backslash, in front of a quote, and an identifier in front of a
colon. -/
theorem scanned_quote_key_backslash :
    scanString ((quote "it's\\").toList ++ ['\'']) = some ("it's\\", ['\'']) ∧
    scanKey ((key "it's\\").toList ++ ['a']) = some (.quoted, "it's\\", ['a']) ∧
    Stops isIdentifierRest [':', ' '] ∧
    scanKey ((key "max_1").toList ++ [':', ' ']) = some (.bare, "max_1", [':', ' ']) := by
  obtain ⟨-, literal, -⟩ := scanned_quote_key "it's\\" ['\'']
  obtain ⟨-, -, -, quoted, -⟩ := scanned_quote_key "it's\\" ['a']
  obtain ⟨-, -, -, bare, -⟩ := scanned_quote_key "max_1" [':', ' ']
  have other : ¬ isIdentifier "it's\\" := by decide
  have identifier : isIdentifier "max_1" := by decide
  have colon : Stops isIdentifierRest [':', ' '] := by
    rintro _ ⟨⟩
    rfl
  rw [if_neg other] at quoted
  rw [if_pos identifier] at bare
  exact ⟨literal, quoted fun h => absurd h other, colon, bare fun _ => colon⟩

end SeqScript.Script
