import SeqScript.Json.Printer
import SeqScript.Proofs.Json.NumberText
import SeqScript.Proofs.Json.Tree

/-!
# Reading written JSON

The text of a value is read exactly when the value nests no deeper than the reader goes and the
text of each of its numbers is read, and it is read as the value with its numbers as they are read
(`Json.toOption_read`).  Strings are always read back as they are, blanks between the members of a
container do not matter, and neither does what follows a value that is ended by it.
-/

namespace SeqScript

namespace Json

open Reading

/-! ### Strings -/

theorem hexValue?_hexDigit : ∀ n < 16, hexValue? (hexDigit n) = some n := by decide

theorem hexWord?_control {n : Nat} (h : n < 0x20) :
    hexWord? '0' '0' (hexDigit (n / 16)) (hexDigit (n % 16)) = some n := by
  have high := hexValue?_hexDigit (n / 16) (by omega)
  have low := hexValue?_hexDigit (n % 16) (by omega)
  have zero : hexValue? '0' = some 0 := by decide
  simp only [hexWord?, zero, high, low, Option.pure_def, Option.bind_eq_bind, Option.bind_some,
    Option.some.injEq]
  omega

theorem readStringFrom_control (seen : List Char) {n : Nat} (h : n < 0x20) (cs : List Char) :
    readStringFrom seen
        ('\\' :: 'u' :: '0' :: '0' :: hexDigit (n / 16) :: hexDigit (n % 16) :: cs) =
      readStringFrom (Char.ofNat n :: seen) cs := by
  have lead : isLeadSurrogate n = false := by
    simp only [isLeadSurrogate, Bool.and_eq_false_iff, decide_eq_false_iff_not]
    omega
  have trail : isTrailSurrogate n = false := by
    simp only [isTrailSurrogate, Bool.and_eq_false_iff, decide_eq_false_iff_not]
    omega
  rw [readStringFrom]
  simp only [hexWord?_control h, lead, trail, Bool.false_eq_true, if_false]

theorem readStringFrom_plain (seen : List Char) {c : Char} (quote : c ≠ '"') (backslash : c ≠ '\\')
    (control : ¬ c.toNat < 0x20) (cs : List Char) :
    readStringFrom seen (c :: cs) = readStringFrom (c :: seen) cs := by
  rw [readStringFrom, if_neg control]
  · exact fun same => quote same
  · exact fun _ _ _ _ _ same => absurd same backslash
  · exact fun _ same => absurd same backslash
  · exact fun same => absurd same backslash
  · exact fun _ _ same => absurd same backslash

/-- A character is read back from its escape. -/
theorem readStringFrom_escapeChar (seen : List Char) (c : Char) (cs : List Char) :
    readStringFrom seen (escapeChar c ++ cs) = readStringFrom (c :: seen) cs := by
  unfold escapeChar
  split
  · rfl
  · rfl
  · rfl
  · rfl
  · rfl
  · rfl
  · rfl
  · rename_i quote backslash _ _ _ _ _
    split_ifs with control
    · rw [List.cons_append, List.cons_append, List.cons_append, List.cons_append, List.cons_append,
        List.cons_append, List.nil_append, readStringFrom_control seen control, Char.ofNat_toNat]
    · exact readStringFrom_plain seen quote backslash control cs

theorem readStringFrom_written (seen cs x : List Char) :
    readStringFrom seen (cs.flatMap escapeChar ++ '"' :: x) =
      .ok (String.ofList (seen.reverse ++ cs), x) := by
  induction cs generalizing seen with
  | nil =>
    rw [List.append_nil]
    rfl
  | cons c cs ih =>
    rw [List.flatMap_cons, List.append_assoc, readStringFrom_escapeChar, ih, List.reverse_cons,
      List.append_assoc]
    rfl

theorem toList_stringText (s : String) :
    (stringText s).toList = '"' :: (s.toList.flatMap escapeChar ++ ['"']) := by
  rw [stringText, String.toList_ofList]

/-- A string is read back from its text. -/
theorem readString_written (s : String) (x : List Char) :
    readString (s.toList.flatMap escapeChar ++ '"' :: x) = .ok (s, x) := by
  rw [readString, readStringFrom_written, List.reverse_nil, List.nil_append, String.ofList_toList]

/-! ### Blanks -/

def IsBlank (cs : List Char) : Prop := ∀ c ∈ cs, isSpace c

/-- Only blanks set the members of a container apart. -/
structure Spacing.IsBlank (s : Spacing) : Prop where
  gap : ∀ level, Json.IsBlank (s.gap level).toList
  colon : ∃ blanks, s.colon.toList = ':' :: blanks ∧ Json.IsBlank blanks

theorem isBlank_compact : Spacing.compact.IsBlank where
  gap _ := List.forall_mem_nil _
  colon := ⟨[], rfl, List.forall_mem_nil _⟩

theorem isBlank_spread : Spacing.spread.IsBlank where
  gap level := by
    have one : IsBlank ['\n'] := List.forall_mem_singleton.2 (by decide)
    have two : IsBlank [' ', ' '] :=
      List.forall_mem_cons.2 ⟨by decide, List.forall_mem_singleton.2 (by decide)⟩
    have indent : ∀ n, IsBlank (String.join (List.replicate n "  ")).toList := by
      intro n c hc
      rw [String.toList_join, List.mem_flatMap] at hc
      obtain ⟨blanks, repeated, hc⟩ := hc
      rw [(List.mem_replicate.1 repeated).2] at hc
      exact two c hc
    show IsBlank ("\n" ++ String.join (List.replicate level "  ")).toList
    rw [String.toList_append]
    exact List.forall_mem_append.2 ⟨one, indent level⟩
  colon := ⟨[' '], by decide, List.forall_mem_singleton.2 (by decide)⟩

theorem skipSpace_append {blanks : List Char} (h : IsBlank blanks) (cs : List Char) :
    skipSpace (blanks ++ cs) = skipSpace cs :=
  List.dropWhile_append_of_pos h

theorem isNumberChar_of_isSpace {c : Char} (h : isSpace c) : isNumberChar c = false := by
  simp only [isSpace, Bool.or_eq_true, beq_iff_eq] at h
  rcases h with ((rfl | rfl) | rfl) | rfl <;> decide

/-- Blanks end a number, and so does what may stand after them. -/
theorem endsNumber_append {blanks : List Char} (h : IsBlank blanks) {cs : List Char}
    (hc : EndsNumber cs) : EndsNumber (blanks ++ cs) := by
  rcases blanks with _ | ⟨b, bs⟩
  · exact hc
  · rintro _ ⟨⟩
    exact isNumberChar_of_isSpace (h b List.mem_cons_self)

theorem endsNumber_cons {c : Char} (h : isNumberChar c = false) (cs : List Char) :
    EndsNumber (c :: cs) := by
  rintro _ ⟨⟩
  exact h

/-- A text that starts neither with a blank nor with a closing bracket. -/
def StartsValue (cs : List Char) : Prop :=
  ∃ c rest, cs = c :: rest ∧ isSpace c = false ∧ c ≠ ']' ∧ c ≠ '}'

theorem StartsValue.append {cs : List Char} (h : StartsValue cs) (x : List Char) :
    StartsValue (cs ++ x) := by
  obtain ⟨c, rest, rfl, space, bracket, brace⟩ := h
  exact ⟨c, rest ++ x, rfl, space, bracket, brace⟩

/-! ### Texts of containers -/

section

variable (s : Spacing) (level : Nat)

theorem toList_array_cons (v : Json) (vs : List Json) :
    (textWith s level (array (v :: vs))).toList =
      '[' :: ((s.gap (level + 1)).toList ++ ((textWith s (level + 1) v).toList ++
        ((itemsText s level vs).toList ++ ((s.gap level).toList ++ [']'])))) := by
  simp [textWith]

theorem toList_itemsText_cons (v : Json) (vs : List Json) :
    (itemsText s level (v :: vs)).toList =
      ',' :: ((s.gap (level + 1)).toList ++ ((textWith s (level + 1) v).toList ++
        (itemsText s level vs).toList)) := by
  simp [itemsText]

theorem toList_object_cons (key : String) (v : Json) (ms : List (String × Json)) :
    (textWith s level (object ((key, v) :: ms))).toList =
      '{' :: ((s.gap (level + 1)).toList ++ ((stringText key).toList ++ (s.colon.toList ++
        ((textWith s (level + 1) v).toList ++
          ((membersText s level ms).toList ++ ((s.gap level).toList ++ ['}'])))))) := by
  simp [textWith]

theorem toList_membersText_cons (key : String) (v : Json) (ms : List (String × Json)) :
    (membersText s level ((key, v) :: ms)).toList =
      ',' :: ((s.gap (level + 1)).toList ++ ((stringText key).toList ++ (s.colon.toList ++
        ((textWith s (level + 1) v).toList ++ (membersText s level ms).toList)))) := by
  simp [membersText]

theorem length_itemsText (vs : List Json) :
    vs.length ≤ (itemsText s level vs).toList.length := by
  induction vs with
  | nil => exact Nat.zero_le _
  | cons v vs ih =>
    rw [toList_itemsText_cons]
    simp only [List.length_cons, List.length_append]
    omega

theorem length_membersText (ms : List (String × Json)) :
    ms.length ≤ (membersText s level ms).toList.length := by
  induction ms with
  | nil => exact Nat.zero_le _
  | cons m ms ih =>
    obtain ⟨key, v⟩ := m
    rw [toList_membersText_cons]
    simp only [List.length_cons, List.length_append]
    omega

theorem startsValue_textWith (v : Json) : StartsValue (textWith s level v).toList := by
  cases v with
  | null =>
    rw [textWith]
    exact ⟨'n', ['u', 'l', 'l'], by decide, by decide, by decide, by decide⟩
  | bool b =>
    rcases b with _ | _
    · rw [textWith]
      exact ⟨'f', ['a', 'l', 's', 'e'], by decide, by decide, by decide, by decide⟩
    · rw [textWith]
      exact ⟨'t', ['r', 'u', 'e'], by decide, by decide, by decide, by decide⟩
  | number n =>
    rw [textWith]
    obtain ⟨c, cs, text, rfl | digit⟩ := exists_cons_text n
    · exact ⟨'-', cs, text, by decide, by decide, by decide⟩
    · refine ⟨c, cs, text, isSpace_of_isDigit digit, ?_, ?_⟩
      · rintro rfl
        contradiction
      · rintro rfl
        contradiction
  | string v =>
    rw [textWith]
    exact ⟨'"', _, toList_stringText v, by decide, by decide, by decide⟩
  | array vs =>
    rcases vs with _ | ⟨v, vs⟩
    · rw [textWith]
      exact ⟨'[', [']'], by decide, by decide, by decide, by decide⟩
    · exact ⟨'[', _, toList_array_cons s level v vs, by decide, by decide, by decide⟩
  | object ms =>
    rcases ms with _ | ⟨⟨key, v⟩, ms⟩
    · rw [textWith]
      exact ⟨'{', ['}'], by decide, by decide, by decide, by decide⟩
    · exact ⟨'{', _, toList_object_cons s level key v ms, by decide, by decide, by decide⟩

end

/-! ### One item behind another -/

theorem toOption_bind {α β : Type} {first : Reading α} {o : Option α} {cs : List Char}
    (h : first.toOption = o.map (·, cs)) (next : α × List Char → Reading β) :
    (first.bind next).toOption = o.bind fun v => (next (v, cs)).toOption := by
  rcases o with _ | v
  · obtain ⟨stop, rfl⟩ := toOption_eq_none h
    rfl
  · rw [toOption_eq_some h]
    rfl

theorem map_mapM_cons {α β γ : Type} (f : α → Option β) (g : List β → γ) (a : α) (as : List α) :
    ((a :: as).mapM f).map g = (f a).bind fun b => (as.mapM f).map fun bs => g (b :: bs) := by
  rw [List.mapM_cons]
  rcases f a with _ | b
  · rfl
  · rcases as.mapM f with _ | bs <;> rfl

/-! ### Arrays -/

theorem readItems_comma {α : Type} (item : List Char → Reading α) (b : Char) (bound : List Char)
    (seen : List α) {gap cs : List Char} (hg : IsBlank gap) (hc : StartsValue cs) :
    readItems item (b :: bound) seen (',' :: (gap ++ cs)) =
      (item cs).bind fun p => readItems item bound (p.1 :: seen) p.2 := by
  obtain ⟨c, rest, rfl, space, bracket, -⟩ := hc
  have comma : skipSpace (',' :: (gap ++ c :: rest)) = ',' :: (gap ++ c :: rest) :=
    skipSpace_cons _ (by decide)
  have start : skipSpace (gap ++ c :: rest) = c :: rest := by
    rw [skipSpace_append hg, skipSpace_cons rest space]
  rw [readItems, comma]
  simp only [start]
  split
  · contradiction
  · rename_i same
    exact absurd (List.cons.inj same).1 bracket
  · rcases item (c :: rest) with stop | ⟨v, cs⟩ <;> rfl

theorem readItems_close {α : Type} (item : List Char → Reading α) (b : Char) (bound : List Char)
    (seen : List α) {gap : List Char} (hg : IsBlank gap) (x : List Char) :
    readItems item (b :: bound) seen (gap ++ ']' :: x) = .ok (seen.reverse, x) := by
  have close : skipSpace (gap ++ ']' :: x) = ']' :: x := by
    rw [skipSpace_append hg, skipSpace_cons x (by decide)]
  rw [readItems, close]
  rfl

theorem readList_first {α : Type} (item : List Char → Reading α) {gap cs : List Char}
    (hg : IsBlank gap) (hc : StartsValue cs) :
    readList item (gap ++ cs) = (item cs).bind fun p => readItems item p.2 [p.1] p.2 := by
  obtain ⟨c, rest, rfl, space, bracket, -⟩ := hc
  rw [readList, skipSpace_append hg, skipSpace_cons rest space]
  split
  · contradiction
  · rename_i same
    exact absurd (List.cons.inj same).1 bracket
  · rcases item (c :: rest) with stop | ⟨v, cs⟩ <;> rfl

theorem readMembers_comma {value : List Char → Reading Json} (b : Char) (bound : List Char)
    (seen : List (String × Json)) {gap : List Char} (hg : IsBlank gap) (cs : List Char) :
    readMembers value (b :: bound) seen (',' :: (gap ++ '"' :: cs)) =
      (readMember value cs).bind fun p => readMembers value bound (p.1 :: seen) p.2 := by
  have comma : skipSpace (',' :: (gap ++ '"' :: cs)) = ',' :: (gap ++ '"' :: cs) :=
    skipSpace_cons _ (by decide)
  have start : skipSpace (gap ++ '"' :: cs) = '"' :: cs := by
    rw [skipSpace_append hg, skipSpace_cons cs (by decide)]
  rw [readMembers, comma]
  simp only [start]
  rcases readMember value cs with stop | ⟨m, rest⟩ <;> rfl

theorem readMembers_close (value : List Char → Reading Json) (b : Char) (bound : List Char)
    (seen : List (String × Json)) {gap : List Char} (hg : IsBlank gap) (x : List Char) :
    readMembers value (b :: bound) seen (gap ++ '}' :: x) = .ok (seen.reverse, x) := by
  have close : skipSpace (gap ++ '}' :: x) = '}' :: x := by
    rw [skipSpace_append hg, skipSpace_cons x (by decide)]
  rw [readMembers, close]
  rfl

theorem readObject_first (value : List Char → Reading Json) {gap : List Char} (hg : IsBlank gap)
    (cs : List Char) :
    readObject value (gap ++ '"' :: cs) =
      (readMember value cs).bind fun p => readMembers value p.2 [p.1] p.2 := by
  rw [readObject, skipSpace_append hg, skipSpace_cons cs (by decide)]
  simp only
  rcases readMember value cs with stop | ⟨m, rest⟩ <;> rfl

section

variable {s : Spacing} (hs : s.IsBlank) (level : Nat)
include hs

theorem endsNumber_itemsText (vs : List Json) (x : List Char) :
    EndsNumber ((itemsText s level vs).toList ++ ((s.gap level).toList ++ ']' :: x)) := by
  rcases vs with _ | ⟨v, vs⟩
  · rw [itemsText]
    exact endsNumber_append (hs.gap level) (endsNumber_cons (by decide) x)
  · rw [toList_itemsText_cons]
    exact endsNumber_cons (by decide) _

/-- The items after the first are read if each of them is. -/
theorem toOption_readItems {item : List Char → Reading Json} {r : Json → Option Json}
    {vs : List Json}
    (h : ∀ v ∈ vs, ∀ x, EndsNumber x →
      (item ((textWith s (level + 1) v).toList ++ x)).toOption = (r v).map (·, x))
    {bound : List Char} (enough : vs.length < bound.length) (seen : List Json) (x : List Char) :
    (readItems item bound seen
      ((itemsText s level vs).toList ++ ((s.gap level).toList ++ ']' :: x))).toOption =
      (vs.mapM r).map fun ws => (seen.reverse ++ ws, x) := by
  induction vs generalizing bound seen with
  | nil =>
    rcases bound with _ | ⟨b, bound⟩
    · contradiction
    · rw [itemsText]
      show (readItems item (b :: bound) seen ((s.gap level).toList ++ ']' :: x)).toOption = _
      rw [readItems_close item b bound seen (hs.gap level)]
      simp [Except.toOption]
  | cons v vs ih =>
    rcases bound with _ | ⟨b, bound⟩
    · contradiction
    · obtain ⟨first, rest⟩ := List.forall_mem_cons.1 h
      have follows := endsNumber_itemsText hs level vs x
      have start := (startsValue_textWith s (level + 1) v).append
        ((itemsText s level vs).toList ++ ((s.gap level).toList ++ ']' :: x))
      have later := fun w => ih rest (Nat.lt_of_succ_lt_succ enough) (w :: seen)
      rw [toList_itemsText_cons, List.cons_append, List.append_assoc, List.append_assoc,
        readItems_comma item b bound seen (hs.gap (level + 1)) start, map_mapM_cons]
      simp only [toOption_bind (first _ follows), later, List.reverse_cons, List.append_assoc,
        List.singleton_append]

/-- An array is read if each of its items is. -/
theorem toOption_readList {item : List Char → Reading Json} {r : Json → Option Json}
    (v : Json) {vs : List Json}
    (h : ∀ w ∈ v :: vs, ∀ x, EndsNumber x →
      (item ((textWith s (level + 1) w).toList ++ x)).toOption = (r w).map (·, x))
    (x : List Char) :
    (readList item ((s.gap (level + 1)).toList ++ ((textWith s (level + 1) v).toList ++
      ((itemsText s level vs).toList ++ ((s.gap level).toList ++ ']' :: x))))).toOption =
      ((v :: vs).mapM r).map (·, x) := by
  obtain ⟨first, rest⟩ := List.forall_mem_cons.1 h
  have read := first _ (endsNumber_itemsText hs level vs x)
  have start := (startsValue_textWith s (level + 1) v).append
    ((itemsText s level vs).toList ++ ((s.gap level).toList ++ ']' :: x))
  have enough : vs.length <
      ((itemsText s level vs).toList ++ ((s.gap level).toList ++ ']' :: x)).length := by
    have := length_itemsText s level vs
    simp only [List.length_append, List.length_cons]
    omega
  have later := fun w => toOption_readItems hs level rest enough [w] x
  rw [readList_first item (hs.gap (level + 1)) start, map_mapM_cons]
  simp only [toOption_bind read, later]
  rfl

/-! ### Objects -/

theorem endsNumber_membersText (ms : List (String × Json)) (x : List Char) :
    EndsNumber ((membersText s level ms).toList ++ ((s.gap level).toList ++ '}' :: x)) := by
  rcases ms with _ | ⟨⟨key, v⟩, ms⟩
  · rw [membersText]
    exact endsNumber_append (hs.gap level) (endsNumber_cons (by decide) x)
  · rw [toList_membersText_cons]
    exact endsNumber_cons (by decide) _

/-- A member is read if its value is. -/
theorem toOption_readMember {value : List Char → Reading Json}
    (blind : ∀ blanks cs, IsBlank blanks → value (blanks ++ cs) = value cs) (key : String)
    {o : Option Json} {text x : List Char} (h : (value text).toOption = o.map (·, x)) :
    (readMember value (key.toList.flatMap escapeChar ++ '"' :: (s.colon.toList ++ text))).toOption =
      (o.map (key, ·)).map (·, x) := by
  obtain ⟨blanks, colon, blank⟩ := hs.colon
  have afterColon : readColon (s.colon.toList ++ text) = .ok ((), blanks ++ text) := by
    rw [colon]
    rfl
  simp only [readMember, readString_written, afterColon, blind blanks text blank]
  rcases o with _ | w
  · obtain ⟨stop, stopped⟩ := toOption_eq_none h
    rw [stopped]
    rfl
  · rw [toOption_eq_some h]
    rfl

/-- The members after the first are read if the value of each is. -/
theorem toOption_readMembers {value : List Char → Reading Json} {r : Json → Option Json}
    (blind : ∀ blanks cs, IsBlank blanks → value (blanks ++ cs) = value cs)
    {ms : List (String × Json)}
    (h : ∀ m ∈ ms, ∀ x, EndsNumber x →
      (value ((textWith s (level + 1) m.2).toList ++ x)).toOption = (r m.2).map (·, x))
    {bound : List Char} (enough : ms.length < bound.length) (seen : List (String × Json))
    (x : List Char) :
    (readMembers value bound seen
      ((membersText s level ms).toList ++ ((s.gap level).toList ++ '}' :: x))).toOption =
      (ms.mapM fun m => (r m.2).map (m.1, ·)).map fun ws => (seen.reverse ++ ws, x) := by
  induction ms generalizing bound seen with
  | nil =>
    rcases bound with _ | ⟨b, bound⟩
    · contradiction
    · rw [membersText]
      show (readMembers value (b :: bound) seen ((s.gap level).toList ++ '}' :: x)).toOption = _
      rw [readMembers_close value b bound seen (hs.gap level)]
      simp [Except.toOption]
  | cons m ms ih =>
    obtain ⟨key, v⟩ := m
    rcases bound with _ | ⟨b, bound⟩
    · contradiction
    · obtain ⟨first, rest⟩ := List.forall_mem_cons.1 h
      have read := toOption_readMember hs blind key
        (first _ (endsNumber_membersText hs level ms x))
      have later := fun w => ih rest (Nat.lt_of_succ_lt_succ enough) (w :: seen)
      rw [toList_membersText_cons, toList_stringText]
      simp only [List.cons_append, List.append_assoc, List.nil_append]
      rw [readMembers_comma b bound seen (hs.gap (level + 1)), map_mapM_cons]
      simp only [toOption_bind read, later, List.reverse_cons, List.append_assoc,
        List.singleton_append]

/-- An object is read if each of its values is. -/
theorem toOption_readObject {value : List Char → Reading Json} {r : Json → Option Json}
    (blind : ∀ blanks cs, IsBlank blanks → value (blanks ++ cs) = value cs) (key : String)
    (v : Json) {ms : List (String × Json)}
    (h : ∀ m ∈ (key, v) :: ms, ∀ x, EndsNumber x →
      (value ((textWith s (level + 1) m.2).toList ++ x)).toOption = (r m.2).map (·, x))
    (x : List Char) :
    (readObject value ((s.gap (level + 1)).toList ++ ((stringText key).toList ++ (s.colon.toList ++
      ((textWith s (level + 1) v).toList ++
        ((membersText s level ms).toList ++ ((s.gap level).toList ++ '}' :: x))))))).toOption =
      (((key, v) :: ms).mapM fun m => (r m.2).map (m.1, ·)).map (·, x) := by
  obtain ⟨first, rest⟩ := List.forall_mem_cons.1 h
  have read := toOption_readMember hs blind key (first _ (endsNumber_membersText hs level ms x))
  have enough : ms.length <
      ((membersText s level ms).toList ++ ((s.gap level).toList ++ '}' :: x)).length := by
    have := length_membersText s level ms
    simp only [List.length_append, List.length_cons]
    omega
  have later := fun m => toOption_readMembers hs level blind rest enough [m] x
  rw [toList_stringText]
  simp only [List.cons_append, List.append_assoc, List.nil_append]
  rw [readObject_first value (hs.gap (level + 1)), map_mapM_cons]
  simp only [toOption_bind read, later]
  rfl

end

end Json

/-! ### Values -/

/-- The number that the text of a number is read as, or the number itself. -/
def Number.reread (n : Number) : Number := n.reread?.getD n

namespace Json

/-- The value with its numbers as they are read back, if it nests no deeper than `d` and every
number is read. -/
def reread? (d : Nat) (v : Json) : Option Json :=
  if v.depth ≤ d ∧ ∀ n ∈ v.numbers, n.reread?.isSome then some (v.mapNumbers Number.reread)
  else none

theorem mapM_ite {α β : Type} {p : α → Prop} [DecidablePred p] (f : α → β) (as : List α) :
    (as.mapM fun a => if p a then some (f a) else none) =
      if ∀ a ∈ as, p a then some (as.map f) else none := by
  induction as with
  | nil => simp
  | cons a as ih =>
    rw [List.mapM_cons, ih]
    by_cases first : p a
    · simp only [first, if_true, List.forall_mem_cons, true_and]
      split_ifs <;> rfl
    · simp [first]

theorem mapM_reread? (d : Nat) (vs : List Json) :
    vs.mapM (reread? d) =
      if depthItems vs ≤ d ∧ ∀ n ∈ numbersItems vs, n.reread?.isSome then
        some (mapNumbersItems Number.reread vs)
      else none := by
  have whole : (∀ v ∈ vs, v.depth ≤ d ∧ ∀ n ∈ v.numbers, n.reread?.isSome) ↔
      depthItems vs ≤ d ∧ ∀ n ∈ numbersItems vs, n.reread?.isSome := by
    rw [depthItems_le, forall_mem_numbersItems, forall₂_and]
  unfold reread?
  rw [mapM_ite, mapNumbersItems_eq_map]
  simp only [whole]

theorem mapM_rereadMember? (d : Nat) (ms : List (String × Json)) :
    (ms.mapM fun m => (reread? d m.2).map (m.1, ·)) =
      if depthMembers ms ≤ d ∧ ∀ n ∈ numbersMembers ms, n.reread?.isSome then
        some (mapNumbersMembers Number.reread ms)
      else none := by
  have whole : (∀ m ∈ ms, m.2.depth ≤ d ∧ ∀ n ∈ m.2.numbers, n.reread?.isSome) ↔
      depthMembers ms ≤ d ∧ ∀ n ∈ numbersMembers ms, n.reread?.isSome := by
    rw [depthMembers_le, forall_mem_numbersMembers, forall₂_and]
  have member : (fun m : String × Json => (reread? d m.2).map (m.1, ·)) = fun m =>
      if m.2.depth ≤ d ∧ ∀ n ∈ m.2.numbers, n.reread?.isSome then
        some (m.1, m.2.mapNumbers Number.reread)
      else none := by
    funext m
    unfold reread?
    split_ifs <;> rfl
  rw [member, mapM_ite, mapNumbersMembers_eq_map]
  simp only [whole]

theorem readValue_blanks (d : Nat) {blanks : List Char} (h : IsBlank blanks) (cs : List Char) :
    readValue d (blanks ++ cs) = readValue d cs := by
  cases d <;> simp only [readValue, skipSpace_append h]

theorem readValue_array_succ (d : Nat) (cs : List Char) :
    readValue (d + 1) ('[' :: cs) = wrap array (readList (readValue d) cs) := rfl

theorem readValue_object_succ (d : Nat) (cs : List Char) :
    readValue (d + 1) ('{' :: cs) =
      wrap (fun ms => object (Members.ofPairs ms)) (readObject (readValue d) cs) := rfl

theorem reread?_of_plain {d : Nat} {v : Json} (shallow : v.depth = 0) (none : v.numbers = [])
    (same : v.mapNumbers Number.reread = v) : reread? d v = some v := by
  have holds : v.depth ≤ d ∧ ∀ n ∈ v.numbers, n.reread?.isSome := by
    rw [shallow, none]
    exact ⟨Nat.zero_le d, List.forall_mem_nil _⟩
  rw [reread?, if_pos holds, same]

theorem reread?_number (d : Nat) (n : Number) :
    reread? d (number n) = n.reread?.map number := by
  unfold reread?
  simp only [depth, numbers, List.forall_mem_singleton, Nat.zero_le, true_and, mapNumbers,
    Number.reread]
  rcases n.reread? with _ | m <;> rfl

theorem reread?_array_succ (d : Nat) (vs : List Json) :
    reread? (d + 1) (array vs) = (vs.mapM (reread? d)).map array := by
  rw [mapM_reread?]
  unfold reread?
  simp only [depth, numbers, mapNumbers, Nat.add_le_add_iff_right]
  split_ifs <;> rfl

theorem reread?_object_succ (d : Nat) (ms : List (String × Json)) :
    reread? (d + 1) (object ms) =
      (ms.mapM fun m => (reread? d m.2).map (m.1, ·)).map object := by
  rw [mapM_rereadMember?]
  unfold reread?
  simp only [depth, numbers, mapNumbers, Nat.add_le_add_iff_right]
  split_ifs <;> rfl

/-- The members of an object whose keys increase are read in their order. -/
theorem ofPairs_reread {d : Nat} {ms : List (String × Json)} (h : (object ms).KeysSorted) :
    (ms.mapM fun m => (reread? d m.2).map (m.1, ·)).map (fun ws => object (Members.ofPairs ws)) =
      (ms.mapM fun m => (reread? d m.2).map (m.1, ·)).map object := by
  rw [mapM_rereadMember?]
  split_ifs
  · have keys : (mapNumbersMembers Number.reread ms).map (·.1) = ms.map (·.1) := by
      rw [mapNumbersMembers_eq_map, List.map_map]
      rfl
    have sorted := h.1
    rw [← keys] at sorted
    simp only [Option.map_some, Keyed.ofPairs_eq_self sorted]
  · rfl

theorem reread?_array_zero (vs : List Json) : reread? 0 (array vs) = none :=
  if_neg fun h => absurd h.1 (Nat.not_succ_le_zero _)

theorem reread?_object_zero (ms : List (String × Json)) : reread? 0 (object ms) = none :=
  if_neg fun h => absurd h.1 (Nat.not_succ_le_zero _)

theorem toOption_readValue_array {s : Spacing} (hs : s.IsBlank) (d level : Nat) {vs : List Json}
    {x : List Char} (each : ∀ (d : Nat), ∀ v ∈ vs, ∀ y, EndsNumber y →
      (readValue d ((textWith s (level + 1) v).toList ++ y)).toOption =
        (reread? d v).map (·, y)) :
    (readValue d ((textWith s level (array vs)).toList ++ x)).toOption =
      (reread? d (array vs)).map (·, x) := by
  rcases vs with _ | ⟨v, vs⟩
  · have text : (textWith s level (array [])).toList = ['[', ']'] := by
      rw [textWith]
      decide
    rw [text]
    cases d with
    | zero => rw [reread?_array_zero]; rfl
    | succ d => rw [reread?_array_succ]; rfl
  · rw [toList_array_cons]
    cases d with
    | zero => rw [reread?_array_zero]; rfl
    | succ d =>
      have items := toOption_readList hs level v (each d) x
      rw [reread?_array_succ, List.cons_append, readValue_array_succ, toOption_wrap]
      simp only [List.append_assoc, List.cons_append, List.nil_append]
      rw [items, Option.map_map, Option.map_map]
      rfl

theorem toOption_readValue_object {s : Spacing} (hs : s.IsBlank) (d level : Nat)
    {ms : List (String × Json)} (sorted : (object ms).KeysSorted) {x : List Char}
    (each : ∀ (d : Nat), ∀ m ∈ ms, ∀ y, EndsNumber y →
      (readValue d ((textWith s (level + 1) m.2).toList ++ y)).toOption =
        (reread? d m.2).map (·, y)) :
    (readValue d ((textWith s level (object ms)).toList ++ x)).toOption =
      (reread? d (object ms)).map (·, x) := by
  rcases ms with _ | ⟨⟨key, v⟩, ms⟩
  · have text : (textWith s level (object [])).toList = ['{', '}'] := by
      rw [textWith]
      decide
    rw [text]
    cases d with
    | zero => rw [reread?_object_zero]; rfl
    | succ d => rw [reread?_object_succ]; rfl
  · rw [toList_object_cons]
    cases d with
    | zero => rw [reread?_object_zero]; rfl
    | succ d =>
      have members := toOption_readObject hs level (fun _ cs h => readValue_blanks d h cs) key v
        (each d) x
      rw [reread?_object_succ, ← ofPairs_reread sorted, List.cons_append, readValue_object_succ,
        toOption_wrap]
      simp only [List.append_assoc, List.cons_append, List.nil_append]
      rw [members, Option.map_map, Option.map_map]
      rfl

/-- What is read from the text of a value in front of a text that ends it. -/
theorem toOption_readValue {s : Spacing} (hs : s.IsBlank) (v : Json) (sorted : v.KeysSorted)
    (d level : Nat) {x : List Char} (hx : EndsNumber x) :
    (readValue d ((textWith s level v).toList ++ x)).toOption = (reread? d v).map (·, x) := by
  induction v using treeInduction generalizing d level x with
  | null =>
    have text : (textWith s level null).toList = ['n', 'u', 'l', 'l'] := by
      rw [textWith]
      decide
    rw [text, reread?_of_plain rfl rfl rfl]
    exact congrArg Except.toOption (readValue_scalar d _ (by decide) (by decide) (by decide))
  | bool b =>
    rw [reread?_of_plain rfl rfl rfl]
    rcases b with _ | _
    · have text : (textWith s level (bool false)).toList = ['f', 'a', 'l', 's', 'e'] := by
        rw [textWith]
        decide
      rw [text]
      exact congrArg Except.toOption (readValue_scalar d _ (by decide) (by decide) (by decide))
    · have text : (textWith s level (bool true)).toList = ['t', 'r', 'u', 'e'] := by
        rw [textWith]
        decide
      rw [text]
      exact congrArg Except.toOption (readValue_scalar d _ (by decide) (by decide) (by decide))
  | number n =>
    rw [textWith, toOption_readValue_number d n hx, reread?_number, Option.map_map]
    rfl
  | string v =>
    rw [textWith, toList_stringText, reread?_of_plain rfl rfl rfl, List.cons_append,
      List.append_assoc, readValue_scalar d _ (by decide) (by decide) (by decide)]
    show (wrap string (readString (v.toList.flatMap escapeChar ++ '"' :: x))).toOption = _
    rw [readString_written]
    rfl
  | array vs ih =>
    exact toOption_readValue_array hs d level fun d v hv x hx =>
      ih v hv (keysSortedItems_iff.1 sorted v hv) d (level + 1) hx
  | object ms ih =>
    exact toOption_readValue_object hs d level sorted fun d m hm x hx =>
      ih m hm (keysSortedMembers_iff.1 sorted.2 m hm) d (level + 1) hx

/-- The text of a value is read exactly when the value nests no deeper than the limit and every
number of it is read, and then as the value with its numbers as they are read. -/
theorem toOption_read {s : Spacing} (hs : s.IsBlank) {v : Json} (sorted : v.KeysSorted) :
    (read (textWith s 0 v)).toOption = reread? nestingLimit v := by
  have whole := toOption_readValue hs v sorted nestingLimit 0 endsNumber_nil
  rw [List.append_nil] at whole
  unfold read readNested
  rcases found : reread? nestingLimit v with _ | w
  · rw [found] at whole
    obtain ⟨stop, stopped⟩ := toOption_eq_none whole
    rw [stopped]
    rfl
  · rw [found] at whole
    rw [toOption_eq_some whole]
    rfl

end Json

end SeqScript
