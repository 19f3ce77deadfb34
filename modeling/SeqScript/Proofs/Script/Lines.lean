import Mathlib.Algebra.BigOperators.Ring.List
import Mathlib.Algebra.Order.BigOperators.Group.List
import Mathlib.Algebra.Order.Ring.Nat
import SeqScript.Document.Reader
import SeqScript.Proofs.Script.Arguments
import SeqScript.Text.Split

/-!
# Lines of arguments

The shape of a collection of arguments dictates the number of lines that it is rendered on
(`Arguments.lineCount`).  Strings and keys add no line to these, because they are escaped.  The name
of a symbol is written as it is, once in its path and once more in the diagnostic of a symbol that
no list declares, and every line end in it is a line end of the text (`lineEnds_arguments`).  So the
text has the dictated lines exactly when no symbol is named by several lines
(`lines_arguments_iff`).
-/

namespace SeqScript

/-! ### Lines and symbols of a collection -/

mutual

def Argument.lineCount : Argument → Nat
  | .literal _ => 1
  | .symbol _ => 1
  | .group a => Arguments.lineCount a

/-- One line for no arguments; otherwise a line for each bracket and those of the arguments. -/
def Arguments.lineCount : Arguments → Nat
  | .positional as => if as.isEmpty then 1 else 2 + Arguments.lineCountItems as
  | .named as => if as.isEmpty then 1 else 2 + Arguments.lineCountNamed as

def Arguments.lineCountItems : List Argument → Nat
  | [] => 0
  | a :: as => Argument.lineCount a + Arguments.lineCountItems as

def Arguments.lineCountNamed : List (String × Argument) → Nat
  | [] => 0
  | (_, a) :: as => Argument.lineCount a + Arguments.lineCountNamed as

end

mutual

def Argument.symbols : Argument → List String
  | .literal _ => []
  | .symbol name => [name]
  | .group a => Arguments.symbols a

/-- The names of the symbols at every depth, in the order of the arguments. -/
def Arguments.symbols : Arguments → List String
  | .positional as => Arguments.symbolsItems as
  | .named as => Arguments.symbolsNamed as

def Arguments.symbolsItems : List Argument → List String
  | [] => []
  | a :: as => Argument.symbols a ++ Arguments.symbolsItems as

def Arguments.symbolsNamed : List (String × Argument) → List String
  | [] => []
  | (_, a) :: as => Argument.symbols a ++ Arguments.symbolsNamed as

end

namespace Arguments

theorem lineCount_eq (a : Arguments) :
    a.lineCount = if a.isEmpty then 1 else 2 + (a.members.map (·.2.lineCount)).sum := by
  rw [← a.isEmpty_members]
  cases a with
  | positional as =>
    have items : lineCountItems as = (as.map (·.lineCount)).sum := by
      induction as with
      | nil => rfl
      | cons a as ih => rw [lineCountItems, ih, List.map_cons, List.sum_cons]
    simp only [lineCount, items, members, List.isEmpty_map, List.map_map, Function.comp_def]
  | named as =>
    have items : lineCountNamed as = (as.map (·.2.lineCount)).sum := by
      induction as with
      | nil => rfl
      | cons a as ih => rw [lineCountNamed, ih, List.map_cons, List.sum_cons]
    simp only [lineCount, items, members, List.isEmpty_map, List.map_map, Function.comp_def]

theorem symbols_eq (a : Arguments) : a.symbols = a.members.flatMap (·.2.symbols) := by
  cases a with
  | positional as =>
    rw [symbols, members, List.flatMap_map]
    induction as with
    | nil => rfl
    | cons a as ih => rw [symbolsItems, ih, List.flatMap_cons]
  | named as =>
    rw [symbols, members, List.flatMap_map]
    induction as with
    | nil => rfl
    | cons a as ih => rw [symbolsNamed, ih, List.flatMap_cons]

end Arguments

namespace Script

open Context

/-! ### Line ends -/

/-- How often a character that ends lines is in a text. -/
def lineEnds (e : Char) (s : String) : Nat := s.toList.count e

theorem length_lines (s : String) : (Text.lines s).length = lineEnds '\n' s + 1 := by
  rw [Text.lines, List.length_map, Text.length_pieces, lineEnds]

section

variable {e : Char} {p q : String}

theorem lineEnds_append : lineEnds e (p ++ q) = lineEnds e p + lineEnds e q := by
  rw [lineEnds, String.toList_append, List.count_append, lineEnds, lineEnds]

theorem lineEnds_join (texts : List String) :
    lineEnds e (String.join texts) = (texts.map (lineEnds e)).sum := by
  induction texts with
  | nil => rfl
  | cons t texts ih => rw [String.join_cons, lineEnds_append, ih, List.map_cons, List.sum_cons]

theorem lineEnds_eq_zero_iff : lineEnds e p = 0 ↔ e ∉ p.toList := List.count_eq_zero

variable (he : e = '\n' ∨ e = '\r')

include he

theorem lineEnds_of_forall {f : Char → Bool} (end_not : f '\n' = false ∧ f '\r' = false)
    (h : ∀ c ∈ p.toList, f c) : lineEnds e p = 0 := by
  refine lineEnds_eq_zero_iff.2 fun mem => ?_
  have holds := h e mem
  rcases he with rfl | rfl
  · rw [end_not.1] at holds
    contradiction
  · rw [end_not.2] at holds
    contradiction

theorem lineEnds_pad (level : Nat) : lineEnds e (pad level) = 0 := by
  refine lineEnds_of_forall he (f := (· == ' ')) ⟨rfl, rfl⟩ fun c mem => ?_
  rw [toList_pad] at mem
  rw [List.eq_of_mem_replicate mem]
  rfl

/-- An escaped character ends no line. -/
theorem not_mem_escapeChar (c : Char) : e ∉ escapeChar c := by
  unfold escapeChar
  split
  · rcases he with rfl | rfl <;> decide
  · rcases he with rfl | rfl <;> decide
  · rcases he with rfl | rfl <;> decide
  · rcases he with rfl | rfl <;> decide
  · rename_i newline carriage
    rw [List.mem_singleton]
    rintro rfl
    rcases he with rfl | rfl
    · exact newline rfl
    · exact carriage rfl

theorem lineEnds_quote (s : String) : lineEnds e (quote s) = 0 := by
  have delimiter : e ≠ '\'' := by rcases he with rfl | rfl <;> decide
  refine lineEnds_eq_zero_iff.2 fun mem => ?_
  rw [toList_quote, List.mem_cons, List.mem_append, List.mem_singleton, List.mem_flatMap] at mem
  rcases mem with rfl | ⟨c, -, mem⟩ | rfl
  · exact delimiter rfl
  · exact not_mem_escapeChar he c mem
  · exact delimiter rfl

theorem lineEnds_key (name : String) : lineEnds e (key name) = 0 := by
  unfold key
  split_ifs with h
  · exact lineEnds_of_forall he ⟨by decide, by decide⟩ (isIdentifierRest_of_isIdentifier h)
  · exact lineEnds_quote he name

theorem lineEnds_literal (l : Literal) : lineEnds e (literal l) = 0 := by
  cases l with
  | string s => exact lineEnds_quote he s
  | number n => exact lineEnds_of_forall he ⟨by decide, by decide⟩ (isNumeralChar_number n)
  | boolean b => rcases b with _ | _ <;> rcases he with rfl | rfl <;> decide

/-! ### Layout -/

variable (o : Options) (level : Nat)

/-- The lines around members, and those that the members end. -/
theorem lineEnds_array (items : List Fragment) :
    lineEnds e (array o level items) = if items.isEmpty then 0 else lineEnds e "\n" +
      (items.map fun f => lineEnds e (f.member o) + lineEnds e "\n").sum := by
  have brackets : lineEnds e "[]" = 0 ∧ lineEnds e "[\n" = lineEnds e "\n" ∧
      lineEnds e "]" = 0 := by
    rcases he with rfl | rfl <;> decide
  unfold array itemLines
  split_ifs
  · exact brackets.1
  · simp only [lineEnds_append, lineEnds_join, lineEnds_pad he, brackets.2, List.map_map,
      Function.comp_def, Nat.add_zero, Nat.zero_add]

theorem lineEnds_object (entries : List (String × Fragment)) :
    lineEnds e (object o level entries) = if entries.isEmpty then 0 else lineEnds e "\n" +
      (entries.map fun m => lineEnds e (m.2.member o) + lineEnds e "\n").sum := by
  have brackets : lineEnds e "\x7b\x7d" = 0 ∧ lineEnds e "\x7b\n" = lineEnds e "\n" ∧
      lineEnds e "\x7d" = 0 ∧ lineEnds e ": " = 0 := by
    rcases he with rfl | rfl <;> decide
  unfold object memberLines
  split_ifs
  · exact brackets.1
  · simp only [lineEnds_append, lineEnds_join, lineEnds_pad he, lineEnds_key he, brackets.2,
      List.map_map, Function.comp_def, Nat.add_zero, Nat.zero_add]

end

/-! ### Symbols -/

/-- How often the name of a symbol is written: in a path, and in the diagnostic that an unknown
symbol has. -/
def Context.copies (c : Context) (name : String) : Nat :=
  if (c.scope.resolve? name).isSome then 1 else 2

/-- The line ends that come with the names of symbols. -/
def Context.lineEndsOfNames (c : Context) (e : Char) (names : List String) : Nat :=
  (names.map fun name => c.copies name * lineEnds e name).sum

theorem lineEndsOfNames_eq_zero_iff (c : Context) (e : Char) (names : List String) :
    c.lineEndsOfNames e names = 0 ↔ ∀ name ∈ names, e ∉ name.toList := by
  have copies (name : String) : c.copies name ≠ 0 := by
    unfold Context.copies
    split_ifs <;> decide
  simp only [Context.lineEndsOfNames, List.sum_eq_zero_iff, List.forall_mem_map, Nat.mul_eq_zero,
    copies, false_or, lineEnds_eq_zero_iff]

theorem lineEndsOfNames_flatMap {α : Type} (c : Context) (e : Char) (as : List α)
    (f : α → List String) : c.lineEndsOfNames e (as.flatMap f) =
      (as.map fun a => c.lineEndsOfNames e (f a)).sum := by
  induction as with
  | nil => rfl
  | cons a as ih =>
    rw [List.map_cons, List.sum_cons, ← ih, List.flatMap_cons]
    simp only [Context.lineEndsOfNames, List.map_append, List.sum_append]

/-- An argument as it stands among its neighbours. -/
def Context.memberText (c : Context) (level : Nat) (a : Argument) : String :=
  (c.argument level a).value.member c.options

section

variable {e : Char} (he : e = '\n' ∨ e = '\r') (c : Context)

include he

theorem lineEnds_symbol (level : Nat) (name : String) :
    lineEnds e (c.memberText level (.symbol name)) = c.copies name * lineEnds e name := by
  have marks : lineEnds e "," = 0 ∧ lineEnds e " //" = 0 ∧ lineEnds e ", //" = 0 ∧
      lineEnds e "ERROR: " = 0 ∧ lineEnds e "Variable '" = 0 ∧
      lineEnds e "' is not defined as a local or parameter" = 0 := by
    rcases he with rfl | rfl <;> decide
  have head (kind : Option VariableKind) : lineEnds e (pathHead kind) = 0 := by
    rcases kind with _ | _ | _ <;> rcases he with rfl | rfl <;> decide
  rw [Context.memberText, argument, member_symbol, Context.copies]
  cases c.scope.resolve? name with
  | some kind =>
    simp only [pathEnd, lineEnds_append, head, marks, Option.isSome_some, if_true]
    omega
  | none =>
    simp only [pathEnd, Warning.undefinedMessage, Option.isSome_none, Bool.false_eq_true, if_false]
    split_ifs <;> simp only [lineEnds_append, head, marks] <;> omega

theorem lineEnds_plain (o : Options) (p : String) :
    lineEnds e ((Fragment.plain p).member o) = lineEnds e p := by
  have comma : lineEnds e "," = 0 := by rcases he with rfl | rfl <;> decide
  rw [Fragment.member, Fragment.plain, lineEnds_append, comma, Nat.add_zero]

/-- The lines of a collection are those around its members and those of the members. -/
theorem lineEnds_arguments_members (level : Nat) (a : Arguments) :
    lineEnds e (c.arguments level a).value = if a.isEmpty then 0 else lineEnds e "\n" +
      (a.members.map fun m => lineEnds e (c.memberText (level + 1) m.2) + lineEnds e "\n").sum := by
  rw [← a.isEmpty_members]
  cases a with
  | positional as =>
    simp only [Context.arguments, Logged.value_bind, Logged.value_pure, value_positional,
      lineEnds_array he, Arguments.members, List.isEmpty_map, List.map_map, Function.comp_def,
      Context.memberText]
  | named as =>
    simp only [Context.arguments, Logged.value_bind, Logged.value_pure, value_named,
      lineEnds_object he, Arguments.members, List.isEmpty_map, List.map_map, Function.comp_def,
      Context.memberText]

/-- What a collection has by its shape and its names, if that is so for its members.  The last line
is ended by what follows, so one line end is added to those of the text. -/
theorem lineEnds_arguments_of_members (level : Nat) {a : Arguments}
    (h : ∀ m ∈ a.members, lineEnds e (c.memberText (level + 1) m.2) + lineEnds e "\n" =
      lineEnds e "\n" * m.2.lineCount + c.lineEndsOfNames e m.2.symbols) :
    lineEnds e (c.arguments level a).value + lineEnds e "\n" =
      lineEnds e "\n" * a.lineCount + c.lineEndsOfNames e a.symbols := by
  have members := List.map_congr_left h
  rw [lineEnds_arguments_members he, members, a.lineCount_eq, a.symbols_eq, lineEndsOfNames_flatMap]
  split_ifs with empty
  · rw [← a.isEmpty_members, List.isEmpty_iff] at empty
    rw [empty, List.map_nil, List.sum_nil]
    omega
  · -- One bracket brings the line end in front of the members, the other the one that is added.
    rw [List.sum_map_add, List.sum_map_mul_left (R := Nat), Nat.mul_add]
    omega

theorem lineEnds_argument (level : Nat) (a : Argument) :
    lineEnds e (c.memberText level a) + lineEnds e "\n" =
      lineEnds e "\n" * a.lineCount + c.lineEndsOfNames e a.symbols := by
  induction a using Argument.membersInduction generalizing level with
  | literal l =>
    have text : lineEnds e (c.memberText level (.literal l)) = 0 := by
      rw [Context.memberText, argument, Logged.value_pure, lineEnds_plain he, lineEnds_literal he]
    rw [text, Argument.lineCount, Argument.symbols]
    simp [Context.lineEndsOfNames]
  | symbol name =>
    rw [lineEnds_symbol he, Argument.lineCount, Argument.symbols]
    simp [Context.lineEndsOfNames, Nat.add_comm]
  | group a ih =>
    have text : lineEnds e (c.memberText level (.group a)) =
        lineEnds e (c.arguments level a).value := by
      rw [Context.memberText, argument, Logged.value_bind, Logged.value_pure, lineEnds_plain he]
    rw [text, Argument.lineCount, Argument.symbols]
    exact lineEnds_arguments_of_members he c level fun m mem => ih m mem (level + 1)

/-- A text of arguments has the line ends of its shape, which are line feeds, and those that come
with the names of its symbols. -/
theorem lineEnds_arguments (level : Nat) (a : Arguments) :
    lineEnds e (c.arguments level a).value + lineEnds e "\n" =
      lineEnds e "\n" * a.lineCount + c.lineEndsOfNames e a.symbols :=
  lineEnds_arguments_of_members he c level fun m _ => lineEnds_argument he c (level + 1) m.2

end

/-- The arguments stand on the lines that their shape dictates exactly when no symbol has a line
feed in its name, and they end a line by a carriage return exactly when a symbol's name does. -/
theorem lines_arguments_iff (c : Context) (level : Nat) (a : Arguments) :
    ((Text.lines (c.arguments level a).value).length = a.lineCount ↔
      ∀ name ∈ a.symbols, '\n' ∉ name.toList) ∧
    ('\r' ∉ (c.arguments level a).value.toList ↔ ∀ name ∈ a.symbols, '\r' ∉ name.toList) := by
  have feeds := lineEnds_arguments (.inl rfl) c level a
  have returns := lineEnds_arguments (.inr rfl) c level a
  have feed : lineEnds '\n' "\n" = 1 := rfl
  have noReturn : lineEnds '\r' "\n" = 0 := rfl
  rw [feed, Nat.one_mul] at feeds
  rw [noReturn, Nat.zero_mul, Nat.zero_add, Nat.add_zero] at returns
  refine ⟨?_, ?_⟩
  · rw [length_lines, ← lineEndsOfNames_eq_zero_iff c, feeds]
    omega
  · rw [← lineEndsOfNames_eq_zero_iff c, ← returns, lineEnds_eq_zero_iff]

/-- A document is accepted whose symbol brings two lines of its own, one of them a command. -/
theorem length_lines_ne_lineCount : ∃ a, (Document.read (.object [("id", .string "a"),
      ("metadata", .object []), ("steps", .array [.object [
        ("args", .array [.object [("type", .string "symbol"), ("value", .string "x\nC.LAUNCH")]]),
        ("stem", .string "A"), ("type", .string "command")]])])).value =
      .ok { id := "a", steps := some [.command { stem := "A", arguments := a }] } ∧
    (Text.lines (Context.arguments {} 4 a).value).length ≠ a.lineCount :=
  ⟨.positional [.symbol "x\nC.LAUNCH"], rfl, by decide +kernel⟩

end Script

end SeqScript
