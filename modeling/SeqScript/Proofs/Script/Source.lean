import Mathlib.Tactic.Common
import SeqScript.Proofs.Script.Layout

/-!
# Sources

A source is read as tokens (`tokens?`).  Blanks give none, and neither does a comment, which runs
from two slashes outside a literal to the end of the line.  A literal in single, double or back
quotes is one token and has to be closed on the line that it starts on.  The grammar of the tokens
(`Derives`) puts the members of every list, object and call between matching brackets, with one
comma between two of them and at most one more behind the last.  A source is well formed when its
tokens are those of a module that exports one expression (`IsWellFormed`).
-/

namespace SeqScript.Source

open Script

/-! ### Tokens -/

inductive Bracket where
  | round
  | square
  | curly
  deriving DecidableEq

inductive Token where
  | opening (b : Bracket)
  | closing (b : Bracket)
  | comma
  /-- A name or a keyword. -/
  | word
  | number
  | string
  | template
  /-- Any other character. -/
  | mark (c : Char)
  deriving DecidableEq

/-- The tokens that are runs of characters of a class. -/
inductive Run where
  | word
  | number
  deriving DecidableEq

def Run.continues : Run → Char → Bool
  | word, c => isIdentifierRest c
  | number, c => isNumeralChar c

/-- What the characters so far have begun. -/
inductive Mode where
  /-- Nothing, or a run that may go on. -/
  | outside (run : Option Run)
  | slash
  | comment
  | literal (delimiter : Char)
  /-- A literal, behind a backslash. -/
  | escape (delimiter : Char)
  deriving DecidableEq

def isDelimiter (c : Char) : Bool := c == '\'' || c == '"' || c == '\x60'

def isLineEnd (c : Char) : Bool := c == '\n' || c == '\r'

/-- The token of a closed literal. -/
def literalToken (delimiter : Char) : Token := if delimiter == '\x60' then .template else .string

/-- The token that a character is by itself; a blank is none. -/
def single (c : Char) : List Token :=
  match c with
  | '(' => [.opening .round]
  | ')' => [.closing .round]
  | '[' => [.opening .square]
  | ']' => [.closing .square]
  | '\x7b' => [.opening .curly]
  | '\x7d' => [.closing .curly]
  | ',' => [.comma]
  | c => if c.isWhitespace then [] else [.mark c]

/-- What a character begins that goes on with nothing before it. -/
def start (c : Char) : Mode × List Token :=
  if isDelimiter c then (.literal c, [])
  else if c == '/' then (.slash, [])
  else if isIdentifierStart c then (.outside (some .word), [.word])
  else if c.isDigit || c == '-' then (.outside (some .number), [.number])
  else (.outside none, single c)

/-- Reads a character, unless it ends the line of an open literal. -/
def step : Mode → Char → Option (Mode × List Token)
  | .outside none, c => some (start c)
  | .outside (some run), c =>
    some (if run.continues c then (.outside (some run), []) else start c)
  | .slash, c =>
    some (if c == '/' then (.comment, []) else ((start c).1, .mark '/' :: (start c).2))
  | .comment, c => some (if isLineEnd c then .outside none else .comment, [])
  | .literal d, c =>
    if isLineEnd c then none
    else if c == d then some (.outside none, [literalToken d])
    else if c == '\\' then some (.escape d, [])
    else some (.literal d, [])
  | .escape d, c => if isLineEnd c then none else some (.literal d, [])

def lex (m : Mode) : List Char → Option (Mode × List Token)
  | [] => some (m, [])
  | c :: cs => do
    let (next, ts) ← step m c
    let (last, us) ← lex next cs
    return (last, ts ++ us)

/-- What is left at the end of a text, unless a literal is open. -/
def finish : Mode → Option (List Token)
  | .outside _ => some []
  | .slash => some [.mark '/']
  | .comment => some []
  | .literal _ => none
  | .escape _ => none

/-- The tokens of a text whose literals are closed on their lines. -/
def tokens? (text : String) : Option (List Token) := do
  let (last, ts) ← lex (.outside none) text.toList
  let us ← finish last
  return ts ++ us

/-! ### Grammar -/

inductive Phrase where
  | expression
  | member (b : Bracket)
  | members (b : Bracket)
  deriving DecidableEq

open Phrase in
/-- The tokens of a phrase.  The members of an object have a key or are words; those of a list or
a call are expressions. -/
inductive Derives : Phrase → List Token → Prop where
  | word : Derives expression [.word]
  | number : Derives expression [.number]
  | string : Derives expression [.string]
  | list {ts : List Token} : Derives (members .square) ts →
      Derives expression (.opening .square :: ts ++ [.closing .square])
  | object {ts : List Token} : Derives (members .curly) ts →
      Derives expression (.opening .curly :: ts ++ [.closing .curly])
  | parenthesized {ts : List Token} : Derives expression ts →
      Derives expression (.opening .round :: ts ++ [.closing .round])
  | property {ts : List Token} : Derives expression ts →
      Derives expression (ts ++ [.mark '.', .word])
  | tagged {ts : List Token} : Derives expression ts → Derives expression (ts ++ [.template])
  | call {ts us : List Token} : Derives expression ts → Derives (members .round) us →
      Derives expression (ts ++ .opening .round :: us ++ [.closing .round])
  | function {ts us : List Token} : Derives (members .round) ts → Derives expression us →
      Derives expression
        (.opening .round :: ts ++ [.closing .round, .mark '=', .mark '>'] ++ us)
  | item {b : Bracket} {ts : List Token} : b ≠ .curly → Derives expression ts →
      Derives (member b) ts
  | entry {key : Token} {ts : List Token} : key = .word ∨ key = .string →
      Derives expression ts → Derives (member .curly) (key :: .mark ':' :: ts)
  | shorthand : Derives (member .curly) [.word]
  | none {b : Bracket} : Derives (members b) []
  | last {b : Bracket} {ts : List Token} : Derives (member b) ts → Derives (members b) ts
  | more {b : Bracket} {ts us : List Token} : Derives (member b) ts → Derives (members b) us →
      Derives (members b) (ts ++ .comma :: us)

/-- The tokens of a module that exports an expression by default. -/
def IsModule (ts : List Token) : Prop :=
  ∃ us, Derives .expression us ∧ ts = .word :: .word :: us ++ [.mark ';']

/-- The brackets that are open behind the tokens, the innermost first, unless one of the tokens
closes another bracket than the innermost. -/
def nest (stack : List Bracket) : List Token → Option (List Bracket)
  | [] => some stack
  | .opening b :: ts => nest (b :: stack) ts
  | .closing b :: ts =>
    match stack with
    | [] => none
    | top :: rest => if top = b then nest rest ts else none
  | _ :: ts => nest stack ts

/-- The literals are closed on their lines, the brackets are closed in the order of their nesting,
and between them the members are separated. -/
def IsWellFormed (text : String) : Prop :=
  ∃ ts, tokens? text = some ts ∧ nest [] ts = some [] ∧ IsModule ts

/-! ### Nesting -/

theorem nest_append (stack : List Bracket) (ts us : List Token) :
    nest stack (ts ++ us) = (nest stack ts).bind fun rest => nest rest us := by
  induction ts generalizing stack with
  | nil => rfl
  | cons t ts ih =>
    cases t with
    | opening b => exact ih (b :: stack)
    | closing b =>
      rcases stack with _ | ⟨top, rest⟩
      · rfl
      · simp only [List.cons_append, nest]
        split_ifs
        · exact ih rest
        · rfl
    | _ => exact ih stack

/-- The brackets of a phrase are closed within it. -/
theorem nest_of_derives {φ : Phrase} {ts : List Token} (h : Derives φ ts)
    (stack : List Bracket) : nest stack ts = some stack := by
  induction h generalizing stack with
  | word | number | string | shorthand | none => rfl
  | list _ ih | object _ ih | parenthesized _ ih =>
    simp only [List.cons_append, nest, nest_append, ih, Option.bind_some, if_true]
  | property _ ih | tagged _ ih =>
    simp only [nest, nest_append, ih, Option.bind_some]
  | call _ _ ih ih' =>
    simp only [List.append_assoc, List.cons_append, nest, nest_append, ih, ih', Option.bind_some,
      if_true]
  | function _ _ ih ih' =>
    simp only [List.append_assoc, List.cons_append, List.nil_append, nest, nest_append, ih, ih',
      Option.bind_some, if_true]
  | item _ _ ih => exact ih stack
  | entry key _ ih =>
    rcases key with rfl | rfl
    · exact ih stack
    · exact ih stack
  | last _ ih => exact ih stack
  | more _ _ ih ih' => simp only [nest, nest_append, ih, ih', Option.bind_some]

theorem nest_of_isModule {ts : List Token} (h : IsModule ts) : nest [] ts = some [] := by
  obtain ⟨us, derived, rfl⟩ := h
  simp only [List.cons_append, nest, nest_append, nest_of_derives derived, Option.bind_some]

/-! ### Texts one after the other -/

theorem lex_cons {m next last : Mode} {c : Char} {cs : List Char} {ts us : List Token}
    (first : step m c = some (next, ts)) (rest : lex next cs = some (last, us)) :
    lex m (c :: cs) = some (last, ts ++ us) := by
  rw [lex, first]
  simp only [Option.bind_eq_bind, Option.bind_some, rest, Option.pure_def]

theorem lex_append {m next last : Mode} {cs ds : List Char} {ts us : List Token}
    (first : lex m cs = some (next, ts)) (rest : lex next ds = some (last, us)) :
    lex m (cs ++ ds) = some (last, ts ++ us) := by
  induction cs generalizing m ts with
  | nil =>
    obtain ⟨rfl, rfl⟩ := Prod.mk.inj (Option.some.inj first)
    exact rest
  | cons c cs ih =>
    rw [lex] at first
    obtain ⟨⟨middle, vs⟩, head, first⟩ := Option.bind_eq_some_iff.1 first
    obtain ⟨⟨next', ws⟩, tail, first⟩ := Option.bind_eq_some_iff.1 first
    obtain ⟨rfl, rfl⟩ := Prod.mk.inj (Option.some.inj first)
    rw [List.append_assoc]
    exact lex_cons head (ih tail)

/-- Characters that change nothing. -/
theorem lex_silent {m : Mode} {cs : List Char} (h : ∀ c ∈ cs, step m c = some (m, [])) :
    lex m cs = some (m, []) := by
  induction cs with
  | nil => rfl
  | cons c cs ih =>
    obtain ⟨first, rest⟩ := List.forall_mem_cons.1 h
    exact lex_cons first (ih rest)

/-- A text that begins no literal and no comment that it does not end, and its tokens; it may end in
a run that goes on behind it. -/
def Reads (p : String) (run : Option Run) (ts : List Token) : Prop :=
  lex (.outside none) p.toList = some (.outside run, ts)

namespace Reads

variable {p q : String} {run run' : Option Run} {ts us : List Token}

theorem glue (hp : Reads p none ts) (hq : Reads q run us) : Reads (p ++ q) run (ts ++ us) := by
  rw [Reads, String.toList_append]
  exact lex_append hp hq

/-- A run ends in front of a character that does not continue it. -/
theorem stop {c : Char} (hp : Reads p run ts) (hq : Reads q run' us) (starts : Starts c q)
    (ends : ∀ k ∈ run, k.continues c = false) : Reads (p ++ q) run' (ts ++ us) := by
  obtain ⟨cs, text⟩ := starts
  -- Only the first character could go on with the run, and it does not.
  have fresh : lex (.outside run) q.toList = lex (.outside none) q.toList := by
    rcases run with _ | k
    · rfl
    · rw [text, lex, lex, step, step, ends k rfl, if_neg Bool.false_ne_true]
  rw [Reads, String.toList_append]
  exact lex_append hp (fresh.trans hq)

/-- A text in front of a character that continues no run. -/
theorem close {c : Char} (hp : Reads p run ts) (hq : Reads q run' us) (starts : Starts c q)
    (word : isIdentifierRest c = false) (number : isNumeralChar c = false) :
    Reads (p ++ q) run' (ts ++ us) :=
  hp.stop hq starts fun k _ => by cases k <;> assumption

theorem nil : Reads "" none [] := rfl

theorem pad (level : Nat) : Reads (pad level) none [] := by
  rw [Reads, toList_pad]
  refine lex_silent fun c mem => ?_
  rw [List.eq_of_mem_replicate mem]
  rfl

end Reads

end SeqScript.Source
