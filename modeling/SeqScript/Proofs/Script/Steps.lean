import SeqScript.Proofs.Script.Attributes

/-!
# Steps and commands that are told apart

Every step is written as a statement (`Statement`): a word called on a timing, with what is chained
to it.  The word may be that of a command, whose stem is free, but a command is called on a list or
an object of arguments or on nothing, and every other step on a string.
-/

namespace SeqScript.Script

open Context Tail

variable {F : Tail}

/-! ### Statements -/

/-- What is in the parentheses of a call. -/
inductive Call where
  | arguments (a : Arguments)
  | name (name : String)

namespace Call

def text (c : Context) (level : Nat) : Call → String
  | arguments a => (c.callArguments level a).value
  | name s => "(" ++ (quote s ++ ")")

def Alike : Call → Call → Prop
  | arguments a, arguments b => a.AlikeWhole b
  | name s, name t => s = t
  | _, _ => False

def IsPlain : Call → Prop
  | arguments a => a.IsPlain
  | name _ => True

end Call

/-- The parts that a step is written in. -/
structure Statement where
  timing : Timing
  word : String
  call : Call
  chained : Chained

namespace Statement

def text (c : Context) (level : Nat) (s : Statement) : String :=
  chain (level + 1) (Script.timing s.timing ++ ("." ++ (s.word ++ s.call.text c level)))
    (present (s.chained.slots c (level + 1)))

structure Alike (s t : Statement) : Prop where
  timing : s.timing = t.timing
  word : s.word = t.word
  call : s.call.Alike t.call
  chained : s.chained.Alike t.chained

structure IsPlain (s : Statement) : Prop where
  word : isIdentifier s.word
  call : s.call.IsPlain
  chained : s.chained.arguments.IsPlain

end Statement

/-- Arguments in parentheses, or nothing, do not begin like a string in parentheses. -/
theorem call_apart (c : Context) (level : Nat) (a : Arguments) (s : String)
    (ends : ∀ x, F x → ¬ Begins "(" x) :
    Unique F (c.callArguments level a).value ("(" ++ (quote s ++ ")")) False := by
  rw [value_callArguments]
  split_ifs
  · exact .nothing ends
  · have arguments := (leads_arguments c level a).append ")"
    refine Unique.before "(" (arguments.apart ((leads_quote s).append ")") ?_)
    cases a <;> nofun

theorem stops_callArguments (c : Context) (level : Nat) (a : Arguments) {x : List Char}
    (hx : Breaks x) :
    Stops isIdentifierRest ((c.callArguments level a).value.toList ++ x) := by
  rw [value_callArguments]
  split_ifs
  · exact hx.stops rfl rfl
  · exact stops_of_begins rfl rfl (begins_of_append (begins_append _ x))

theorem stops_call (c : Context) (level : Nat) (a : Call) {x : List Char} (hx : Breaks x) :
    Stops isIdentifierRest ((a.text c level).toList ++ x) := by
  cases a with
  | arguments a => exact stops_callArguments c level a hx
  | name s => exact stops_of_begins rfl rfl (begins_of_append (begins_append _ x))

section

variable {c d : Context} (agree : c.Agree d) (level : Nat)

include agree

theorem unique_call {a b : Call} (ha : a.IsPlain) (hb : b.IsPlain)
    (ends : ∀ x, F x → ¬ Begins "(" x) :
    Unique F (a.text c level) (b.text d level) (a.Alike b) := by
  cases a with
  | arguments a => cases b with
    | arguments b => exact unique_callArguments agree level ha hb ends
    | name t => exact call_apart c level a t ends
  | name s => cases b with
    | arguments b => exact (call_apart d level b s ends).symm
    | name t => exact (unique_quote s t).closed.before "("

/-- A statement tells its parts. -/
theorem unique_statement {s t : Statement} (hs : s.IsPlain) (ht : t.IsPlain) :
    Unique (EndsChain (level + 1)) (s.text c level) (t.text d level) (s.Alike t) := by
  have call := unique_call agree level hs.call ht.call fun _ => Breaks.not_call
  have word := (unique_identifier hs.word ht.word).append (fun _ => call)
    (fun _ => stops_call c level s.call) fun _ => stops_call d level t.call
  have head := (unique_timing s.timing t.timing).andThen fun _ => word.before "."
  refine (unique_chain agree (level + 1) hs.chained ht.chained head).congr ?_
  exact ⟨fun ⟨⟨timing, word, call⟩, chained⟩ => ⟨timing, word, call, chained⟩,
    fun ⟨timing, word, call, chained⟩ => ⟨⟨timing, word, call⟩, chained⟩⟩

end

/-! ### Steps -/

def callStatement (verb : String) (s : SequenceCall) : Statement :=
  ⟨s.timing, verb, .name s.sequence, ⟨s.arguments, s.annotations, s.engine, s.epoch, s.models⟩⟩

def statement : Step → Statement
  | .command x => ⟨x.timing, x.stem, .arguments x.arguments, { annotations := x.annotations }⟩
  | .groundEvent x => ⟨x.timing, "GROUND_EVENT", .name x.name,
      { arguments := x.arguments, annotations := x.annotations }⟩
  | .groundBlock x => ⟨.commandComplete, "GROUND_BLOCK", .name x.name,
      { arguments := x.arguments, annotations := x.annotations }⟩
  | .activate s => callStatement "ACTIVATE" s
  | .load s => callStatement "LOAD" s

theorem value_sequenceCall (c : Context) (level : Nat) (verb : String) (s : SequenceCall) :
    (c.sequenceCall level verb s).value = (callStatement verb s).text c level := by
  simp only [sequenceCall, Logged.value_bind, Logged.value_pure, Statement.text, callStatement,
    Call.text, ← insertAll_attributes, String.append_assoc]

theorem value_step (c : Context) (level : Nat) (x : Step) :
    (c.step level x).value = (statement x).text c level := by
  cases x with
  | command x =>
    simp only [step, Logged.value_bind, Logged.value_pure, Statement.text, statement, Call.text,
      annotationAttributes_eq c, String.append_assoc]
  | groundEvent x =>
    simp only [step, Logged.value_bind, Logged.value_pure, Statement.text, statement, Call.text,
      insertAll_arguments, String.append_assoc]
    rfl
  | groundBlock x =>
    simp only [step, Logged.value_bind, Logged.value_pure, Statement.text, statement, Call.text,
      insertAll_arguments, String.append_assoc]
    rfl
  | activate x => exact value_sequenceCall c level "ACTIVATE" x
  | load x => exact value_sequenceCall c level "LOAD" x

theorem alike_callStatement {verb : String} {s t : SequenceCall} :
    (callStatement verb s).Alike (callStatement verb t) ↔ s.Alike t :=
  ⟨fun ⟨timing, _, name, arguments, annotations, engine, epoch, models⟩ =>
      ⟨name, arguments, timing, annotations, engine, epoch, models⟩,
    fun ⟨name, arguments, timing, annotations, engine, epoch, models⟩ =>
      ⟨timing, rfl, name, arguments, annotations, engine, epoch, models⟩⟩

/-- Steps of different kinds differ in the word, or in what is in the parentheses. -/
theorem alike_statement {x y : Step} : (statement x).Alike (statement y) ↔ x.Alike y := by
  cases x <;> cases y
  case command.command x y =>
    exact ⟨fun ⟨timing, word, call, chained⟩ => ⟨word, call, timing, chained.annotations⟩,
      fun ⟨word, call, timing, annotations⟩ =>
        ⟨timing, word, call, .inl ⟨rfl, rfl⟩, annotations, rfl, rfl, .nil⟩⟩
  case groundEvent.groundEvent x y =>
    exact ⟨fun ⟨timing, _, name, chained⟩ =>
        ⟨name, chained.arguments, timing, chained.annotations⟩,
      fun ⟨name, arguments, timing, annotations⟩ =>
        ⟨timing, rfl, name, arguments, annotations, rfl, rfl, .nil⟩⟩
  case groundBlock.groundBlock x y =>
    exact ⟨fun ⟨_, _, name, chained⟩ => ⟨name, chained.arguments, chained.annotations⟩,
      fun ⟨name, arguments, annotations⟩ =>
        ⟨rfl, rfl, name, arguments, annotations, rfl, rfl, .nil⟩⟩
  case activate.activate s t => exact alike_callStatement
  case load.load s t => exact alike_callStatement
  all_goals
    refine iff_of_false (fun h => ?_) id
    first
      | exact h.call
      | simpa [statement, callStatement] using h.word

theorem isPlain_statement {x : Step} (h : x.IsPlain) : (statement x).IsPlain := by
  cases x with
  | command x => exact ⟨h.1, h.2, isPlain_none⟩
  | groundEvent x => exact ⟨(by decide : isIdentifier "GROUND_EVENT"), trivial, h⟩
  | groundBlock x => exact ⟨(by decide : isIdentifier "GROUND_BLOCK"), trivial, h⟩
  | activate s => exact ⟨(by decide : isIdentifier "ACTIVATE"), trivial, h⟩
  | load s => exact ⟨(by decide : isIdentifier "LOAD"), trivial, h⟩

theorem endsChain_of_comma (level : Nat) {x : List Char} (h : Begins "," x) : EndsChain level x :=
  ⟨.inr h, fun opened => not_begins rfl rfl (by decide) h
    (begins_of_append (begins_of_append opened))⟩

/-- A step in front of a comma tells itself. -/
theorem unique_step {c d : Context} (agree : c.Agree d) (level : Nat) {x y : Step}
    (hx : x.IsPlain) (hy : y.IsPlain) :
    Unique (Begins ",") (c.step level x).value (d.step level y).value (x.Alike y) := by
  rw [value_step, value_step]
  have parts := unique_statement agree level (isPlain_statement hx) (isPlain_statement hy)
  exact (parts.mono fun _ => endsChain_of_comma _).congr alike_statement

/-! ### Hardware and immediate commands -/

theorem unique_immediateCommand {c d : Context} (agree : c.Agree d) (level : Nat)
    {x y : ImmediateCommand} (hx : isIdentifier x.stem ∧ x.arguments.IsPlain)
    (hy : isIdentifier y.stem ∧ y.arguments.IsPlain) :
    Unique (Begins ",") (c.immediateCommand level x).value (d.immediateCommand level y).value
      (x.Alike y) := by
  have head := (unique_identifier hx.1 hy.1).append
    (fun _ => unique_callArguments agree level hx.2 hy.2 fun _ => Breaks.not_call)
    (fun _ => stops_callArguments c level _) fun _ => stops_callArguments d level _
  have parts := unique_annotated (level + 1) (a := x.annotations) (b := y.annotations) head
  refine (parts.mono fun _ => endsChain_of_comma _).congr ?_
  exact ⟨fun ⟨⟨stem, arguments⟩, annotations⟩ => ⟨stem, arguments, annotations⟩,
    fun ⟨stem, arguments, annotations⟩ => ⟨⟨stem, arguments⟩, annotations⟩⟩

/-- The end of a list is indented less deeply than the attributes of its items. -/
theorem endsChain_of_endsItem {level : Nat} {x : List Char} (h : EndsItem level x) :
    EndsChain (level + 1) x := by
  rcases h with comma | ⟨z, rfl⟩
  · exact endsChain_of_comma _ comma
  · rw [String.toList_append, List.append_assoc]
    refine ⟨.inl (begins_append _ _), fun opened => ?_⟩
    rw [String.append_assoc, begins_append_iff] at opened
    exact not_begins_pad (Nat.lt_succ_self level) (dedents_append level rfl (by decide) z)
      (begins_of_append opened)

theorem unique_hardwareCommand (level : Nat) {x y : HardwareCommand} (hx : isIdentifier x.stem)
    (hy : isIdentifier y.stem) :
    Unique (EndsItem level) (hardwareCommand (level + 1) x) (hardwareCommand (level + 1) y)
      (x.Alike y) := by
  have head : Unique Breaks x.stem y.stem _ :=
    (unique_identifier hx hy).mono fun _ h => h.stops rfl rfl
  have parts := unique_annotated (level + 1) (a := x.annotations) (b := y.annotations) head
  refine (parts.mono fun _ => endsChain_of_endsItem).congr ?_
  exact ⟨fun ⟨stem, annotations⟩ => ⟨stem, annotations⟩,
    fun ⟨stem, annotations⟩ => ⟨stem, annotations⟩⟩

end SeqScript.Script
