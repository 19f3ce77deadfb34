import SeqScript.Proofs.Script.Layout

/-!
# Arguments that are told apart

Two renderers with the same options that find a symbol in the same list, if in any, write two
arguments the same exactly when the arguments are alike (`unique_argument`).  A symbol that no list
declares is written twice, as a path and in its diagnostic, and is told by the path.
-/

namespace SeqScript.Script

open Context Tail

variable {F : Tail}

theorem Context.value_positional (c : Context) (level : Nat) (as : List Argument) :
    (c.positional level as).value = as.map fun a => (c.argument level a).value := by
  induction as with
  | nil => rfl
  | cons a as ih =>
    rw [positional, List.map_cons, ← ih]
    rfl

theorem Context.value_named (c : Context) (level : Nat) (as : List (String × Argument)) :
    (c.named level as).value = as.map fun a => (a.1, (c.argument level a.2).value) := by
  induction as with
  | nil => rfl
  | cons a as ih =>
    obtain ⟨name, a⟩ := a
    rw [named, List.map_cons, ← ih]
    rfl

/-- The renderers differ at most in declarations that no path shows. -/
structure Context.Agree (c d : Context) : Prop where
  options : c.options = d.options
  resolve : ∀ name, c.scope.resolve? name = d.scope.resolve? name

/-! ### Symbols -/

/-- What a path starts with. -/
def pathHead : Option VariableKind → String
  | some kind => kind.listName ++ "."
  | none => "unknown."

/-- What follows the name of a symbol up to the end of its line. -/
def pathEnd (o : Options) (kind : Option VariableKind) (name : String) : String :=
  let diagnostic := "ERROR: " ++ Warning.undefinedMessage name
  match kind with
  | some _ => ","
  | none =>
    if o.legacyErrorComments then " //" ++ (diagnostic ++ ",") else ", //" ++ diagnostic

theorem member_symbol (c : Context) (name : String) :
    (c.symbol name).value.member c.options = pathHead (c.scope.resolve? name) ++
      (name ++ pathEnd c.options (c.scope.resolve? name) name) := by
  unfold Context.symbol
  cases c.scope.resolve? name with
  | some kind => simp only [Logged.value_pure, Fragment.member, Fragment.plain, pathHead, pathEnd,
      String.append_assoc]
  | none =>
    simp only [Logged.value_bind, Logged.value_pure, Fragment.member, Fragment.degraded, pathHead,
      pathEnd]
    split_ifs <;> simp only [String.append_assoc]

/-- The name of a path stops at a comma or a blank. -/
theorem stops_pathEnd (o : Options) (kind : Option VariableKind) (name : String)
    (x : List Char) : Stops isIdentifierRest ((pathEnd o kind name).toList ++ x) := by
  unfold pathEnd
  cases kind with
  | some kind => exact stops_of_begins rfl rfl (begins_append "," x)
  | none =>
    dsimp only
    split_ifs
    · exact stops_of_begins rfl rfl (begins_of_append (begins_append _ x))
    · exact stops_of_begins rfl rfl (begins_of_append (begins_append _ x))

/-- The first character of a path. -/
def pathLetter : Option VariableKind → Char
  | some .locals => 'l'
  | some .parameters => 'p'
  | none => 'u'

theorem starts_pathHead (kind : Option VariableKind) :
    Starts (pathLetter kind) (pathHead kind) := by
  rcases kind with _ | _ | _ <;> exact ⟨_, rfl⟩

theorem pathLetter_injective : Function.Injective pathLetter := by
  intro k l h
  rcases k with _ | _ | _ <;> rcases l with _ | _ | _ <;> first | rfl | exact absurd h (by decide)

theorem unique_symbol {c d : Context} (agree : c.Agree d) {m n : String} (hm : isIdentifier m)
    (hn : isIdentifier n) :
    Unique F ((c.symbol m).value.member c.options) ((d.symbol n).value.member c.options)
      (m = n) := by
  have second := agree.options ▸ member_symbol d n
  rw [member_symbol, second, ← agree.resolve]
  by_cases kinds : c.scope.resolve? m = c.scope.resolve? n
  · rw [kinds]
    have name : Unique Any (m ++ pathEnd c.options (c.scope.resolve? n) m)
        (n ++ pathEnd c.options (c.scope.resolve? n) n) (m = n ∧ True) :=
      (unique_identifier hm hn).append (fun same => same ▸ .refl _)
        (fun x _ => stops_pathEnd _ _ _ x) fun x _ => stops_pathEnd _ _ _ x
    exact ((name.mono fun _ _ => trivial).before _).congr (and_iff_left trivial)
  · have heads := pathLetter_injective.ne kinds
    exact (((starts_pathHead _).append _).apart ((starts_pathHead _).append _) heads).congr
      (iff_of_false id fun same => kinds (same ▸ rfl))

/-! ### Arguments -/

theorem leftOut_alikeWhole {a b : Arguments} : LeftOut a.isEmpty b.isEmpty (a.AlikeWhole b) := by
  rw [← a.isEmpty_members, ← b.isEmpty_members, Arguments.alikeWhole_iff]
  exact leftOut_forall₂

/-- What the first character of an argument tells. -/
def argumentLead : Argument → Lead
  | .literal l => literalLead l
  | .symbol _ => .symbol
  | .group (.positional _) => .list
  | .group (.named _) => .object

theorem value_callArguments (c : Context) (level : Nat) (a : Arguments) :
    (c.callArguments level a).value =
      if a.isEmpty then "" else "(" ++ ((c.arguments level a).value ++ ")") := by
  unfold callArguments
  split_ifs
  · rfl
  · simp only [Logged.value_bind, Logged.value_pure, String.append_assoc]

theorem lead_eq_of_alike {a b : Argument} (h : a.Alike b) : argumentLead a = argumentLead b := by
  rcases a with l | m | (as | as) <;> rcases b with l' | n | (bs | bs) <;>
    simp only [Argument.Alike, Arguments.Alike] at h
  · cases l <;> cases l' <;> first | rfl | exact h.elim
  · rfl
  · rfl
  · rfl

theorem leads_arguments (c : Context) (level : Nat) (a : Arguments) :
    Leads (argumentLead (.group a)) (c.arguments level a).value := by
  cases a with
  | positional as => exact leads_array _ _ _
  | named as => exact leads_object _ _ _

theorem leads_argument (c : Context) (level : Nat) (a : Argument) :
    Leads (argumentLead a) ((c.argument level a).value.member c.options) := by
  cases a with
  | literal l => exact (leads_literal l).append ","
  | symbol name =>
    rw [argument, member_symbol]
    refine Leads.append ⟨_, starts_pathHead _, ?_⟩ _
    rcases c.scope.resolve? name with _ | _ | _ <;> rfl
  | group a => exact (leads_arguments c level a).append ","

theorem type_eq_of_alike {a b : Argument} (h : a.Alike b) : a.type = b.type := by
  have lead := lead_eq_of_alike h
  rcases a with (_ | _ | _) | _ | (_ | _) <;> rcases b with (_ | _ | _) | _ | (_ | _) <;>
    first | rfl | exact nomatch lead

/-- The members of a typed argument. -/
def typedSlots (name : Option String) (a : Argument) (value : Fragment) :
    List (String × Option Fragment) := [
  ("name", name.map fun n => .plain (quote n)),
  ("type", some (.plain (quote a.type.name))),
  ("value", some value)]

theorem value_typedArgument (c : Context) (level : Nat) (name : Option String) (a : Argument) :
    (c.typedArgument level name a).value = .plain (object c.options level
      (present (typedSlots name a (c.argument (level + 1) a).value))) := by
  cases name <;> rfl

/-- The members of two typed arguments side by side. -/
def typedSections (c d : Context) (level : Nat) (m n : Option String × Argument) :
    List (Section Fragment) := [
  ⟨"name", m.1.map fun s => .plain (quote s), n.1.map fun s => .plain (quote s), m.1 = n.1⟩,
  ⟨"type", some (.plain (quote m.2.type.name)), some (.plain (quote n.2.type.name)),
    m.2.type.name = n.2.type.name⟩,
  ⟨"value", some (c.argument level m.2).value, some (d.argument level n.2).value,
    m.2.Alike n.2⟩]

/-- The type of an argument is that of an argument like it. -/
theorem alike_typedSections {c d : Context} {level : Nat} {m n : Option String × Argument} :
    (∀ s ∈ typedSections c d level m n, s.alike) ↔ m.1 = n.1 ∧ m.2.Alike n.2 := by
  simp only [typedSections, List.forall_mem_cons, List.not_mem_nil, false_imp_iff, implies_true,
    and_true]
  refine and_congr_right fun _ => and_iff_right_of_imp fun alike => ?_
  rw [type_eq_of_alike alike]

theorem value_typedArguments (c : Context) (level : Nat) (a : Arguments) :
    (c.typedArguments level a).value =
      a.members.map fun m => (c.typedArgument level m.1 m.2).value := by
  cases a <;> simp only [typedArguments, Arguments.members, Logged.value_each, List.map_map] <;>
    rfl

section

variable {c d : Context} (agree : c.Agree d) (level : Nat)

include agree

theorem unique_positional {as bs : List Argument}
    (items : ∀ a ∈ as, ∀ b ∈ bs, Unique (Begins "\n")
      ((c.argument (level + 1) a).value.member c.options)
      ((d.argument (level + 1) b).value.member c.options) (a.Alike b)) :
    Unique F (c.arguments level (.positional as)).value (d.arguments level (.positional bs)).value
      (Arguments.Alike (.positional as) (.positional bs)) := by
  simp only [arguments, Logged.value_bind, Logged.value_pure, value_positional, ← agree.options]
  rw [Arguments.Alike, Arguments.alikeItems_iff]
  exact unique_array _ _ items

theorem unique_named {as bs : List (String × Argument)}
    (items : ∀ a ∈ as, ∀ b ∈ bs, Unique (Begins "\n")
      ((c.argument (level + 1) a.2).value.member c.options)
      ((d.argument (level + 1) b.2).value.member c.options) (a.2.Alike b.2)) :
    Unique F (c.arguments level (.named as)).value (d.arguments level (.named bs)).value
      (Arguments.Alike (.named as) (.named bs)) := by
  simp only [arguments, Logged.value_bind, Logged.value_pure, value_named, ← agree.options]
  rw [Arguments.Alike, Arguments.alikeNamed_iff]
  exact unique_object _ _ items

/-- Arguments that begin differently are told apart. -/
theorem argument_apart {a b : Argument} (h : argumentLead a ≠ argumentLead b) :
    Unique F ((c.argument level a).value.member c.options)
      ((d.argument level b).value.member c.options) (a.Alike b) :=
  ((leads_argument c level a).apart (agree.options ▸ leads_argument d level b) h).congr
    (iff_of_false id (mt lead_eq_of_alike h))

theorem unique_argument {a b : Argument} (ha : a.IsPlain) (hb : b.IsPlain) :
    Unique F ((c.argument level a).value.member c.options)
      ((d.argument level b).value.member c.options) (a.Alike b) := by
  induction a using Argument.treeInduction generalizing F level b with
  | literal l => cases b with
    | literal m =>
      rw [Argument.Alike]
      exact unique_plain ((unique_literal l m).mono fun _ => stops_of_comma)
    | symbol n => exact argument_apart agree level (by cases l <;> simp [argumentLead, literalLead])
    | group b =>
      exact argument_apart agree level
        (by cases l <;> cases b <;> simp [argumentLead, literalLead])
  | symbol m => cases b with
    | literal l =>
      exact argument_apart agree level (by cases l <;> simp [argumentLead, literalLead])
    | symbol n =>
      rw [Argument.IsPlain] at ha hb
      rw [Argument.Alike, argument, argument]
      exact unique_symbol agree ha hb
    | group b => exact argument_apart agree level (by cases b <;> simp [argumentLead])
  | positional as ih =>
    rcases b with l | n | (bs | bs)
    · exact argument_apart agree level (by cases l <;> simp [argumentLead, literalLead])
    · exact argument_apart agree level (by simp [argumentLead])
    · rw [Argument.IsPlain, Arguments.IsPlain, Arguments.plainItems_iff] at ha hb
      rw [Argument.Alike, argument, argument]
      exact unique_plain (unique_positional agree level
        fun a mem b mem' => ih a mem (level + 1) (ha a mem) (hb b mem'))
    · exact argument_apart agree level (by simp [argumentLead])
  | named as ih =>
    rcases b with l | n | (bs | bs)
    · exact argument_apart agree level (by cases l <;> simp [argumentLead, literalLead])
    · exact argument_apart agree level (by simp [argumentLead])
    · exact argument_apart agree level (by simp [argumentLead])
    · rw [Argument.IsPlain, Arguments.IsPlain, Arguments.plainNamed_iff] at ha hb
      rw [Argument.Alike, argument, argument]
      exact unique_plain (unique_named agree level
        fun a mem b mem' => ih a mem (level + 1) (ha a mem) (hb b mem'))

/-- The arguments of a call tell themselves. -/
theorem unique_arguments {a b : Arguments} (ha : a.IsPlain) (hb : b.IsPlain) :
    Unique F (c.arguments level a).value (d.arguments level b).value (a.Alike b) := by
  have apart {a b : Arguments} (h : argumentLead (.group a) ≠ argumentLead (.group b)) :
      Unique F (c.arguments level a).value (d.arguments level b).value (a.Alike b) := by
    refine ((leads_arguments c level a).apart (leads_arguments d level b) h).congr
      (iff_of_false id fun alike => h (lead_eq_of_alike ?_))
    rw [Argument.Alike]
    exact alike
  cases a with
  | positional as => cases b with
    | positional bs =>
      rw [Arguments.IsPlain, Arguments.plainItems_iff] at ha hb
      exact unique_positional agree level
        fun a mem b mem' => unique_argument agree (level + 1) (ha a mem) (hb b mem')
    | named bs => exact apart (by simp [argumentLead])
  | named as => cases b with
    | positional bs => exact apart (by simp [argumentLead])
    | named bs =>
      rw [Arguments.IsPlain, Arguments.plainNamed_iff] at ha hb
      exact unique_named agree level
        fun a mem b mem' => unique_argument agree (level + 1) (ha a mem) (hb b mem')

/-- The arguments of a call, or nothing where there are none. -/
theorem unique_callArguments {a b : Arguments} (ha : a.IsPlain) (hb : b.IsPlain)
    (ends : ∀ x, F x → ¬ Begins "(" x) :
    Unique F (c.callArguments level a).value (d.callArguments level b).value
      (a.AlikeWhole b) := by
  rw [value_callArguments, value_callArguments]
  refine Unique.unless leftOut_alikeWhole (fun s => .nothing ends) fun ea eb => ?_
  refine ((unique_arguments agree level ha hb).congr ?_).closed
  rw [Arguments.AlikeWhole, ea, eb]
  simp

theorem unique_typedArgument {m n : Option String × Argument} (ha : m.2.IsPlain)
    (hb : n.2.IsPlain) :
    Unique F ((c.typedArgument level m.1 m.2).value.member c.options)
      ((d.typedArgument level n.1 n.2).value.member c.options)
      (m.1 = n.1 ∧ m.2.Alike n.2) := by
  have nonempty (name : Option String) (a : Argument) (f : Fragment) :
      (present (typedSlots name a f)).isEmpty = false := by
    cases name <;> rfl
  rw [value_typedArgument, value_typedArgument, object_eq _ _ (nonempty ..),
    object_eq _ _ (nonempty ..), ← agree.options]
  have values : Section.AreUnique (·.member c.options) (Begins "\n")
      (typedSections c d (level + 1) m n) :=
    ⟨Section.isUnique_option_eq (fun s t => unique_plain (unique_quote s t)) _ _,
      fun _ => ⟨unique_plain (unique_quote _ _),
        fun _ => ⟨unique_argument agree (level + 1) ha hb, fun _ => trivial⟩⟩⟩
  have names : (typedSections c d (level + 1) m n).map (·.name) = ["name", "type", "value"] := rfl
  have members : Unique (Begins ",") _ _ (∀ s ∈ typedSections c d (level + 1) m n, s.alike) :=
    unique_memberLines c.options level (names ▸ by decide) (names ▸ by decide) values
  exact unique_plain (.before _ (members.congr alike_typedSections))

theorem unique_typedArguments {a b : Arguments} (ha : a.IsPlain) (hb : b.IsPlain) :
    Unique F (array c.options level (c.typedArguments (level + 1) a).value)
      (array d.options level (d.typedArguments (level + 1) b).value) (a.AlikeWhole b) := by
  rw [value_typedArguments, value_typedArguments, Arguments.alikeWhole_iff, ← agree.options]
  exact unique_array _ _ fun m hm n hn =>
    unique_typedArgument agree (level + 1) (Arguments.isPlain_members ha m hm)
      (Arguments.isPlain_members hb n hn)

end

end SeqScript.Script
