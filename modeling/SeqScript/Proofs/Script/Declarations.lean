import SeqScript.Proofs.Script.Layout

/-!
# Declarations that are told apart

A declaration tells its variable but for the kind, which is not written.  Its options are left out
when none is set; an option that is set to an empty list is written.
-/

namespace SeqScript.Script

open Context Tail

variable {F : Tail}

/-! ### Types -/

/-- What a type adds between the name of its variable and the options. -/
def enumText (t : VariableType) : String :=
  match t.enumName? with
  | some name => ", " ++ quote name
  | none => ""

theorem unique_tag (t u : VariableType) :
    Unique (Stops isIdentifierRest) t.tag u.tag (t.tag = u.tag) := by
  have identifier (t : VariableType) : isIdentifier t.tag := by
    cases t with
    | enumeration name => exact (by decide : isIdentifier VariableType.enumTag)
    | _ => decide
  exact unique_identifier (identifier t) (identifier u)

theorem unique_enumText {t u : VariableType} (h : t.tag = u.tag) :
    Unique F (enumText t) (enumText u) (t = u) := by
  have isSome (t : VariableType) : t.enumName?.isSome = (t.tag == VariableType.enumTag) := by
    cases t <;> rfl
  have shown : t.enumName?.isSome = u.enumName?.isSome := by rw [isSome, isSome, h]
  have same : t.enumName? = u.enumName? ↔ t = u := by
    refine ⟨fun names => ?_, congrArg _⟩
    have typed := VariableType.ofTag?_tag t
    rw [h, names, VariableType.ofTag?_tag] at typed
    exact (Option.some.inj typed).symm
  refine Unique.congr ?_ same
  unfold enumText
  generalize t.enumName? = m at shown ⊢
  generalize u.enumName? = n at shown ⊢
  rcases m with _ | m <;> rcases n with _ | n
  · exact (Unique.refl _).congr (iff_of_true trivial rfl)
  · contradiction
  · contradiction
  · exact ((unique_quote m n).before ", ").congr Option.some_inj.symm

/-! ### Options -/

theorem alike_writeRange {r s : AllowableRange} :
    (Document.writeRange r).Alike (Document.writeRange s) ↔ r.Alike s := by
  simp only [Document.writeRange, Json.Alike, Json.AlikeMembers, true_and, and_true]
  exact and_comm

theorem alike_writeAllowable {v w : AllowableValue} :
    (Document.writeAllowable v).Alike (Document.writeAllowable w) ↔ v.Alike w := by
  cases v <;> cases w <;> simp only [Document.writeAllowable, Json.Alike, AllowableValue.Alike]

/-- A written list tells its items as their JSON values do. -/
theorem unique_written {α : Type} {write : α → Json} {R : α → α → Prop}
    (h : ∀ {a b}, (write a).Alike (write b) ↔ R a b) (level : Nat) (as bs : List α) :
    Unique (Begins ",") (json level (.array (as.map write))) (json level (.array (bs.map write)))
      (List.Forall₂ R as bs) := by
  refine ((unique_json level _ _).mono fun _ => stops_of_comma).congr ?_
  rw [Json.Alike, Json.alikeItems_iff, List.forall₂_map_left_iff, List.forall₂_map_right_iff]
  simp only [h]

def optionSlots (level : Nat) (o : VariableOptions) : List (String × Option Fragment) := [
  ("allowable_ranges",
    o.ranges.map fun rs => .plain (json level (.array (rs.map Document.writeRange)))),
  ("allowable_values",
    o.values.map fun vs => .plain (json level (.array (vs.map Document.writeAllowable)))),
  ("sc_name", o.scName.map fun s => .plain (quote s))]

theorem variableEntries_eq (level : Nat) (o : VariableOptions) :
    variableEntries level o = present (optionSlots level o) := by
  obtain ⟨ranges, values, scName⟩ := o
  cases ranges <;> cases values <;> cases scName <;> rfl

theorem isEmpty_variableEntries (level : Nat) (o : VariableOptions) :
    (variableEntries level o).isEmpty =
      (o.ranges.isNone && o.values.isNone && o.scName.isNone) := by
  obtain ⟨ranges, values, scName⟩ := o
  cases ranges <;> cases values <;> cases scName <;> rfl

theorem leftOut_variableEntries (level : Nat) (o p : VariableOptions) :
    LeftOut (variableEntries level o).isEmpty (variableEntries level p).isEmpty (o.Alike p) := by
  rw [isEmpty_variableEntries, isEmpty_variableEntries]
  obtain ⟨ranges, values, scName⟩ := o
  obtain ⟨ranges', values', scName'⟩ := p
  refine ⟨fun left right => ?_, fun ⟨r, v, s⟩ => ?_⟩
  · simp only [Bool.and_eq_true, Option.isNone_iff_eq_none] at left right
    obtain ⟨⟨rfl, rfl⟩, rfl⟩ := left
    obtain ⟨⟨rfl, rfl⟩, rfl⟩ := right
    exact ⟨.none, .none, rfl⟩
  · cases r <;> cases v <;> cases s <;> rfl

/-- The options of two variables side by side. -/
def optionSections (level : Nat) (a b : VariableOptions) : List (Section Fragment) :=
  let ranges (rs : List AllowableRange) : Fragment :=
    .plain (json level (.array (rs.map Document.writeRange)))
  let values (vs : List AllowableValue) : Fragment :=
    .plain (json level (.array (vs.map Document.writeAllowable)))
  let scName (s : String) : Fragment := .plain (quote s)
  [⟨"allowable_ranges", a.ranges.map ranges, b.ranges.map ranges,
      Option.Rel (List.Forall₂ AllowableRange.Alike) a.ranges b.ranges⟩,
    ⟨"allowable_values", a.values.map values, b.values.map values,
      Option.Rel (List.Forall₂ AllowableValue.Alike) a.values b.values⟩,
    ⟨"sc_name", a.scName.map scName, b.scName.map scName, a.scName = b.scName⟩]

theorem alike_optionSections {level : Nat} {a b : VariableOptions} :
    (∀ s ∈ optionSections level a b, s.alike) ↔ a.Alike b := by
  simp only [optionSections, List.forall_mem_cons, List.not_mem_nil, false_imp_iff, implies_true,
    and_true]
  exact ⟨fun ⟨ranges, values, scName⟩ => ⟨ranges, values, scName⟩,
    fun alike => ⟨alike.ranges, alike.values, alike.scName⟩⟩

theorem areUnique_optionSections (o : Options) (level : Nat) (a b : VariableOptions) :
    Section.AreUnique (·.member o) (Begins "\n") (optionSections level a b) := by
  refine ⟨Section.isUnique_option (fun rs rs' => ?_) _ _,
    fun _ => ⟨Section.isUnique_option (fun vs vs' => ?_) _ _,
      fun _ => ⟨Section.isUnique_option_eq (fun s t => ?_) _ _, fun _ => trivial⟩⟩⟩
  · exact unique_plain (unique_written alike_writeRange _ rs rs')
  · exact unique_plain (unique_written alike_writeAllowable _ vs vs')
  · exact unique_plain (unique_quote s t)

/-- Options that are set tell themselves. -/
theorem unique_variableEntries (o : Options) (level : Nat) (a b : VariableOptions) :
    Unique F
      (memberLines o (level + 1) (variableEntries (level + 1) a) ++ (pad level ++ "\x7d"))
      (memberLines o (level + 1) (variableEntries (level + 1) b) ++ (pad level ++ "\x7d"))
      (a.Alike b) := by
  have names : (optionSections (level + 1) a b).map (·.name) =
      ["allowable_ranges", "allowable_values", "sc_name"] := rfl
  have members : Unique F _ _ (∀ s ∈ optionSections (level + 1) a b, s.alike) :=
    unique_memberLines o level (names ▸ by decide) (names ▸ by decide)
      (areUnique_optionSections o (level + 1) a b)
  rw [variableEntries_eq, variableEntries_eq]
  exact members.congr alike_optionSections

/-! ### Declarations -/

/-- What a declaration ends with if it has options. -/
def optionsText (c : Context) (level : Nat) (o : VariableOptions) : String :=
  if (variableEntries (level + 1) o).isEmpty then ""
  else ", " ++ object c.options level (variableEntries (level + 1) o)

theorem unique_optionsText {c d : Context} (options : c.options = d.options) (level : Nat)
    (o p : VariableOptions) :
    Unique (Begins ")") (optionsText c level o) (optionsText d level p) (o.Alike p) := by
  refine Unique.unless (leftOut_variableEntries _ o p) (fun s => .nothing fun x hx => ?_)
    fun left right => ?_
  · exact not_begins rfl rfl (by decide) hx
  · rw [← options, object_eq _ _ left, object_eq _ _ right]
    exact (unique_variableEntries c.options level o p).before _

theorem declaration_eq (c : Context) (level : Nat) (v : Variable) : c.declaration level v =
    v.type.tag ++ ("(" ++ (quote v.name ++ (enumText v.type ++
      (optionsText c level v.options ++ ")")))) := by
  unfold declaration enumText optionsText
  cases v.type.enumName? <;> simp only [String.append_assoc]

/-- A declaration tells its variable but for the kind. -/
theorem unique_declaration {c d : Context} (options : c.options = d.options) (level : Nat)
    (v w : Variable) :
    Unique F (c.declaration level v) (d.declaration level w) (v.Alike w) := by
  have opens (s : String) (x : List Char) (_ : F x) :
      Stops isIdentifierRest (("(" ++ s).toList ++ x) :=
    stops_of_begins rfl rfl (begins_of_append (begins_append _ x))
  rw [declaration_eq, declaration_eq]
  refine ((unique_tag v.type w.type).append (fun tag => (Unique.andThen (unique_quote _ _)
    fun _ => (unique_enumText tag).andThen fun _ =>
      (unique_optionsText options level _ _).closed).before "(") (opens _) (opens _)).congr ?_
  exact ⟨fun ⟨_, name, type, options⟩ => ⟨type, name, options⟩,
    fun ⟨type, name, options⟩ => ⟨congrArg _ type, name, type, options⟩⟩

end SeqScript.Script
