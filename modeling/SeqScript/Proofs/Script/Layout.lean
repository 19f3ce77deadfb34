import SeqScript.Proofs.Json.Tree
import SeqScript.Proofs.Script.Literal

/-!
# Layouts that are told apart

Objects and lists tell their members when each member tells what it is in front of what follows
it there.  The end of a list is told from another item by its indentation, which is shallower
(`Dedents`).
-/

namespace SeqScript.Script

open Context Tail

variable {F : Tail} {p q : String}

/-! ### Indentation -/

/-- A text indented for a level and no deeper. -/
def Dedents (level : Nat) : Tail := fun x => ∃ c z, c ≠ ' ' ∧ x = (pad level).toList ++ c :: z

theorem toList_pad (level : Nat) : (pad level).toList = List.replicate (2 * level) ' ' :=
  String.toList_ofList

theorem not_begins_pad {level deeper : Nat} (h : level < deeper) {x : List Char}
    (hx : Dedents level x) : ¬ Begins (pad deeper) x := by
  rintro ⟨w, same⟩
  obtain ⟨c, z, other, rfl⟩ := hx
  have more : 2 * deeper = 2 * level + (2 * (deeper - level) - 1 + 1) := by omega
  rw [toList_pad, toList_pad, more, List.replicate_add, List.append_assoc,
    List.append_cancel_left_eq, List.replicate_succ, List.cons_append] at same
  exact other (List.cons.inj same).1

theorem dedents_append (level : Nat) {s : String} {c : Char} {cs : List Char}
    (text : s.toList = c :: cs) (other : c ≠ ' ') (x : List Char) :
    Dedents level ((pad level ++ s).toList ++ x) :=
  ⟨c, cs ++ x, other, by rw [String.toList_append, text, List.append_assoc, List.cons_append]⟩

theorem begins_pad_append (level : Nat) (s : String) (x : List Char) :
    Begins (pad level) ((pad level ++ s).toList ++ x) :=
  ⟨s.toList ++ x, by rw [String.toList_append, List.append_assoc]⟩

theorem not_begins {s t : String} {c d : Char} {cs ds : List Char} (hs : s.toList = c :: cs)
    (ht : t.toList = d :: ds) (other : c ≠ d) {x : List Char} (h : Begins s x) : ¬ Begins t x := by
  rintro ⟨z, same⟩
  obtain ⟨y, rfl⟩ := h
  rw [hs, ht] at same
  exact other (List.cons.inj same).1

/-! ### Objects and lists -/

section

variable {α : Type} {as bs : List α} (o : Options) (level : Nat)

theorem unique_lines {item item' : α → String} {R : α → α → Prop}
    (items : ∀ a ∈ as, ∀ b ∈ bs, Unique Any (item a) (item' b) (R a b)) :
    Unique (Dedents level)
      (String.join (as.map fun a => pad (level + 1) ++ item a))
      (String.join (bs.map fun b => pad (level + 1) ++ item' b)) (List.Forall₂ R as bs) :=
  Unique.join (fun a ha b hb => (items a ha b hb).before _)
    (fun _ _ x => begins_pad_append _ _ x) (fun _ _ x => begins_pad_append _ _ x)
    (fun _ h => not_begins_pad (Nat.lt_succ_self level) h) (fun _ _ => trivial)

/-- An object tells the names and the values of its members. -/
theorem unique_object {f g : α → String × Fragment} {R : α → α → Prop}
    (values : ∀ a ∈ as, ∀ b ∈ bs,
      Unique (Begins "\n") ((f a).2.member o) ((g b).2.member o) (R a b)) :
    Unique F (object o level (as.map f)) (object o level (bs.map g))
      (List.Forall₂ (fun a b => (f a).1 = (g b).1 ∧ R a b) as bs) := by
  have lines (f : α → String × Fragment) (as : List α) : object o level (as.map f) =
      if as.isEmpty then "\x7b\x7d"
      else "\x7b\n" ++ (String.join (as.map fun a => pad (level + 1) ++
        (key (f a).1 ++ ": " ++ (f a).2.member o ++ "\n")) ++ (pad level ++ "\x7d")) := by
    simp only [object, memberLines, List.isEmpty_map, List.map_map, Function.comp_def,
      String.append_assoc]
  rw [lines f, lines g]
  refine Unique.unless leftOut_forall₂ (fun s => Unique.apart fun x y _ _ => ?_) fun _ _ => ?_
  · simp [String.toList_append]
  · refine (unique_lines level fun a ha b hb => ?_).after _ fun x _ =>
      dedents_append level rfl (by decide) x
    exact ((unique_key _ _).closed.andThen fun _ => values a ha b hb).closed

/-- A list tells its items. -/
theorem unique_array {f g : α → Fragment} {R : α → α → Prop}
    (values : ∀ a ∈ as, ∀ b ∈ bs, Unique (Begins "\n") ((f a).member o) ((g b).member o) (R a b)) :
    Unique F (array o level (as.map f)) (array o level (bs.map g)) (List.Forall₂ R as bs) := by
  have lines (f : α → Fragment) (as : List α) : array o level (as.map f) =
      if as.isEmpty then "[]" else "[\n" ++ (String.join (as.map fun a => pad (level + 1) ++
        ((f a).member o ++ "\n")) ++ (pad level ++ "]")) := by
    simp only [array, itemLines, List.isEmpty_map, List.map_map, Function.comp_def,
      String.append_assoc]
  rw [lines f, lines g]
  refine Unique.unless leftOut_forall₂ (fun s => Unique.apart fun x y _ _ => ?_) fun _ _ => ?_
  · simp [String.toList_append]
  · refine (unique_lines level fun a ha b hb => ?_).after _ fun x _ =>
      dedents_append level rfl (by decide) x
    exact (values a ha b hb).closed

/-- What follows an item of a list with commas between its items. -/
def EndsItem (level : Nat) : Tail := fun x => Begins "," x ∨ Begins ("\n" ++ (pad level ++ "]")) x

theorem commaLines_cons (item : String) (items : List String) :
    commaLines level (item :: items) =
      pad level ++ item ++ String.join (items.map fun i => ",\n" ++ (pad level ++ i)) := by
  unfold commaLines
  induction items generalizing item with
  | nil => rw [List.map_cons, List.map_nil, List.map_nil, String.intercalate_singleton,
      String.join_nil, String.append_empty]
  | cons i items ih =>
    rw [List.map_cons, List.map_cons, String.intercalate_cons_cons, ← List.map_cons, ih,
      List.map_cons, String.join_cons]
    simp only [String.append_assoc]

/-- Lines joined by commas tell the items. -/
theorem unique_commaLines {f g : α → String} {R : α → α → Prop}
    (items : ∀ a ∈ as, ∀ b ∈ bs, Unique (EndsItem level) (f a) (g b) (R a b))
    (nonempty : as ≠ []) (nonempty' : bs ≠ []) :
    Unique (Begins ("\n" ++ (pad level ++ "]"))) (commaLines (level + 1) (as.map f))
      (commaLines (level + 1) (bs.map g)) (List.Forall₂ R as bs) := by
  rcases as with _ | ⟨a, as⟩
  · contradiction
  rcases bs with _ | ⟨b, bs⟩
  · contradiction
  have comma (f : α → String) (as : List α) : (as.map f).map
      (fun i => ",\n" ++ (pad (level + 1) ++ i)) =
      as.map fun a => ",\n" ++ (pad (level + 1) ++ f a) := by
    rw [List.map_map]
    rfl
  have opens (f : α → String) (a : α) (x : List Char) :
      Begins "," ((",\n" ++ (pad (level + 1) ++ f a)).toList ++ x) := by
    refine begins_of_append (t := "\n" ++ (pad (level + 1) ++ f a)) ?_
    exact begins_append _ x
  have rest : Unique (Begins ("\n" ++ (pad level ++ "]")))
      (String.join (as.map fun a => ",\n" ++ (pad (level + 1) ++ f a)))
      (String.join (bs.map fun b => ",\n" ++ (pad (level + 1) ++ g b)))
      (List.Forall₂ R as bs) := by
    refine Unique.join (fun a ha b hb => ?_) (fun a _ => opens f a) (fun b _ => opens g b)
      (fun x hx comma => ?_) (fun x h => h.symm)
    · exact ((items a (List.mem_cons_of_mem _ ha) b (List.mem_cons_of_mem _ hb)).before _).before _
    · exact not_begins rfl rfl (by decide) (begins_of_append hx) comma
  have tail (f : α → String) (as : List α) (x : List Char)
      (hx : Begins ("\n" ++ (pad level ++ "]")) x) : EndsItem level
        ((String.join (as.map fun a => ",\n" ++ (pad (level + 1) ++ f a))).toList ++ x) :=
    (join_tail (fun a _ => opens f a) hx).symm
  rw [List.map_cons, List.map_cons, commaLines_cons, commaLines_cons, comma, comma,
    String.append_assoc, String.append_assoc]
  have first := items a List.mem_cons_self b List.mem_cons_self
  exact ((first.append (fun _ => rest) (tail f as) (tail g bs)).before _).congr
    List.forall₂_cons.symm

/-- A list with commas only between its items tells them. -/
theorem unique_separated {f g : α → String} {R : α → α → Prop}
    (items : ∀ a ∈ as, ∀ b ∈ bs, Unique (EndsItem level) (f a) (g b) (R a b)) :
    Unique F (separated level (as.map f)) (separated level (bs.map g)) (List.Forall₂ R as bs) := by
  have lines (f : α → String) (as : List α) : separated level (as.map f) =
      if as.isEmpty then "[]"
      else "[\n" ++ (commaLines (level + 1) (as.map f) ++ ("\n" ++ (pad level ++ "]"))) := by
    simp only [separated, List.isEmpty_map, String.append_assoc]
  rw [lines f, lines g]
  refine Unique.unless leftOut_forall₂ (fun s => Unique.apart fun x y _ _ => ?_) fun ha hb => ?_
  · simp [String.toList_append]
  · exact (unique_commaLines level items (List.isEmpty_eq_false_iff.1 ha)
      (List.isEmpty_eq_false_iff.1 hb)).closed

/-- Lines that end in a comma tell the items. -/
theorem unique_commaEnded {f g : α → String} {R : α → α → Prop}
    (items : ∀ a ∈ as, ∀ b ∈ bs, Unique (Begins ",") (f a) (g b) (R a b)) :
    Unique (Dedents level) (commaEnded (level + 1) (as.map f)) (commaEnded (level + 1) (bs.map g))
      (List.Forall₂ R as bs) := by
  have lines (f : α → String) (as : List α) : commaEnded (level + 1) (as.map f) =
      String.join (as.map fun a => pad (level + 1) ++ (f a ++ ",\n")) := by
    simp only [commaEnded, List.map_map, Function.comp_def, String.append_assoc]
  rw [lines f, lines g]
  refine unique_lines level fun a ha b hb => (items a ha b hb).after _ fun x _ => ?_
  exact begins_of_append (t := "\n") (begins_append ",\n" x)

theorem unique_stepList {f g : α → String} {R : α → α → Prop}
    (items : ∀ a ∈ as, ∀ b ∈ bs, Unique (Begins ",") (f a) (g b) (R a b)) :
    Unique F (stepList level (as.map f)) (stepList level (bs.map g)) (List.Forall₂ R as bs) := by
  have lines (f : α → String) (as : List α) : stepList level (as.map f) =
      if as.isEmpty then "[]"
      else "[\n" ++ (commaEnded (level + 1) (as.map f) ++ (pad level ++ "]")) := by
    simp only [stepList, List.isEmpty_map, String.append_assoc]
  rw [lines f, lines g]
  refine Unique.unless leftOut_forall₂ (fun s => Unique.apart fun x y _ _ => ?_) fun _ _ => ?_
  · simp [String.toList_append]
  · exact (unique_commaEnded level items).after _ fun x _ => dedents_append level rfl (by decide) x

end

/-! ### Objects with fixed members -/

theorem object_eq (o : Options) (level : Nat) {entries : List (String × Fragment)}
    (h : entries.isEmpty = false) : object o level entries =
      "\x7b\n" ++ (memberLines o (level + 1) entries ++ (pad level ++ "\x7d")) := by
  rw [object, h, if_neg Bool.false_ne_true]
  simp only [String.append_assoc]

/-- Sections named by identifiers, in front of a separator that continues none. -/
theorem unique_sections {α : Type} {pre sep post : String} {text : α → String}
    {ss : List (Section α)} (distinct : (ss.map (·.name)).Nodup)
    (identifiers : ∀ n ∈ ss.map (·.name), isIdentifier n)
    (stop : ∀ z, Stops isIdentifierRest (sep.toList ++ z))
    (told : Section.AreUnique text (Begins post) ss) (ends : ∀ x, F x → ¬ Begins pre x) :
    Unique F (sections pre sep post text (ss.map fun s => (s.name, s.left)))
      (sections pre sep post text (ss.map fun s => (s.name, s.right))) (∀ s ∈ ss, s.alike) :=
  Unique.sections distinct (fun n hn => isIdentifierRest_of_isIdentifier (identifiers n hn)) stop
    told ends

theorem memberLines_present (o : Options) (level : Nat) {slots : List (String × Option Fragment)}
    (identifiers : ∀ s ∈ slots, isIdentifier s.1) : memberLines o level (present slots) =
      sections (pad level) ": " "\n" (·.member o) slots := by
  refine congrArg String.join (List.map_congr_left fun s hs => ?_)
  obtain ⟨slot, mem, value⟩ := List.mem_filterMap.1 hs
  obtain ⟨f, -, rfl⟩ := Option.map_eq_some_iff.1 value
  simp only [key, identifiers slot mem, if_true]

/-- The lines of an object whose members have fixed names tell the members. -/
theorem unique_memberLines (o : Options) (level : Nat) {ss : List (Section Fragment)}
    (distinct : (ss.map (·.name)).Nodup) (identifiers : ∀ n ∈ ss.map (·.name), isIdentifier n)
    (values : Section.AreUnique (·.member o) (Begins "\n") ss) :
    Unique F
      (memberLines o (level + 1) (present (ss.map fun s => (s.name, s.left))) ++
        (pad level ++ "\x7d"))
      (memberLines o (level + 1) (present (ss.map fun s => (s.name, s.right))) ++
        (pad level ++ "\x7d"))
      (∀ s ∈ ss, s.alike) := by
  have lines : Unique (Dedents level) _ _ _ := unique_sections distinct identifiers
    (fun z => stops_of_begins rfl rfl (begins_append ": " z)) values
    fun x => not_begins_pad (Nat.lt_succ_self level)
  have names := List.forall_mem_map.1 identifiers
  rw [memberLines_present o _ (List.forall_mem_map.2 names),
    memberLines_present o _ (List.forall_mem_map.2 names)]
  exact lines.after _ fun x _ => dedents_append level rfl (by decide) x

/-! ### JSON values -/

theorem jsonItems_eq (level : Nat) (vs : List Json) :
    jsonItems level vs = vs.map fun v => .plain (json level v) := by
  induction vs with
  | nil => rfl
  | cons v vs ih => rw [jsonItems, ih, List.map_cons]

theorem jsonMembers_eq (level : Nat) (ms : List (String × Json)) :
    jsonMembers level ms = ms.map fun m => (m.1, .plain (json level m.2)) := by
  induction ms with
  | nil => rfl
  | cons m ms ih =>
    obtain ⟨name, v⟩ := m
    rw [jsonMembers, ih, List.map_cons]

/-- What the first character of a value tells. -/
def jsonLead : Json → Lead
  | .null => .null
  | .bool _ => .boolean
  | .number _ => .number
  | .string _ => .string
  | .array _ => .list
  | .object _ => .object

theorem leads_array (o : Options) (level : Nat) (items : List Fragment) :
    Leads .list (array o level items) := by
  unfold array
  split_ifs
  · exact ⟨'[', ⟨_, rfl⟩, rfl⟩
  · rw [String.append_assoc, String.append_assoc]
    exact Leads.append ⟨'[', ⟨_, rfl⟩, rfl⟩ _

theorem leads_object (o : Options) (level : Nat) (entries : List (String × Fragment)) :
    Leads .object (object o level entries) := by
  unfold object
  split_ifs
  · exact ⟨'{', ⟨_, rfl⟩, rfl⟩
  · rw [String.append_assoc, String.append_assoc]
    exact Leads.append ⟨'{', ⟨_, rfl⟩, rfl⟩ _

theorem leads_json (level : Nat) (v : Json) : Leads (jsonLead v) (json level v) := by
  cases v with
  | null =>
    rw [json]
    exact ⟨'n', ⟨_, rfl⟩, rfl⟩
  | bool b => exact leads_boolean b
  | number n => exact leads_number n
  | string s => exact leads_quote s
  | array vs => exact leads_array _ _ _
  | object ms => exact leads_object _ _ _

/-- A plain text in front of a comma. -/
theorem unique_plain {o : Options} {R : Prop} (h : Unique (Begins ",") p q R) :
    Unique F ((Fragment.plain p).member o) ((Fragment.plain q).member o) R :=
  h.closed

theorem stops_of_comma {x : List Char} (h : Begins "," x) : Stops isNumeralChar x :=
  stops_of_begins rfl (by decide) h

/-- A JSON value tells itself but for numbers that are written alike. -/
theorem unique_json (level : Nat) (v w : Json) :
    Unique (Stops isNumeralChar) (json level v) (json level w) (v.Alike w) := by
  induction v using Json.treeInduction generalizing level w with
  | null => cases w with
    | null => exact Unique.refl _
    | _ => exact (leads_json level _).apart (leads_json level _) nofun
  | bool a => cases w with
    | bool b => exact unique_boolean a b
    | _ => exact (leads_json level _).apart (leads_json level _) nofun
  | number m => cases w with
    | number n => exact unique_number m n
    | _ => exact (leads_json level _).apart (leads_json level _) nofun
  | string s => cases w with
    | string t => exact unique_quote s t
    | _ => exact (leads_json level _).apart (leads_json level _) nofun
  | array vs ih => cases w with
    | array ws =>
      rw [json, json, jsonItems_eq, jsonItems_eq, Json.Alike, Json.alikeItems_iff]
      exact unique_array _ _ fun v hv w _ =>
        unique_plain ((ih v hv (level + 1) w).mono fun _ => stops_of_comma)
    | _ => exact (leads_json level _).apart (leads_json level _) nofun
  | object ms ih => cases w with
    | object ns =>
      rw [json, json, jsonMembers_eq, jsonMembers_eq, Json.Alike, Json.alikeMembers_iff]
      exact unique_object _ _ fun m hm n _ =>
        unique_plain ((ih m hm (level + 1) n.2).mono fun _ => stops_of_comma)
    | _ => exact (leads_json level _).apart (leads_json level _) nofun

end SeqScript.Script
