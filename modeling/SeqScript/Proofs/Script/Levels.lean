import SeqScript.Proofs.Script.Lines

/-!
# Texts at a level

A text is indented by putting the spaces of some levels after every line feed (`indented`).  What is
carried through the layouts is a property of the text for each level: a deeper level indents it by
the difference (`Shifts`).  Whole lines begin with their own indentation and are shifted with the
spaces in front of them (`ShiftsLines`).  So every layout passes levels on with its own offsets.
-/

namespace SeqScript.Script

open Context

/-! ### Indented texts -/

/-- The text with the spaces of some levels after every line feed. -/
def indented (levels : Nat) (s : String) : String :=
  String.ofList (s.toList.flatMap fun c => if c = '\n' then c :: (pad levels).toList else [c])

theorem toList_indented (n : Nat) (s : String) : (indented n s).toList =
    s.toList.flatMap fun c => if c = '\n' then c :: (pad n).toList else [c] :=
  String.toList_ofList

theorem indented_append (n : Nat) (s t : String) :
    indented n (s ++ t) = indented n s ++ indented n t := by
  apply String.toList_inj.1
  simp only [toList_indented, String.toList_append, List.flatMap_append]

theorem indented_newline (n : Nat) : indented n "\n" = "\n" ++ pad n := by
  apply String.toList_inj.1
  rw [toList_indented, String.toList_append]
  exact List.append_nil _

theorem indented_eq_self (n : Nat) {s : String} (h : lineEnds '\n' s = 0) : indented n s = s := by
  rw [lineEnds_eq_zero_iff] at h
  apply String.toList_inj.1
  rw [toList_indented]
  generalize s.toList = cs at h ⊢
  induction cs with
  | nil => rfl
  | cons c cs ih =>
    rw [List.mem_cons, not_or] at h
    rw [List.flatMap_cons, if_neg (Ne.symm h.1), ih h.2, List.singleton_append]

/-- A text that ends its line indents the next one. -/
theorem indented_opening {s : String} (h : lineEnds '\n' s = 0) (n : Nat) :
    indented n (s ++ "\n") = s ++ "\n" ++ pad n := by
  rw [indented_append, indented_newline, indented_eq_self n h, String.append_assoc]

theorem indented_join (n : Nat) (texts : List String) :
    indented n (String.join texts) = String.join (texts.map (indented n)) := by
  induction texts with
  | nil => exact indented_eq_self n rfl
  | cons t ts ih => rw [List.map_cons, String.join_cons, String.join_cons, indented_append, ih]

theorem pad_add (m n : Nat) : pad (m + n) = pad m ++ pad n := by
  apply String.toList_inj.1
  rw [String.toList_append, toList_pad, toList_pad, toList_pad, Nat.mul_add, List.replicate_add]

theorem indented_pad (n level : Nat) : indented n (pad level) = pad level :=
  indented_eq_self n (lineEnds_pad (.inl rfl) level)

/-! ### Texts at a level -/

/-- A deeper level indents the text that starts on the line of the level. -/
def Shifts (f : Nat → String) : Prop := ∀ level n, f (level + n) = indented n (f level)

/-- A deeper level indents the texts of a list. -/
def ShiftsEach (f : Nat → List String) : Prop :=
  ∀ level n, f (level + n) = (f level).map (indented n)

/-- A deeper level indents whole lines: their indentation is moved with them. -/
def ShiftsLines (f : Nat → String) : Prop :=
  ∀ level n, pad n ++ indented n (f level) = f (level + n) ++ pad n

section

variable {f g : Nat → String}

theorem Shifts.of_const {s : String} (h : lineEnds '\n' s = 0) : Shifts fun _ => s := by
  intro level n
  exact (indented_eq_self n h).symm

theorem Shifts.append (hf : Shifts f) (hg : Shifts g) : Shifts fun level => f level ++ g level := by
  intro level n
  simp only [hf level n, hg level n, indented_append]

/-- A text at a fixed number of levels below. -/
theorem Shifts.below (hf : Shifts f) (k : Nat) : Shifts fun level => f (level + k) := by
  intro level n
  show f (level + n + k) = indented n (f (level + k))
  rw [← hf (level + k) n, Nat.add_right_comm]

theorem shifts_newline : Shifts fun level => "\n" ++ pad level := by
  intro level n
  show "\n" ++ pad (level + n) = indented n ("\n" ++ pad level)
  rw [indented_append, indented_newline, indented_pad, Nat.add_comm, pad_add, String.append_assoc]

/-- The text at a level by the text at the outermost. -/
theorem Shifts.eq_indented (hf : Shifts f) (level : Nat) : f level = indented level (f 0) := by
  rw [← hf 0 level, Nat.zero_add]

/-- A line of its own, which ends in a line feed. -/
theorem indented_line (n level : Nat) (t : String) :
    pad n ++ indented n (pad level ++ t ++ "\n") =
      pad (level + n) ++ indented n t ++ "\n" ++ pad n := by
  rw [Nat.add_comm level n, pad_add]
  simp only [indented_append, indented_pad, indented_newline, String.append_assoc]

/-- Lines at the next level between an opening and a closing one. -/
theorem ShiftsLines.enclosed (hf : ShiftsLines f) (opening closing : String)
    (hopening : ∀ n, indented n opening = opening ++ pad n) (hclosing : lineEnds '\n' closing = 0) :
    Shifts fun level => opening ++ f (level + 1) ++ pad level ++ closing := by
  intro level n
  have moved (rest : String) : pad n ++ (indented n (f (level + 1)) ++ rest) =
      f (level + n + 1) ++ (pad n ++ rest) := by
    rw [← String.append_assoc, hf (level + 1) n, String.append_assoc, Nat.add_right_comm]
  have spaces (rest : String) : pad n ++ (pad level ++ rest) = pad (level + n) ++ rest := by
    rw [← String.append_assoc, ← pad_add, Nat.add_comm]
  simp only [indented_append, indented_pad, hopening, indented_eq_self n hclosing,
    String.append_assoc, moved, spaces]

end

/-! ### Lists of texts -/

section

variable {f g : Nat → List String}

theorem ShiftsEach.nil : ShiftsEach fun _ => [] := fun _ _ => rfl

theorem ShiftsEach.append (hf : ShiftsEach f) (hg : ShiftsEach g) :
    ShiftsEach fun level => f level ++ g level := by
  intro level n
  simp only [hf level n, hg level n, List.map_append]

theorem ShiftsEach.cons {t : Nat → String} (ht : Shifts t) (hf : ShiftsEach f) :
    ShiftsEach fun level => t level :: f level := by
  intro level n
  simp only [ht level n, hf level n, List.map_cons]

theorem ShiftsEach.of_map {α : Type} {as : List α} {text : Nat → α → String}
    (h : ∀ a ∈ as, Shifts fun level => text level a) :
    ShiftsEach fun level => as.map (text level) := by
  intro level n
  rw [List.map_map]
  exact List.map_congr_left fun a mem => h a mem level n

theorem ShiftsEach.below (hf : ShiftsEach f) (k : Nat) : ShiftsEach fun level => f (level + k) := by
  intro level n
  show f (level + n + k) = (f (level + k)).map (indented n)
  rw [← hf (level + k) n, Nat.add_right_comm]

/-- A list that is empty at one level is empty at each. -/
theorem ShiftsEach.isEmpty_eq (hf : ShiftsEach f) (level : Nat) :
    (f level).isEmpty = (f 0).isEmpty := by
  have outermost := hf 0 level
  rw [Nat.zero_add] at outermost
  rw [outermost, List.isEmpty_map]

/-- A text that is shown unless the list at the next level is empty. -/
theorem ShiftsEach.unlessEmpty (hf : ShiftsEach f) (empty : String) {text : Nat → String}
    (hempty : lineEnds '\n' empty = 0) (h : (∀ level, f level ≠ []) → Shifts text) :
    Shifts fun level => if (f (level + 1)).isEmpty then empty else text level := by
  intro level n
  show (if (f (level + n + 1)).isEmpty then empty else text (level + n)) =
    indented n (if (f (level + 1)).isEmpty then empty else text level)
  rw [hf.isEmpty_eq (level + n + 1), hf.isEmpty_eq (level + 1)]
  split_ifs with none
  · exact (indented_eq_self n hempty).symm
  · refine h (fun k hk => none ?_) level n
    rw [← hf.isEmpty_eq k, hk]
    rfl

theorem ShiftsEach.join (hf : ShiftsEach f) : Shifts fun level => String.join (f level) := by
  intro level n
  simp only [hf level n, indented_join]

/-- A slot is shifted if its value is there at every level or at none. -/
theorem ShiftsEach.slot {α : Type} {text : Nat → String × α → String} {name : String}
    {v : Nat → Option α} {slots : Nat → List (String × Option α)}
    (hv : ShiftsEach fun level => (v level).toList.map fun x => text level (name, x))
    (hs : ShiftsEach fun level => (present (slots level)).map (text level)) :
    ShiftsEach fun level => (present ((name, v level) :: slots level)).map (text level) := by
  simp only [present_cons, List.map_append, List.map_map]
  exact hv.append hs

theorem ShiftsEach.of_option {α β : Type} {o : Option β} {value : Nat → β → α}
    {text : Nat → α → String} (h : ∀ b ∈ o, Shifts fun level => text level (value level b)) :
    ShiftsEach fun level => (o.map (value level)).toList.map (text level) := by
  cases o with
  | none => exact .nil
  | some b => exact .cons (h b rfl) .nil

theorem ShiftsEach.of_unless {α : Type} (absent : Bool) {value : Nat → α}
    {text : Nat → α → String} (h : Shifts fun level => text level (value level)) :
    ShiftsEach fun level =>
      (if absent then none else some (value level)).toList.map (text level) := by
  cases absent with
  | false => exact .cons h .nil
  | true => exact .nil

/-- Each text on lines of its own. -/
theorem ShiftsEach.onLines (hf : ShiftsEach f) :
    ShiftsLines fun level => String.join ((f level).map fun t => pad level ++ t ++ "\n") := by
  intro level n
  show pad n ++ indented n (String.join ((f level).map fun t => pad level ++ t ++ "\n")) =
    String.join ((f (level + n)).map fun t => pad (level + n) ++ t ++ "\n") ++ pad n
  rw [hf level n]
  induction f level with
  | nil =>
    rw [List.map_nil, List.map_nil, List.map_nil, String.join_nil, indented_eq_self n rfl,
      String.append_empty, String.empty_append]
  | cons t ts ih =>
    rw [List.map_cons, List.map_cons, List.map_cons, String.join_cons, String.join_cons,
      indented_append, ← String.append_assoc, indented_line, String.append_assoc, ih]
    simp only [String.append_assoc]

end

/-! ### Layouts -/

/-- Lines between brackets, or the brackets alone if there are none. -/
theorem ShiftsEach.bracketed {f : Nat → List String} (hf : ShiftsEach f)
    (opening closing empty : String) (hopening : ∀ n, indented n opening = opening ++ pad n)
    (hclosing : lineEnds '\n' closing = 0) (hempty : lineEnds '\n' empty = 0) :
    Shifts fun level => if (f (level + 1)).isEmpty then empty
      else opening ++ String.join ((f (level + 1)).map fun t => pad (level + 1) ++ t ++ "\n") ++
        pad level ++ closing :=
  hf.unlessEmpty empty hempty fun _ => hf.onLines.enclosed opening closing hopening hclosing

theorem shifts_array (o : Options) (items : Nat → List Fragment)
    (h : ShiftsEach fun level => (items level).map (·.member o)) :
    Shifts fun level => array o level (items (level + 1)) := by
  have lines := h.bracketed "[\n" "]" "[]" (indented_opening (s := "[") rfl) rfl rfl
  intro level n
  simpa only [array, itemLines, List.map_map, List.isEmpty_map, Function.comp_def] using
    lines level n

theorem shifts_object (o : Options) (entries : Nat → List (String × Fragment))
    (h : ShiftsEach fun level => (entries level).map fun e => key e.1 ++ ": " ++ e.2.member o) :
    Shifts fun level => object o level (entries (level + 1)) := by
  have lines := h.bracketed "\x7b\n" "\x7d" "\x7b\x7d" (indented_opening (s := "\x7b") rfl) rfl rfl
  intro level n
  simpa only [object, memberLines, List.map_map, List.isEmpty_map, Function.comp_def,
    String.append_assoc] using lines level n

theorem shifts_commaEnded {items : Nat → List String} (h : ShiftsEach items) :
    ShiftsLines fun level => commaEnded level (items level) := by
  have ended : ShiftsEach fun level => (items level).map (· ++ ",") := by
    intro level n
    simp only [h level n, List.map_map, Function.comp_def, indented_append,
      indented_eq_self n (s := ",") rfl]
  have comma (s : String) : s ++ ",\n" = s ++ "," ++ "\n" := by
    rw [String.append_assoc]
    rfl
  intro level n
  simpa only [commaEnded, comma, List.map_map, Function.comp_def, String.append_assoc]
    using ended.onLines level n

theorem shifts_stepList {items : Nat → List String} (h : ShiftsEach items) :
    Shifts fun level => stepList level (items (level + 1)) :=
  h.unlessEmpty "[]" rfl fun _ =>
    (shifts_commaEnded h).enclosed "[\n" "]" (indented_opening (s := "[") rfl) rfl

theorem shifts_commaLines {items : Nat → List String} (h : ShiftsEach items)
    (nonempty : ∀ level, items level ≠ []) :
    ShiftsLines fun level => commaLines level (items level) ++ "\n" := by
  intro level n
  obtain ⟨t, ts, filled⟩ := List.exists_cons_of_ne_nil (nonempty level)
  dsimp only
  rw [h level n, filled]
  have comma : indented n ",\n" = ",\n" ++ pad n := indented_opening (s := ",") rfl n
  have rest : indented n (String.join (ts.map fun i => ",\n" ++ (pad level ++ i))) =
      String.join ((ts.map (indented n)).map fun i => ",\n" ++ (pad (level + n) ++ i)) := by
    rw [indented_join, List.map_map, List.map_map, Nat.add_comm level n, pad_add]
    simp only [Function.comp_def, indented_append, indented_pad, comma, String.append_assoc]
  have line (a b c : String) : a ++ b ++ c ++ "\n" = a ++ (b ++ c) ++ "\n" := by
    simp only [String.append_assoc]
  rw [List.map_cons, commaLines_cons, commaLines_cons, line, indented_line, indented_append, rest,
    line]

theorem shifts_separated {items : Nat → List String} (h : ShiftsEach items) :
    Shifts fun level => separated level (items (level + 1)) := by
  have lines := h.unlessEmpty "[]" rfl fun nonempty =>
    (shifts_commaLines h nonempty).enclosed "[\n" "]" (indented_opening (s := "[") rfl) rfl
  intro level n
  simpa only [separated, String.append_assoc] using lines level n

end SeqScript.Script
