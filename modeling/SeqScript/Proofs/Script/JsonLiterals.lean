import SeqScript.Proofs.Script.Layout

/-!
# JSON literals at different levels

A literal that spans lines tells the level it is laid out at by the indentation of its first member
(`level_eq_of_append`), and every other literal is the same at every level (`json_of_isFlat`).  So
literals at any two levels, each in front of an end, are the same text exactly when the values are
the same but for numbers that are written alike and what follows is the same
(`json_append_eq_iff`).
-/

namespace SeqScript

/-- The literal of the value is a single line. -/
def Json.isFlat : Json → Bool
  | .array vs => vs.isEmpty
  | .object ms => ms.isEmpty
  | _ => true

theorem Json.isFlat_eq_of_alike {v w : Json} (h : v.Alike w) : v.isFlat = w.isFlat := by
  cases v with
  | null => cases w with
    | null => rfl
    | _ => contradiction
  | bool a => cases w with
    | bool b => rfl
    | _ => contradiction
  | number m => cases w with
    | number n => rfl
    | _ => contradiction
  | string s => cases w with
    | string t => rfl
    | _ => contradiction
  | array vs => cases w with
    | array ws => exact Script.leftOut_forall₂.same (alikeItems_iff.1 h)
    | _ => contradiction
  | object ms => cases w with
    | object ns => exact Script.leftOut_forall₂.same (alikeMembers_iff.1 h)
    | _ => contradiction

namespace Script

open Tail

/-! ### Levels -/

theorem level_eq_of_dedents {m n : Nat} {x : List Char} (hm : Dedents m x) (hn : Dedents n x) :
    m = n := by
  have begins {level : Nat} (h : Dedents level x) : Begins (pad level) x := by
    obtain ⟨c, z, -, rfl⟩ := h
    exact begins_append _ _
  rcases Nat.lt_trichotomy m n with less | same | more
  · exact absurd (begins hn) (not_begins_pad less hm)
  · exact same
  · exact absurd (begins hm) (not_begins_pad more hn)

/-- The text does not begin with a blank. -/
def StartsInPlace (p : String) : Prop := ∃ c, c ≠ ' ' ∧ Starts c p

theorem StartsInPlace.append {p : String} (h : StartsInPlace p) (s : String) :
    StartsInPlace (p ++ s) := by
  obtain ⟨c, other, starts⟩ := h
  exact ⟨c, other, starts.append s⟩

theorem StartsInPlace.dedents {p : String} (h : StartsInPlace p) (level : Nat) (x : List Char) :
    Dedents level ((pad level ++ p).toList ++ x) := by
  obtain ⟨c, other, cs, text⟩ := h
  exact dedents_append level text other x

theorem startsInPlace_json (level : Nat) (v : Json) : StartsInPlace (json level v) := by
  obtain ⟨c, starts, kind⟩ := leads_json level v
  refine ⟨c, ?_, starts⟩
  rintro rfl
  cases v <;> contradiction

theorem startsInPlace_key (name : String) : StartsInPlace (key name) := by
  unfold key
  split_ifs with identifier
  · obtain ⟨c, cs, text, start, -⟩ := exists_of_isIdentifier identifier
    refine ⟨c, ?_, cs, text⟩
    rintro rfl
    exact absurd start (by decide)
  · exact ⟨'\'', by decide, _, toList_quote name⟩

theorem json_array_cons (level : Nat) (v : Json) (vs : List Json) : ∃ rest,
    json level (.array (v :: vs)) = "[\n" ++ (pad (level + 1) ++ (json (level + 1) v ++ rest)) := by
  refine ⟨",\n" ++ itemLines {} (level + 1) (jsonItems (level + 1) vs) ++ pad level ++ "]", ?_⟩
  rw [json, jsonItems, array, itemLines, List.map_cons, String.join_cons]
  simp [itemLines, Fragment.member, Fragment.plain, String.append_assoc]

theorem json_object_cons (level : Nat) (name : String) (v : Json) (ms : List (String × Json)) :
    ∃ rest, json level (.object ((name, v) :: ms)) =
      "\x7b\n" ++ (pad (level + 1) ++ (key name ++ rest)) := by
  refine ⟨": " ++ json (level + 1) v ++ ",\n" ++
    memberLines {} (level + 1) (jsonMembers (level + 1) ms) ++ pad level ++ "\x7d", ?_⟩
  rw [json, jsonMembers, object, memberLines, List.map_cons, String.join_cons]
  simp [memberLines, Fragment.member, Fragment.plain, String.append_assoc]

/-- A literal of several lines opens with a bracket, and its first member is a level deeper. -/
theorem json_of_not_isFlat {v : Json} (h : v.isFlat = false) (level : Nat) :
    ∃ (bracket : Char) (s : String), StartsInPlace s ∧
      (json level v).toList = bracket :: '\n' :: (pad (level + 1) ++ s).toList := by
  cases v with
  | array vs =>
    obtain ⟨v, vs, rfl⟩ := List.exists_cons_of_ne_nil (List.isEmpty_eq_false_iff.1 h)
    obtain ⟨rest, text⟩ := json_array_cons level v vs
    refine ⟨'[', _, (startsInPlace_json (level + 1) v).append rest, ?_⟩
    rw [text, String.toList_append]
    rfl
  | object ms =>
    obtain ⟨⟨name, v⟩, ms, rfl⟩ := List.exists_cons_of_ne_nil (List.isEmpty_eq_false_iff.1 h)
    obtain ⟨rest, text⟩ := json_object_cons level name v ms
    refine ⟨'{', _, (startsInPlace_key name).append rest, ?_⟩
    rw [text, String.toList_append]
    rfl
  | _ => contradiction

theorem level_eq_of_append {v w : Json} (hv : v.isFlat = false) (hw : w.isFlat = false)
    {m n : Nat} {x y : List Char} (same : (json m v).toList ++ x = (json n w).toList ++ y) :
    m = n := by
  obtain ⟨b, p, left, hp⟩ := json_of_not_isFlat hv m
  obtain ⟨c, q, right, hq⟩ := json_of_not_isFlat hw n
  rw [hp, hq] at same
  have members : (pad (m + 1) ++ p).toList ++ x = (pad (n + 1) ++ q).toList ++ y :=
    (List.cons.inj (List.cons.inj same).2).2
  have deeper := right.dedents (n + 1) y
  rw [← members] at deeper
  exact Nat.succ.inj (level_eq_of_dedents (left.dedents (m + 1) x) deeper)

theorem json_of_isFlat {v : Json} (h : v.isFlat) (m n : Nat) : json m v = json n v := by
  cases v with
  | array vs =>
    obtain rfl : vs = [] := List.isEmpty_iff.1 h
    rfl
  | object ms =>
    obtain rfl : ms = [] := List.isEmpty_iff.1 h
    rfl
  | _ => rfl

/-! ### Literals -/

/-- What may follow a literal: nothing, a comma, a closing parenthesis or a line feed. -/
def EndsLiteral (x : String) : Prop := ∀ c ∈ x.toList.head?, c = ',' ∨ c = ')' ∨ c = '\n'

theorem EndsLiteral.stops {x : String} (h : EndsLiteral x) : Stops isNumeralChar x.toList := by
  intro c hc
  rcases h c hc with rfl | rfl | rfl
  · rfl
  · rfl
  · rfl

/-- Literals in front of ends are the same text only for values that are the same but for numbers
that are written alike, at the same level if it shows. -/
theorem json_append_eq_iff {x y : String} (hx : EndsLiteral x) (hy : EndsLiteral y) (v w : Json)
    (m n : Nat) :
    json m v ++ x = json n w ++ y ↔ x = y ∧ v.Alike w ∧ (v.isFlat ∨ m = n) := by
  have sameLevel (level : Nat) :
      json level v ++ x = json level w ++ y ↔ v.Alike w ∧ x = y := by
    rw [← String.toList_inj, String.toList_append, String.toList_append,
      unique_json level v w _ _ hx.stops hy.stops, String.toList_inj]
  -- A literal of one line can be moved to the level of the other; two of several lines show theirs.
  by_cases hv : v.isFlat
  · rw [json_of_isFlat hv m n, sameLevel n, and_comm]
    simp [hv]
  · constructor
    · intro same
      by_cases hw : w.isFlat
      · rw [json_of_isFlat hw n m] at same
        have alike := ((sameLevel m).1 same).1
        exact absurd (Json.isFlat_eq_of_alike alike ▸ hw) hv
      · have chars := congrArg String.toList same
        rw [String.toList_append, String.toList_append] at chars
        obtain rfl := level_eq_of_append (Bool.eq_false_iff.2 hv) (Bool.eq_false_iff.2 hw) chars
        obtain ⟨alike, tails⟩ := (sameLevel m).1 same
        exact ⟨tails, alike, .inr rfl⟩
    · rintro ⟨tails, alike, level⟩
      obtain rfl := level.resolve_left hv
      exact (sameLevel m).2 ⟨alike, tails⟩

/-- An object with a list in which a number stands before a string of brackets. -/
def nestedLiteral (n : Number) : Json :=
  .object [("a, b", .array [.number n, .string "]\n\x7d"]), ("c", .object [])]

/-- Zero is written alike as an integer and as a double, and the level shows. -/
theorem json_append_eq_iff_zero :
    json 1 (nestedLiteral (.integer 0 (by decide) (by decide))) ++ ",\n" =
      json 1 (nestedLiteral (.real .zero)) ++ ",\n" ∧
    json 0 (nestedLiteral (.real .zero)) ++ ")" ≠ json 1 (nestedLiteral (.real .zero)) ++ ")" := by
  have comma : EndsLiteral ",\n" := by
    rintro c ⟨⟩
    exact .inl rfl
  have parenthesis : EndsLiteral ")" := by
    rintro c ⟨⟩
    exact .inr (.inl rfl)
  have zero : number (.integer 0 (by decide) (by decide)) = number (.real .zero) := by
    decide +kernel
  have alike (a b : Number) (same : number a = number b) :
      (nestedLiteral a).Alike (nestedLiteral b) :=
    ⟨⟨rfl, same, rfl, trivial⟩, ⟨rfl, trivial⟩, trivial⟩
  constructor
  · exact (json_append_eq_iff comma comma _ _ 1 1).2 ⟨rfl, alike _ _ zero, .inr rfl⟩
  · intro same
    rcases ((json_append_eq_iff parenthesis parenthesis _ _ 0 1).1 same).2.2 with flat | level
    · exact Bool.false_ne_true flat
    · exact Nat.zero_ne_one level

end Script

end SeqScript
