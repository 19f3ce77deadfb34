import SeqScript.Bulk
import SeqScript.Proofs.Document.Faults
import SeqScript.Proofs.Script.Diagnostics

/-!
# Shares of a bulk conversion

Each share begins at the index that the number of its worker tells, and together the shares are the
documents (`getElem?_shares`).  So the results of any number of workers, put together in the order
of the workers, are those of one worker that converts all the documents (`run_eq`).
-/

namespace SeqScript.Bulk

open Document

variable (o : Options)

/-! ### Documents -/

/-- What a document is converted to, whatever stands beside it. -/
def outcome (doc : Json) : Result := (read doc).value.map fun s => (Script.render s o).value

theorem value_convert (index : Nat) (doc : Json) : (convert o index doc).value = outcome o doc := by
  rw [convert, Logged.value_bind, outcome]
  cases (read doc).value <;> rfl

theorem value_convertFrom (start : Nat) (docs : List Json) :
    (convertFrom o start docs).map (·.value) = docs.map (outcome o) := by
  induction docs generalizing start with
  | nil => rfl
  | cons doc docs ih => rw [convertFrom, List.map_cons, value_convert, ih, List.map_cons]

theorem convertFrom_append (start : Nat) (before after : List Json) :
    convertFrom o start (before ++ after) =
      convertFrom o start before ++ convertFrom o (start + before.length) after := by
  induction before generalizing start with
  | nil => rfl
  | cons doc docs ih =>
    rw [List.cons_append, convertFrom, ih, convertFrom, List.cons_append, List.length_cons,
      Nat.add_assoc, Nat.add_comm 1]

/-- Scripts do not depend on the number of workers. -/
theorem render_jobs (s : Sequence) (jobs : Nat) :
    Script.render s { o with jobs } = Script.render s o := by
  have warnings (o : Options) : (Script.render s o).warnings =
      Script.undefinedWarnings s.scope s.leaves := Script.warnings_sequence ⟨s.scope, o⟩ s
  -- The pieces are the same for all options, and no piece shows the number of workers.
  obtain ⟨pieces, -, -, text⟩ := Script.laidOut_sequence s
  have pieceText (piece : Script.Piece) :
      piece.text ⟨s.scope, { o with jobs }⟩ = piece.text ⟨s.scope, o⟩ := by
    rcases piece with text | l | name <;> rfl
  have value : (Script.render s { o with jobs }).value = (Script.render s o).value := by
    refine (text _).trans (Eq.trans ?_ (text _).symm)
    exact congrArg String.join (List.map_congr_left fun piece _ => pieceText piece)
  calc Script.render s { o with jobs }
      = ⟨(Script.render s { o with jobs }).value, (Script.render s { o with jobs }).warnings⟩ := rfl
    _ = ⟨(Script.render s o).value, (Script.render s o).warnings⟩ := by
      rw [value, warnings, warnings]

theorem convertFrom_jobs (jobs start : Nat) (docs : List Json) :
    convertFrom { o with jobs } start docs = convertFrom o start docs := by
  have finish_jobs (index : Nat) : finish { o with jobs } index = finish o index := by
    funext outcome
    rcases outcome with e | s
    · rfl
    · rw [finish, finish, render_jobs]
  induction docs generalizing start with
  | nil => rfl
  | cons doc docs ih => rw [convertFrom, convertFrom, ih, convert, convert, finish_jobs]

/-! ### Refused documents -/

theorem workerCount_pos (count : Nat) : 0 < workerCount o count := by
  unfold workerCount
  omega

/-- There are never more workers than documents, unless there are none. -/
theorem lt_of_workerCount_ne_one {count : Nat} (h : workerCount o count ≠ 1) : 1 < count := by
  unfold workerCount at h
  omega

/-- The number of documents that a worker is dealt, but for the last one. -/
def shareSize (workers count : Nat) : Nat := (count + workers - 1) / workers

theorem shareSize_pos {workers count : Nat} (hw : 0 < workers) (hc : 0 < count) :
    0 < shareSize workers count :=
  Nat.div_pos (by omega) hw

section

variable {size : Nat} (positive : 0 < size)

include positive

/-- The shares are converted like the documents that they were dealt from. -/
theorem flatMap_sharesFrom {fuel : Nat} {docs : List Json} (enough : docs.length ≤ fuel)
    (start : Nat) : (sharesFrom size fuel start docs).flatMap
      (fun s => convertFrom o s.start s.docs) = convertFrom o start docs := by
  induction fuel generalizing docs start with
  | zero =>
    obtain rfl := List.length_eq_zero_iff.1 (Nat.le_zero.1 enough)
    rfl
  | succ fuel ih =>
    rw [sharesFrom]
    by_cases empty : docs = []
    · rw [empty]
      rfl
    · have some_left : 0 < docs.length := List.length_pos_iff.2 empty
      have fewer : (docs.drop size).length ≤ fuel := by
        rw [List.length_drop]
        omega
      rw [if_neg fun h => empty (List.isEmpty_iff.1 h), List.flatMap_cons, ih fewer]
      rcases Nat.le_total size docs.length with within | beyond
      · have split := convertFrom_append o start (docs.take size) (docs.drop size)
        rw [List.take_append_drop, List.length_take_of_le within] at split
        exact split.symm
      · rw [List.take_of_length_le beyond, List.drop_of_length_le beyond, convertFrom,
          List.append_nil]

end

/-- What each worker is dealt. -/
def dealt (docs : List Json) : List Share :=
  let count := workerCount o docs.length
  if count = 1 then [⟨0, docs⟩] else shares count docs

theorem workers_eq (docs : List Json) :
    workers o docs = (dealt o docs).map fun s => convertFrom o s.start s.docs := by
  unfold workers dealt
  dsimp only
  split_ifs <;> rfl

/-- The results of all workers, in their order, are those of one worker. -/
theorem flatMap_dealt (docs : List Json) :
    (dealt o docs).flatMap (fun s => convertFrom o s.start s.docs) = convertFrom o 0 docs := by
  unfold dealt
  dsimp only
  split_ifs with single
  · exact List.append_nil _
  · have positive := shareSize_pos (workerCount_pos o docs.length)
      (Nat.zero_lt_of_lt (lt_of_workerCount_ne_one o single))
    exact flatMap_sharesFrom o positive (Nat.le_refl docs.length) 0

theorem run_eq (docs : List Json) : run o docs = convertFrom o 0 docs := by
  rw [run, workers_eq, ← List.flatMap_def, flatMap_dealt]

theorem results_eq (docs : List Json) : results o docs = docs.map (outcome o) := by
  rw [results, run_eq, value_convertFrom]

end SeqScript.Bulk
