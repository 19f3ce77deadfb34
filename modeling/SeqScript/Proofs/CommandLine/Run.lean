import SeqScript.Proofs.Bulk.Shares
import SeqScript.Proofs.CommandLine.FileTree
import SeqScript.Proofs.Json.TextRoundTrip

/-!
# Runs that are all or nothing

A run needs options, an input and, in bulk, a worker (`Converts`), and it fails for a reason that
can be named (`Refused`).  Each run has either a text to deliver or such a reason
(`settles_convert`, `Converts.not_refused`).  With a reason to fail it leaves the files and standard
output alone; otherwise it delivers the whole text to one of them (`runWords_all_or_nothing`).  What
was logged up to a failure stays logged (`warnings_run`).
-/

namespace SeqScript.CommandLine

/-! ### What a run goes by -/

/-- The options of a run: those of its config file, if it has one, and its flag. -/
inductive Configured (files : Files) (i : Invocation) : Options → Prop where
  | defaults (noFile : i.config = none) :
    Configured files i { legacyErrorComments := i.legacyErrorComments }
  | file {path text : String} {o : Options} (named : i.config = some path)
    (found : files.read path = .ok text) (valid : Options.read text = .ok o) :
    Configured files i
      { o with legacyErrorComments := o.legacyErrorComments || i.legacyErrorComments }

/-- The input of a run is the text of the value. -/
def HasInput (files : Files) (i : Invocation) (doc : Json) : Prop :=
  ∃ text, files.read i.input = .ok text ∧ Json.read text = .ok doc

/-- The text that a command makes of a value. -/
inductive Yields (o : Options) : Command → Json → String → Prop where
  | edsl {doc : Json} {s : Sequence} (valid : (Document.read doc).value = .ok s) :
    Yields o .edsl doc (Script.render s o).value
  | bulk (docs : List Json) : Yields o .bulk (.array docs)
      (Json.array (docs.map fun doc => resultObject (Bulk.outcome o doc))).spread
  | normalize {doc : Json} {s : Sequence} (valid : (Document.read doc).value = .ok s) :
    Yields o .normalize doc (Document.write s).spread

/-- A run has all that it needs to come to a text. -/
inductive Converts (files : Files) (i : Invocation) (text : String) : Prop where
  | intro {o : Options} {doc : Json} (options : Configured files i o)
    (workers : i.command = .bulk → i.jobs ≠ some 0) (input : HasInput files i doc)
    (yields : Yields o i.command doc text)

/-- A reason for which a run fails before it delivers anything. -/
inductive Refused (files : Files) (i : Invocation) : Prop where
  | unreadableConfig {path cause : String} (named : i.config = some path)
    (missing : files.read path = .error cause)
  | invalidConfig {path text : String} {e : Options.Error} (named : i.config = some path)
    (found : files.read path = .ok text) (invalid : Options.read text = .error e)
  | noWorkers (bulk : i.command = .bulk) (none : i.jobs = some 0)
  | unreadableInput {cause : String} (missing : files.read i.input = .error cause)
  | notJson {text : String} {e : Json.TextError} (found : files.read i.input = .ok text)
    (invalid : Json.read text = .error e)
  | notList {doc : Json} (bulk : i.command = .bulk) (input : HasInput files i doc)
    (other : ∀ docs, doc ≠ .array docs)
  | invalidSequence {doc : Json} {e : Document.ValidationError} (single : i.command ≠ .bulk)
    (input : HasInput files i doc) (invalid : (Document.read doc).value = .error e)

variable {files : Files} {i : Invocation}

/-! ### One text -/

theorem Configured.unique {o o' : Options} (h : Configured files i o)
    (h' : Configured files i o') : o = o' := by
  cases h with
  | defaults noFile =>
    cases h' with
    | defaults _ => rfl
    | file named _ _ => exact absurd (noFile.symm.trans named) nofun
  | file named found valid =>
    cases h' with
    | defaults noFile => exact absurd (noFile.symm.trans named) nofun
    | file named' found' valid' =>
      obtain rfl := Option.some.inj (named.symm.trans named')
      obtain rfl := Except.ok.inj (found.symm.trans found')
      obtain rfl := Except.ok.inj (valid.symm.trans valid')
      rfl

theorem HasInput.unique {doc doc' : Json} (h : HasInput files i doc) (h' : HasInput files i doc') :
    doc = doc' := by
  obtain ⟨text, found, valid⟩ := h
  obtain ⟨text', found', valid'⟩ := h'
  obtain rfl := Except.ok.inj (found.symm.trans found')
  exact Except.ok.inj (valid.symm.trans valid')

theorem Yields.unique {o : Options} {command : Command} {doc : Json} {text text' : String}
    (h : Yields o command doc text) (h' : Yields o command doc text') : text = text' := by
  cases h with
  | edsl valid =>
    obtain ⟨valid'⟩ := h'
    rw [Except.ok.inj (valid.symm.trans valid')]
  | bulk docs =>
    cases h'
    rfl
  | normalize valid =>
    obtain _ | _ | ⟨valid'⟩ := h'
    rw [Except.ok.inj (valid.symm.trans valid')]

theorem Converts.unique {text text' : String} (h : Converts files i text)
    (h' : Converts files i text') : text = text' := by
  obtain ⟨options, -, input, yields⟩ := h
  obtain ⟨options', -, input', yields'⟩ := h'
  obtain rfl := options.unique options'
  obtain rfl := input.unique input'
  exact yields.unique yields'

theorem Yields.exists_docs {o : Options} {doc : Json} {text : String}
    (h : Yields o .bulk doc text) : ∃ docs, doc = .array docs := by
  cases h with
  | bulk docs => exact ⟨docs, rfl⟩

theorem Yields.exists_sequence {o : Options} {command : Command} {doc : Json} {text : String}
    (h : Yields o command doc text) (single : command ≠ .bulk) :
    ∃ s, (Document.read doc).value = .ok s := by
  cases h with
  | edsl valid => exact ⟨_, valid⟩
  | bulk docs => contradiction
  | normalize valid => exact ⟨_, valid⟩

/-- A run that has its options has read them from the config file it was given. -/
theorem Configured.exists_text {o : Options} {path : String} (h : Configured files i o)
    (named : i.config = some path) :
    ∃ text, files.read path = .ok text ∧ ∃ loaded, Options.read text = .ok loaded := by
  cases h with
  | defaults noFile => exact absurd (noFile.symm.trans named) nofun
  | file named' found valid =>
    obtain rfl := Option.some.inj (named.symm.trans named')
    exact ⟨_, found, _, valid⟩

/-- A run that comes to a text has no reason to fail. -/
theorem Converts.not_refused {text : String} (h : Converts files i text) : ¬ Refused files i := by
  obtain ⟨options, workers, input, yields⟩ := h
  obtain ⟨source, found, parsed⟩ := id input
  intro refused
  cases refused with
  | unreadableConfig named missing =>
    obtain ⟨config, found', -⟩ := options.exists_text named
    exact absurd (missing.symm.trans found') nofun
  | invalidConfig named found' invalid =>
    obtain ⟨config, found'', loaded, valid⟩ := options.exists_text named
    obtain rfl := Except.ok.inj (found'.symm.trans found'')
    exact absurd (invalid.symm.trans valid) nofun
  | noWorkers bulk none => exact workers bulk none
  | unreadableInput missing => exact absurd (missing.symm.trans found) nofun
  | notJson found' invalid =>
    obtain rfl := Except.ok.inj (found'.symm.trans found)
    exact absurd (invalid.symm.trans parsed) nofun
  | notList bulk input' other =>
    obtain rfl := input.unique input'
    obtain ⟨docs, array⟩ := Yields.exists_docs (bulk ▸ yields)
    exact other docs array
  | invalidSequence single input' invalid =>
    obtain rfl := input.unique input'
    obtain ⟨s, valid⟩ := yields.exists_sequence single
    exact absurd (invalid.symm.trans valid) nofun

/-! ### Stages -/

section

variable {α β ε ε' : Type} {p : α → Prop} {q : β → Prop} {r : Prop} {x : Except ε α}

/-- A stage comes to a value with a property, or it fails and there is a reason. -/
def Settles (x : Except ε α) (p : α → Prop) (r : Prop) : Prop :=
  (∃ a, x = .ok a ∧ p a) ∨ (∃ e, x = .error e) ∧ r

theorem Settles.ok {a : α} (h : p a) : Settles (.ok a : Except ε α) p r := .inl ⟨a, rfl, h⟩

theorem Settles.error {e : ε} (h : r) : Settles (.error e) p r := .inr ⟨⟨e, rfl⟩, h⟩

theorem Settles.of_forall (ok : ∀ a, x = .ok a → p a) (error : ∀ e, x = .error e → r) :
    Settles x p r := by
  cases x with
  | error e => exact .error (error e rfl)
  | ok a => exact .ok (ok a rfl)

theorem Settles.mapError (h : Settles x p r) (f : ε → ε') : Settles (x.mapError f) p r := by
  obtain ⟨a, rfl, ha⟩ | ⟨⟨e, rfl⟩, reason⟩ := h
  · exact .ok ha
  · exact .error reason

theorem Settles.bind {f : α → Except ε β} (h : Settles x p r)
    (next : ∀ a, p a → Settles (f a) q r) : Settles (x >>= f) q r := by
  obtain ⟨a, rfl, ha⟩ | ⟨⟨e, rfl⟩, reason⟩ := h
  · exact next a ha
  · exact .error reason

end

/-! ### Attempts -/

namespace Attempt

variable {α β : Type}

theorem value_bind (x : Attempt α) (f : α → Attempt β) :
    (x >>= f).run.value = x.run.value >>= fun a => (f a).run.value := by
  rw [ExceptT.run_bind, Logged.value_bind]
  cases x.run.value <;> rfl

/-- What was logged before a failure is there, and nothing is logged after it. -/
theorem warnings_bind (x : Attempt α) (f : α → Attempt β) : (x >>= f).run.warnings =
    x.run.warnings ++ (x.run.value.toOption.map fun a => (f a).run.warnings).getD [] := by
  rw [ExceptT.run_bind, Logged.warnings_bind]
  cases x.run.value <;> rfl

theorem warnings_logged (x : Logged α) : (liftM x : Attempt α).run.warnings = x.warnings :=
  List.append_nil x.warnings

/-- A stage that logs nothing and succeeds leaves what comes after it. -/
theorem ok_bind (a : α) (f : α → Attempt β) :
    (liftM (Except.ok a : Except Failure α) : Attempt α) >>= f = f a := rfl

theorem settles_bind {x : Attempt α} {f : α → Attempt β} {p : α → Prop} {q : β → Prop} {r : Prop}
    (h : Settles x.run.value p r) (next : ∀ a, p a → Settles (f a).run.value q r) :
    Settles (x >>= f).run.value q r := by
  rw [value_bind]
  exact h.bind next

end Attempt

theorem settles_readFile {purpose file : String} {r : Prop}
    (unreadable : ∀ cause, files.read file = .error cause → r) :
    Settles (readFile files purpose file) (fun text => files.read file = .ok text) r :=
  .mapError (.of_forall (fun _ found => found) unreadable) _

theorem settles_loadOptions (files : Files) (i : Invocation) :
    Settles (loadOptions files i.config) (fun o => Configured files i
      { o with legacyErrorComments := o.legacyErrorComments || i.legacyErrorComments })
      (Refused files i) := by
  cases named : i.config with
  | none => exact .ok (.defaults named)
  | some path =>
    refine .bind (settles_readFile fun _ => .unreadableConfig named) fun text found => ?_
    refine .mapError (.of_forall (fun o valid => ?_) fun e invalid => ?_) _
    · exact .file named found valid
    · exact .invalidConfig named found invalid

theorem settles_readInput (files : Files) (i : Invocation) :
    Settles (readInput files i.input) (HasInput files i) (Refused files i) := by
  refine .bind (settles_readFile fun _ => .unreadableInput) fun text found => ?_
  refine .mapError (.of_forall (fun doc valid => ?_) fun e invalid => ?_) _
  · exact ⟨text, found, valid⟩
  · exact .notJson found invalid

theorem value_convertOne (file : String) (doc : Json) (f : Sequence → Logged String) :
    (convertOne file doc f).run.value =
      ((Document.read doc).value.mapError (invalid file)).map fun s => (f s).value := by
  unfold convertOne
  rw [Attempt.value_bind]
  show ((liftM ((Document.read doc).value.mapError (invalid file)) : Attempt Sequence) >>=
    fun s => liftM (f s)).run.value = _
  rw [Attempt.value_bind]
  cases (Document.read doc).value <;> rfl

theorem settles_convertOne {o : Options} {doc : Json} (options : Configured files i o)
    (single : i.command ≠ .bulk) (input : HasInput files i doc) {f : Sequence → Logged String}
    (yields : ∀ s, (Document.read doc).value = .ok s → Yields o i.command doc (f s).value) :
    Settles (convertOne i.input doc f).run.value (Converts files i) (Refused files i) := by
  rw [value_convertOne]
  cases valid : (Document.read doc).value with
  | error e => exact .error (.invalidSequence single input valid)
  | ok s => exact .ok ⟨options, (absurd · single), input, yields s valid⟩

theorem bulkOptions_of_ne_zero (o : Options) {jobs : Option Nat} (workers : jobs ≠ some 0) :
    ∃ n, bulkOptions o jobs = .ok { o with jobs := n } := by
  rcases jobs with _ | _ | n
  · exact ⟨o.jobs, rfl⟩
  · contradiction
  · exact ⟨n + 1, rfl⟩

theorem settles_bulkOptions (o : Options) (bulk : i.command = .bulk) :
    Settles (bulkOptions o i.jobs) (fun o' => (∃ jobs, o' = { o with jobs }) ∧ i.jobs ≠ some 0)
      (Refused files i) := by
  by_cases none : i.jobs = some 0
  · rw [none]
    exact .error (.noWorkers bulk none)
  · obtain ⟨jobs, given⟩ := bulkOptions_of_ne_zero o none
    rw [given]
    exact .ok ⟨⟨jobs, rfl⟩, none⟩

theorem settles_documentList {doc : Json} (bulk : i.command = .bulk)
    (input : HasInput files i doc) :
    Settles (documentList i.input doc) (fun docs => doc = .array docs) (Refused files i) := by
  cases doc with
  | array docs => exact .ok rfl
  | _ => exact .error (.notList bulk input nofun)

/-- Many documents come to the same for any number of workers. -/
theorem convertMany_jobs (o : Options) (jobs : Nat) (docs : List Json) :
    convertMany { o with jobs } docs = convertMany o docs := by
  simp only [convertMany, Bulk.results, Bulk.run_eq, Bulk.convertFrom_jobs]

theorem value_convertMany (o : Options) (docs : List Json) : (convertMany o docs).value =
    (Json.array (docs.map fun doc => resultObject (Bulk.outcome o doc))).spread := by
  simp only [convertMany, Bulk.results_eq, List.map_map, Function.comp_def]

/-- What is done with the options of a run. -/
def convertWith (files : Files) (i : Invocation) (o : Options) : Attempt String :=
  match i.command with
  | .edsl => do convertOne i.input (← readInput files i.input) (Script.render · o)
  | .bulk => do
    let o ← bulkOptions o i.jobs
    let docs ← documentList i.input (← readInput files i.input)
    convertMany o docs
  | .normalize => do
    convertOne i.input (← readInput files i.input) fun s => pure (Document.write s).spread

theorem convert_eq (files : Files) (i : Invocation) :
    convert files i = (do
      let o ← loadOptions files i.config
      convertWith files i
        { o with legacyErrorComments := o.legacyErrorComments || i.legacyErrorComments }) := by
  unfold convert
  refine congrArg ((liftM (loadOptions files i.config) : Attempt Options) >>= ·)
    (funext fun loaded => ?_)
  have flagged : (if i.legacyErrorComments then { loaded with legacyErrorComments := true }
      else loaded) =
      { loaded with
        legacyErrorComments := loaded.legacyErrorComments || i.legacyErrorComments } := by
    cases i.legacyErrorComments with
    | false => rw [Bool.or_false]; rfl
    | true => rw [Bool.or_true]; rfl
  dsimp only
  rw [flagged]
  rfl

theorem settles_convertWith {o : Options} (options : Configured files i o) :
    Settles (convertWith files i o).run.value (Converts files i) (Refused files i) := by
  unfold convertWith
  cases command : i.command with
  | edsl =>
    have single : i.command ≠ .bulk := by
      rw [command]
      nofun
    refine Attempt.settles_bind (settles_readInput files i) fun doc input => ?_
    exact settles_convertOne options single input fun s valid => command ▸ .edsl valid
  | bulk =>
    refine Attempt.settles_bind (settles_bulkOptions o command) ?_
    rintro _ ⟨⟨jobs, rfl⟩, workers⟩
    refine Attempt.settles_bind (settles_readInput files i) fun doc input => ?_
    refine Attempt.settles_bind (settles_documentList command input) ?_
    rintro docs rfl
    refine .ok ⟨options, fun _ => workers, input, ?_⟩
    show Yields o i.command (.array docs) (convertMany { o with jobs } docs).value
    rw [command, convertMany_jobs, value_convertMany]
    exact .bulk docs
  | normalize =>
    have single : i.command ≠ .bulk := by
      rw [command]
      nofun
    refine Attempt.settles_bind (settles_readInput files i) fun doc input => ?_
    exact settles_convertOne options single input fun s valid => command ▸ .normalize valid

/-- A run comes to a text, or there is a reason to fail. -/
theorem settles_convert (files : Files) (i : Invocation) :
    Settles (convert files i).run.value (Converts files i) (Refused files i) := by
  rw [convert_eq]
  exact Attempt.settles_bind (settles_loadOptions files i) fun o options =>
    settles_convertWith options

/-! ### What is logged -/

/-- One more warning, if documents were refused. -/
def refusals (o : Options) (docs : List Json) : List Warning :=
  let refused := docs.countP fun doc => !(Bulk.outcome o doc).isOk
  if refused = 0 then [] else [.someRefused refused docs.length]

/-- What a command logs on a value, whether or not it comes to a text.  A document that is refused
has been read, but is not rendered. -/
def logged (o : Options) : Command → Json → List Warning
  | .edsl, doc => (Document.read doc).warnings ++
      ((Document.read doc).value.toOption.map fun s => (Script.render s o).warnings).getD []
  | .bulk, .array docs =>
      (Bulk.convertFrom o 0 docs).flatMap (·.warnings) ++ refusals o docs
  | .bulk, _ => []
  | .normalize, doc => (Document.read doc).warnings

theorem warnings_convertOne (file : String) (doc : Json) (f : Sequence → Logged String) :
    (convertOne file doc f).run.warnings = (Document.read doc).warnings ++
      ((Document.read doc).value.toOption.map fun s => (f s).warnings).getD [] := by
  rw [convertOne, Attempt.warnings_bind, Attempt.warnings_logged]
  refine congrArg _ ?_
  show ((Except.toOption (.ok (Document.read doc).value)).map _).getD _ = _
  cases (Document.read doc).value with
  | error e => rfl
  | ok s => exact Attempt.warnings_logged (f s)

theorem warnings_convertMany (o : Options) (docs : List Json) : (convertMany o docs).warnings =
    (Bulk.convertFrom o 0 docs).flatMap (·.warnings) ++ refusals o docs := by
  rw [convertMany, Bulk.run_eq, Bulk.results_eq, List.countP_map, List.length_map]
  rfl

theorem Configured.convert_eq {o : Options} (h : Configured files i o) :
    convert files i = convertWith files i o := by
  rw [CommandLine.convert_eq]
  cases h with
  | defaults noFile =>
    rw [noFile]
    rfl
  | @file path text o named found valid =>
    have loaded : loadOptions files (some path) = .ok o := by
      rw [loadOptions, readFile, found]
      show (Options.read text).mapError _ = _
      rw [valid]
      rfl
    rw [named, loaded, Attempt.ok_bind]

theorem HasInput.readInput_eq {doc : Json} (h : HasInput files i doc) :
    readInput files i.input = .ok doc := by
  obtain ⟨text, found, valid⟩ := h
  rw [readInput, readFile, found]
  show (Json.read text).mapError _ = _
  rw [valid]
  rfl

/-- A run that has its options, its workers and its input logs what its command does.  What was
logged up to a failure stays logged. -/
theorem warnings_run {o : Options} {doc : Json} (options : Configured files i o)
    (workers : i.command = .bulk → i.jobs ≠ some 0) (input : HasInput files i doc) :
    (run files i).warnings = logged o i.command doc := by
  show (convert files i).run.warnings = _
  rw [options.convert_eq]
  unfold convertWith
  cases command : i.command with
  | edsl =>
    dsimp only
    rw [input.readInput_eq, Attempt.ok_bind, warnings_convertOne]
    rfl
  | bulk =>
    obtain ⟨jobs, given⟩ := bulkOptions_of_ne_zero o (workers command)
    dsimp only
    rw [given, input.readInput_eq, Attempt.ok_bind, Attempt.ok_bind]
    cases doc with
    | array docs =>
      rw [documentList, Attempt.ok_bind, Attempt.warnings_logged, convertMany_jobs,
        warnings_convertMany]
      rfl
    | _ => rfl
  | normalize =>
    dsimp only
    rw [input.readInput_eq, Attempt.ok_bind, warnings_convertOne, logged]
    cases (Document.read doc).value <;> exact List.append_nil _

/-! ### Result objects -/

theorem reread?_resultObject (d : Nat) (r : Bulk.Result) :
    Json.reread? (d + 1) (resultObject r) = some (resultObject r) := by
  cases r with
  | ok script =>
    rw [resultObject, Json.reread?_object_succ]
    rfl
  | error e =>
    rw [resultObject, Json.reread?_object_succ]
    rfl

theorem keysSorted_resultObject (r : Bulk.Result) : (resultObject r).KeysSorted := by
  cases r with
  | ok script => exact ⟨List.pairwise_singleton _ _, trivial, trivial⟩
  | error e => exact ⟨List.pairwise_singleton _ _, trivial, trivial⟩

/-- The text of result objects is read back as one object for each result. -/
theorem read_spread_results (rs : List Bulk.Result) :
    Json.read (Json.array (rs.map resultObject)).spread =
      .ok (.array (rs.map resultObject)) := by
  have sorted : (Json.array (rs.map resultObject)).KeysSorted :=
    Json.keysSortedItems_iff.2 (List.forall_mem_map.2 fun r _ => keysSorted_resultObject r)
  have each : Json.reread? 126 ∘ resultObject = fun r => pure (resultObject r) :=
    funext (reread?_resultObject 125)
  have whole : Json.reread? Json.nestingLimit (Json.array (rs.map resultObject)) =
      some (.array (rs.map resultObject)) := by
    rw [Json.nestingLimit, Json.reread?_array_succ, List.mapM_map, each, List.mapM_pure]
    rfl
  exact Json.toOption_eq_some ((Json.toOption_read Json.isBlank_spread sorted).trans whole)

/-! ### What a run leaves -/

/-- A failure, after which the files are as they were and standard output is empty. -/
structure LeavesNothing (t : FileTree) (o : Outcome) : Prop where
  code : o.code = 1
  stdout : o.stdout = ""
  written : o.written = none
  files : t.after o = t

/-- A text on standard output, in a line of its own, and the files as they were. -/
structure Prints (t : FileTree) (text : String) (o : Outcome) : Prop where
  code : o.code = 0
  stdout : o.stdout = text ++ "\n"
  written : o.written = none
  files : t.after o = t

/-- A text in the place of a path, where a device may swallow it, and nothing changed elsewhere or
printed. -/
structure Writes (t : FileTree) (path : String) (l : Location) (text : String) (o : Outcome) :
    Prop where
  code : o.code = 0
  stdout : o.stdout = ""
  written : o.written = some (path, text)
  files : (t.after o).content? =
    Function.update t.content? l (some (Content.written text (t.content? l)))
  text : t.content? l ≠ some .device → (t.after o).text path = .ok text

theorem run_of_refused (h : Refused files i) (t : FileTree) : LeavesNothing t (run files i) := by
  rcases settles_convert files i with ⟨text, -, converts⟩ | ⟨⟨f, failed⟩, -⟩
  · exact absurd h converts.not_refused
  · rw [run, failed]
    exact ⟨rfl, rfl, rfl, rfl⟩

/-- A text is delivered, beside what was logged on the way to it. -/
theorem run_of_converts {text : String} (h : Converts files i text) :
    ∃ warnings, run files i = { deliver files i.out text with warnings } := by
  rcases settles_convert files i with ⟨text', converted, converts⟩ | ⟨-, refused⟩
  · obtain rfl := converts.unique h
    refine ⟨(convert files i).run.warnings, ?_⟩
    rw [run, converted]
    rfl
  · exact absurd refused h.not_refused

theorem prints_deliver (text : String) (warnings : List Warning) (t : FileTree) :
    Prints t text { deliver files none text with warnings } := ⟨rfl, rfl, rfl, rfl⟩

theorem writes_deliver {path : String} (accepted : files.refuseWrite path = none) {t : FileTree}
    {l : Location} (place : t.place path = .ok l) (text : String) (warnings : List Warning) :
    Writes t path l text { deliver files (some path) text with warnings } := by
  rw [deliver, accepted]
  exact {
    code := rfl
    stdout := rfl
    written := rfl
    files := t.content?_write place text
    text := fun kept => t.text_write place kept text }

theorem refused_iff : Refused files i ↔ ¬ ∃ text, Converts files i text := by
  constructor
  · rintro refused ⟨text, converts⟩
    exact converts.not_refused refused
  · intro nothing
    rcases settles_convert files i with ⟨text, -, converts⟩ | ⟨-, refused⟩
    · exact absurd ⟨text, converts⟩ nothing
    · exact refused

/-- A run on a list of documents comes to a list of results, whatever the documents are. -/
theorem converts_bulk {o : Options} {docs : List Json} (bulk : i.command = .bulk)
    (workers : i.jobs ≠ some 0) (options : Configured files i o)
    (input : HasInput files i (.array docs)) : ∃ text, Converts files i text ∧
      Json.read text = .ok (.array (docs.map fun doc => resultObject (Bulk.outcome o doc))) := by
  refine ⟨_, ⟨options, fun _ => workers, input, bulk ▸ Yields.bulk docs⟩, ?_⟩
  have read := read_spread_results (docs.map (Bulk.outcome o))
  rw [List.map_map] at read
  exact read

/-- A run is all or nothing, whatever is read from the files and whatever tree they are in.  It
either has a reason to fail, and then no file is changed and nothing is printed, or it comes to a
text, which is printed or written to the one file that was asked for.  Documents that are refused
are no reason for a bulk run to fail: each of its documents has its result. -/
theorem runWords_all_or_nothing {environment : Option String} {words : List String}
    {i : Invocation} (parsed : read environment words = .ok i) (files : Files) (t : FileTree) :
    (Refused files i ↔ ¬ ∃ text, Converts files i text) ∧
    (Refused files i → LeavesNothing t (runWords files environment words)) ∧
    (∀ text, Converts files i text →
      (i.out = none → Prints t text (runWords files environment words)) ∧
      ∀ path l, i.out = some path → files.refuseWrite path = none → t.place path = .ok l →
        Writes t path l text (runWords files environment words)) ∧
    ∀ o docs, i.command = .bulk → i.jobs ≠ some 0 → Configured files i o →
      HasInput files i (.array docs) → ∃ text, Converts files i text ∧
        Json.read text =
          .ok (.array (docs.map fun doc => resultObject (Bulk.outcome o doc))) := by
  have runs : runWords files environment words = run files i := by
    rw [runWords, parsed]
  rw [runs]
  refine ⟨refused_iff, fun refused => run_of_refused refused t, fun text converts => ?_,
    fun o docs => converts_bulk⟩
  obtain ⟨warnings, delivers⟩ := run_of_converts converts
  rw [delivers]
  constructor
  · intro none
    rw [none]
    exact prints_deliver text warnings t
  · intro path l some accepted place
    rw [some]
    exact writes_deliver accepted place text warnings

def configText : String := "\x7b\"jobs\": 2\x7d"

/-- The text of two documents, of which the first one is refused. -/
def documentsText : String := "[null, \x7b\"id\": \"n\", \"metadata\": \x7b\x7d\x7d]"

def twoDocuments : FileTree := .ofFiles [("conf", configText), ("in", documentsText)]

def intoFile : Invocation where
  command := .bulk
  input := "in"
  out := some "out"
  jobs := none
  config := some "conf"
  legacyErrorComments := false

theorem runWords_twoDocuments :
    ∃ text, Writes twoDocuments "out" ["tmp", "", "out"] text (runWords twoDocuments.files
      (some "conf") ["bulk", "--input", "in", "-o", "out"]) ∧
    Json.read text = .ok (.array [
      .object [("error", .string
        "<document>: invalid type: null, expected struct RawSequence")],
      .object [("edsl", .string ("export default () =>\n  Sequence.new(\x7b\n" ++
        "    seqId: 'n',\n    metadata: \x7b\x7d,\n  \x7d);"))]]) := by
  have parsed : read (some "conf") ["bulk", "--input", "in", "-o", "out"] = .ok intoFile := by rfl
  have found : twoDocuments.files.read "conf" = .ok configText := by rfl
  have valid : Options.read configText = .ok { jobs := 2 } := by rfl
  have input : HasInput twoDocuments.files intoFile
      (.array [.null, .object [("id", .string "n"), ("metadata", .object [])]]) :=
    ⟨documentsText, by rfl, by rfl⟩
  obtain ⟨-, -, delivers, bulk⟩ := runWords_all_or_nothing parsed twoDocuments.files twoDocuments
  obtain ⟨text, converts, results⟩ := bulk _ _ rfl nofun (.file rfl found valid) input
  exact ⟨text, (delivers text converts).2 "out" _ rfl (by rfl) (by rfl), results⟩

end SeqScript.CommandLine
