import Dataflow.Log

/-!
# Transcripts

Running an analysis gives a transcript: the signals it gave, in order, and how it ended.  A signal
is a line for the log or a piece of the results.  Since a transcript is plain data, "into one
journal" and "into the log" are two ways to read the same run.

Transcripts compose: the second run starts where the first ended, its signals follow the first
one's, and nothing follows a run that stopped.
-/

namespace Dataflow

/-- Something said during a run. -/
inductive Signal where
  /-- A line for the log. -/
  | note (entry : LogEntry)
  /-- A piece of the results. -/
  | report (report : Report)
deriving DecidableEq, Repr

/-- The signals of a run and its end. -/
structure Transcript (α : Type) where
  signals : List Signal
  outcome : Except Halt α

namespace Transcript

/-- A silent run with this end. -/
def ofOutcome {α : Type} (outcome : Except Halt α) : Transcript α := ⟨[], outcome⟩

/-- Runs one after the other, unless the first stops. -/
def andThen {α β : Type} (t : Transcript α) (next : α → Transcript β) : Transcript β :=
  match t.outcome with
  | .ok a => ⟨t.signals ++ (next a).signals, (next a).outcome⟩
  | .error halt => ⟨t.signals, .error halt⟩

instance : Monad Transcript where
  pure a := ofOutcome (.ok a)
  bind := andThen

/-- Says one line for the log. -/
def note (entry : LogEntry) : Transcript Unit := ⟨[.note entry], .ok ()⟩

/-- Reports one piece of the results. -/
def report (r : Report) : Transcript Unit := ⟨[.report r], .ok ()⟩

/-- The results reported, in order. -/
def reports {α : Type} (t : Transcript α) : List Report :=
  t.signals.filterMap fun
    | .report r => some r
    | .note _ => none

/-- The whole log of a run over `f`, its results included; none at all if a report cannot be
written. -/
def log? {α : Type} (f : Func) (t : Transcript α) : Option (List LogEntry) := do
  let parts ← t.signals.mapM fun
    | .note entry => some [entry]
    | .report r => r.log? f
  return parts.flatten

end Transcript

end Dataflow
