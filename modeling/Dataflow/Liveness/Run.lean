import Dataflow.Transcript

/-!
# A run of liveness

Bringing a function's liveness to rest from the start and reporting it block by block, with what is
said on the way.
-/

namespace Dataflow

namespace Liveness

/-- What is said about a series of sweeps: each of them, and that the sets rest if they do. -/
def notesOf (s : Sweep.Series) : List LogEntry :=
  let sweeps := s.changes.reverse.zipIdx.map fun (changed, i) =>
    LogEntry.event .trace (some "liveness sweep")
      [("sweep", toString (i + 1)), ("changed", toString changed)]
  let rest := if s.stable then
      [LogEntry.event .debug (some "liveness converged") [("sweeps", toString s.changes.length)]]
    else []
  sweeps ++ rest

/-- **Liveness** of a function from the start. -/
def compute (keys : KeySpace) (f : Func) (cap : Option SweepCap) : Transcript Liveness := do
  .note (.span "liveness" [("function", f.name)])
  let l ← .ofOutcome (start keys f)
  let s ← .ofOutcome (Halt.require (l.series? f cap))
  let _ ← Transcript.mk ((notesOf s).map .note) (l.verdict f cap s)
  return l.after s

/-- Reports every block, in layout order. -/
def reportAll (l : Liveness) : Transcript Unit :=
  l.blockIds.forM fun b => do
    let r ← .ofOutcome (Halt.require (l.report? b))
    .report (.live r)

/-- Liveness of a function, reported. -/
def run (keys : KeySpace) (f : Func) (cap : Option SweepCap) : Transcript Unit := do
  (← compute keys f cap).reportAll

end Liveness

end Dataflow
