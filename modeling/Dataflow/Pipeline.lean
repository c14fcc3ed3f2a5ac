import Dataflow.Catalog
import Dataflow.Journal
import Dataflow.Program

/-!
# Running a plan

A pipeline runs the analyses of its plan over a function.  Everything that could be refused is
refused before anything is reported: first every name is looked up, then the function is validated.
After that the analyses run in order until one fails.
-/

namespace Dataflow

/-- A plan and the catalog to find its analyses in. -/
structure Pipeline where
  plan : Plan := {}
  catalog : Catalog := .builtin

namespace Pipeline

/-- The analyses to run, or the first name that is not in the catalog. -/
def passes (p : Pipeline) : Except Halt (List Analysis) :=
  p.plan.passNames.mapM p.catalog.find

/-- Runs one analysis of the plan. -/
def runPass (p : Pipeline) (f : Func) (a : Analysis) : Transcript Unit := do
  .note (.event .trace (some "running analysis") [("pass", a.name)])
  a.run f p.plan

/-- **Runs the plan** over a function. -/
def run (p : Pipeline) (f : Func) : Transcript Unit := do
  .note (.span "analyze_function" [("function", f.name)])
  let passes ← .ofOutcome p.passes
  .ofOutcome f.check
  .report .start
  passes.forM (p.runPass f)

/-- Runs the plan over functions in turn, into one journal.  Answers how each run ended. -/
def runAll (p : Pipeline) (j : Journal) : List Func → List (Except Halt Unit) × Journal
  | [] => ([], j)
  | f :: rest =>
    let t := p.run f
    let (outcomes, last) := p.runAll (j.fileAll f t) rest
    (t.outcome :: outcomes, last)

/-- Runs the plan over one function into a journal of its own, which is lost if the run fails. -/
def runAlone (p : Pipeline) (f : Func) : Except Halt Journal := do
  let t := p.run f
  t.outcome
  return ({} : Journal).fileAll f t

/-- Runs the plan over every function of a program, each into a journal of its own. -/
def runProgram (p : Pipeline) (program : Program) : List (Except Halt Journal) :=
  program.funcs.toList.map p.runAlone

end Pipeline

end Dataflow
