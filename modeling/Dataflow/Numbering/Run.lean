import Dataflow.Numbering
import Dataflow.Transcript

/-!
# A run of value numbering

Numbering a whole function in program order, with what it says on the way: each event goes to the
log before it is reported.
-/

namespace Dataflow

namespace Numbering

/-- What is said about one event. -/
def signalsOf (event : Event) : List Signal :=
  [.note (.event .trace none [("inst_id", event.inst.text), ("outcome", event.outcome.text)]),
   .report (.numbered event)]

/-- Numbers the instructions of a function in program order and says so. -/
def walkAll (f : Func) (s : State) : Transcript State :=
  let (events, last) := s.walk f f.programOrder
  ⟨events.flatMap signalsOf, last⟩

/-- **Value numbering** of a function. -/
def run (f : Func) : Transcript Numbering := do
  .note (.span "value_numbering" [("function", f.name)])
  let s ← .ofOutcome (start f)
  let s ← walkAll f s
  let r := s.finish
  .note (.event .debug (some "numbered function")
    [("numbered", toString r.maxNumber), ("redundant", toString r.redundant.length)])
  return r

end Numbering

end Dataflow
