import Dataflow.Report

/-!
# The log

Beside its results an analysis says what it is doing: it opens spans and notes events of three
levels.  Results can be written to the log too, one line or two for each report, at the level
`info`.
-/

namespace Dataflow

/-- How much attention an event wants. -/
inductive Level where
  | info | debug | trace
deriving DecidableEq, Repr

/-- The level in capitals. -/
def Level.text : Level → String
  | .info => "INFO"
  | .debug => "DEBUG"
  | .trace => "TRACE"

/-- A line of the log, with named fields. -/
inductive LogEntry where
  /-- A stretch of work begins. -/
  | span (name : String) (fields : List (String × String))
  /-- Something happened. -/
  | event (level : Level) (message : Option String) (fields : List (String × String))
deriving DecidableEq, Repr

namespace LogEntry

/-- A line that says something at the level `info`. -/
def info (message : String) (fields : List (String × String)) : LogEntry :=
  .event .info (some message) fields

/-- The message, for a line at the level `info`. -/
def infoMessage? : LogEntry → Option String
  | .event .info message _ => message
  | _ => none

end LogEntry

/-- Keys in braces: `{v0, v1}`. -/
def KeyLabel.listText (keys : List KeyLabel) : String :=
  "\x7b" ++ ", ".intercalate (keys.map KeyLabel.text) ++ "\x7d"

/-- The three sets of a block on one line. -/
def BlockReport.text (b : BlockReport) : String :=
  b.block.text ++ ": UEVAR: " ++ KeyLabel.listText b.exposed
    ++ " VARKILL: " ++ KeyLabel.listText b.killed
    ++ " LIVEOUT: " ++ KeyLabel.listText b.liveOut

/-- The outcome as it is shown below its instruction, unless there is nothing to say. -/
def Outcome.note? : Outcome → Option String
  | .other => none
  | .load 0 => none
  | outcome => some ("    " ++ outcome.text)

/-- The lines that a report about `f` makes in the log; none at all if it speaks of an instruction
that is not there. -/
def Report.log? (f : Func) : Report → Option (List LogEntry)
  | .start => some [.info ("function " ++ f.name) []]
  | .numbered event => do
    let inst ← f.insts[event.inst.index]?
    return (inst.text :: event.outcome.note?.toList).map fun line => .info line []
  | .live block => some [.info block.text [("domain", block.identity.text)]]

end Dataflow
