import Dataflow.Instruction

/-!
# Value numbers and numbering events

A value number names what a value computes: two values of one number hold the same.  Zero is kept
for values of which nothing is known.  Numbering an instruction has an outcome, and the outcome with
its place is an event.
-/

namespace Dataflow

/-- The number of a computation; zero means that it is not known. -/
abbrev ValueNumber := UInt32

/-- What numbering made of one instruction. -/
inductive Outcome where
  /-- The target took the number of the stored value. -/
  | store (number : ValueNumber)
  /-- The result took the number of the source, if that had one. -/
  | load (number : ValueNumber)
  /-- The expression was looked up; it is redundant if it was there. -/
  | binary (op : Operator) (lhs rhs number : ValueNumber) (redundant : Bool)
  /-- The instruction takes no part in numbering. -/
  | other
deriving DecidableEq, Repr

/-- Written `3 = 3`, `unresolved`, `3 = 1 add 2 (redundant)` or `-`. -/
def Outcome.text : Outcome → String
  | .store n => s!"{n} = {n}"
  | .load n => if n = 0 then "unresolved" else s!"{n} = {n}"
  | .binary op lhs rhs n redundant =>
    s!"{n} = {lhs} {op.mnemonic} {rhs}" ++ if redundant then " (redundant)" else ""
  | .other => "-"

/-- The outcome of numbering an instruction of a block. -/
structure Event where
  block : BlockId
  inst : InstId
  outcome : Outcome
deriving DecidableEq, Repr

end Dataflow
