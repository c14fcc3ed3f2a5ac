import Dataflow.Func.Validity

/-!
# How an analysis ends without an answer

An analysis may refuse its input or give up; those are its proper failures, each with a wording.
Apart from them, an operation that is handed a label of an entry that does not exist cannot go on at
all: that is `Halt.outOfRange`.  Validation is there to make the second kind impossible.
-/

namespace Dataflow

/-- A proper failure of an analysis. -/
inductive Failure where
  /-- The function is not sound. -/
  | invalid (func : String) (defect : Defect)
  /-- The sweeps were used up before the sets came to rest. -/
  | diverged (func : String) (sweeps : Nat)
  /-- The state was made for a function with another number of blocks. -/
  | blockCount (func : String) (expected found : Nat)
  /-- There is no analysis of this name. -/
  | unknownAnalysis (name : String)
deriving DecidableEq, Repr

/-- The wording of a failure. -/
def Failure.message : Failure → String
  | .invalid func defect => s!"invalid CFG in function `{func}`: {defect.message}"
  | .diverged func sweeps => s!"liveness of `{func}` did not converge within {sweeps} sweeps"
  | .blockCount func expected found =>
    s!"liveness state covers {expected} blocks but `{func}` has {found}"
  | .unknownAnalysis name => s!"unknown analysis `{name}`"

/-- Why an operation stopped. -/
inductive Halt where
  /-- It failed properly. -/
  | failed (failure : Failure)
  /-- It was sent past the end of a table. -/
  | outOfRange
deriving DecidableEq, Repr

/-- The entry, or the end of the road. -/
def Halt.require {α : Type} : Option α → Except Halt α
  | some a => .ok a
  | none => .error .outOfRange

/-- Validation as the first step of an analysis: a defect becomes a failure that names the
function. -/
def Func.check (f : Func) : Except Halt Unit :=
  match f.validate with
  | .ok () => .ok ()
  | .error defect => .error (.failed (.invalid f.name defect))

end Dataflow
