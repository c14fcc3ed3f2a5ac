import Dataflow.Id

/-!
# Values

What an instruction can name: a constant, a parameter, the result of an instruction, or a named
memory slot.  A slot is the only value that stores and loads are meant to go through; nothing here
enforces that.
-/

namespace Dataflow

/-- A literal. -/
inductive Constant where
  | bool (b : Bool)
  | int (n : Int)
deriving DecidableEq, Repr

/-- Written `true` or `-4`. -/
def Constant.text : Constant → String
  | .bool true => "true"
  | .bool false => "false"
  | .int n => toString n

/-- An entry of a function's value table. -/
inductive Value where
  /-- A literal. -/
  | const (c : Constant)
  /-- The parameter at this position. -/
  | arg (index : Nat)
  /-- What this instruction computes. -/
  | result (inst : InstId)
  /-- The memory slot of this name.  Two slots may bear one name. -/
  | slot (name : String)
deriving DecidableEq, Repr

namespace Value

/-- Written `const 4`, `arg 1`, `result i3` or `local %x`. -/
def text : Value → String
  | .const c => "const " ++ c.text
  | .arg n => s!"arg {n}"
  | .result i => "result " ++ i.text
  | .slot name => "local %" ++ name

/-- Whether the value is a literal. -/
def isConst : Value → Bool
  | .const _ => true
  | _ => false

/-- Whether the value is a parameter. -/
def isArg : Value → Bool
  | .arg _ => true
  | _ => false

/-- The instruction that computes the value, for a result. -/
def definingInst? : Value → Option InstId
  | .result i => some i
  | _ => none

/-- The name of the slot, for a slot. -/
def slotName? : Value → Option String
  | .slot name => some name
  | _ => none

end Value

end Dataflow
