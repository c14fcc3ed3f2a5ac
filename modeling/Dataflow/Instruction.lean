import Dataflow.Operator
import Dataflow.Value

/-!
# Instructions

An instruction does something to its operands (`Action`) and may name the value that receives the
result.  Stores and loads go through a pointer operand; binary operators compute; every other opcode
is kept by name with its operands, since neither analysis interprets it.
-/

namespace Dataflow

/-- What an instruction does. -/
inductive Action where
  /-- Put `value` where `ptr` points. -/
  | store (value ptr : ValueId)
  /-- Fetch what `ptr` points to. -/
  | load (ptr : ValueId)
  /-- Combine two operands. -/
  | binary (op : Operator) (lhs rhs : ValueId)
  /-- Anything else, by its opcode. -/
  | other (opcode : String) (operands : List ValueId)
deriving DecidableEq, Repr

namespace Action

/-- The first word of the instruction's text. -/
def mnemonic : Action → String
  | .store _ _ => "store"
  | .load _ => "load"
  | .binary op _ _ => op.mnemonic
  | .other opcode _ => opcode

/-- The values read, in the order they are written; a store names its pointer last. -/
def operands : Action → List ValueId
  | .store value ptr => [value, ptr]
  | .load ptr => [ptr]
  | .binary _ lhs rhs => [lhs, rhs]
  | .other _ operands => operands

/-- The pointer that a store or a load goes through. -/
def location? : Action → Option ValueId
  | .store _ ptr => some ptr
  | .load ptr => some ptr
  | .binary .. => none
  | .other .. => none

/-- The mnemonic, then the operands: `add v0, v1`. -/
def text (a : Action) : String :=
  match a.operands with
  | [] => a.mnemonic
  | vs => a.mnemonic ++ " " ++ ", ".intercalate (vs.map ValueId.text)

end Action

/-- An entry of a function's instruction table. -/
structure Instruction where
  action : Action
  /-- The value that stands for the result, if there is one. -/
  result : Option ValueId := none
deriving DecidableEq, Repr

namespace Instruction

/-- Whether the instruction has no result. -/
def isVoid (inst : Instruction) : Bool := inst.result.isNone

/-- Every value the instruction mentions: its operands, then its result. -/
def mentions (inst : Instruction) : List ValueId :=
  inst.action.operands ++ inst.result.toList

/-- Written `v2 = add v0, v1`, or without the left part when there is no result. -/
def text (inst : Instruction) : String :=
  match inst.result with
  | some v => v.text ++ " = " ++ inst.action.text
  | none => inst.action.text

end Instruction

end Dataflow
