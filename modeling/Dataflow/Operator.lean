/-!
# Binary operators

The eighteen operators, their mnemonics, and which of them commute.  Their order is the order of
`Operator.all`.
-/

namespace Dataflow

/-- A two-operand operator on integers (`add` to `xor`) or on floating-point numbers (`fadd` to
`frem`). -/
inductive Operator where
  | add | sub | mul | udiv | sdiv | urem | srem | shl | lshr | ashr | and | or | xor
  | fadd | fsub | fmul | fdiv | frem
deriving DecidableEq, Repr

namespace Operator

/-- Every operator, in order. -/
def all : List Operator :=
  [.add, .sub, .mul, .udiv, .sdiv, .urem, .srem, .shl, .lshr, .ashr, .and, .or, .xor,
   .fadd, .fsub, .fmul, .fdiv, .frem]

/-- The operator's name in text. -/
def mnemonic : Operator → String
  | .add => "add"
  | .sub => "sub"
  | .mul => "mul"
  | .udiv => "udiv"
  | .sdiv => "sdiv"
  | .urem => "urem"
  | .srem => "srem"
  | .shl => "shl"
  | .lshr => "lshr"
  | .ashr => "ashr"
  | .and => "and"
  | .or => "or"
  | .xor => "xor"
  | .fadd => "fadd"
  | .fsub => "fsub"
  | .fmul => "fmul"
  | .fdiv => "fdiv"
  | .frem => "frem"

/-- The operator of this mnemonic, letter for letter. -/
def ofMnemonic? (text : String) : Option Operator :=
  all.find? fun op => op.mnemonic == text

/-- Whether exchanging the operands leaves the result alone. -/
def isCommutative : Operator → Bool
  | .add | .mul | .and | .or | .xor | .fadd | .fmul => true
  | _ => false

/-- The operators that come before this one. -/
def below (op : Operator) : List Operator :=
  all.takeWhile fun other => other != op

/-- Reading a mnemonic finds the operator it was written for. -/
theorem ofMnemonic?_mnemonic (op : Operator) : ofMnemonic? op.mnemonic = some op := by
  cases op <;> decide

/-- No operator is missing from `all`. -/
theorem mem_all (op : Operator) : op ∈ all := by
  cases op <;> decide

end Operator

end Dataflow
