import Dataflow.Func

/-!
# Building a function

A cursor is a function under construction together with the block that receives new instructions and
edges.  Values may be added at any time; instructions and edges need the cursor's block to exist,
and `none` means that it does not.  Operands and jump targets are taken as given.
-/

namespace Dataflow

/-- A function under construction and the block being filled. -/
structure Cursor where
  func : Func
  block : BlockId
deriving DecidableEq, Repr

namespace Cursor

/-- Starts at the first block, which is made if there is none. -/
def start (f : Func) : Cursor :=
  match f.entry? with
  | some b => ⟨f, b⟩
  | none => ⟨f.pushBlock.2, f.pushBlock.1⟩

/-! ## Blocks and values -/

/-- Adds an empty block without moving there. -/
def createBlock (c : Cursor) : BlockId × Cursor :=
  (c.func.pushBlock.1, { c with func := c.func.pushBlock.2 })

/-- Moves to a block, which need not exist. -/
def switchTo (c : Cursor) (b : BlockId) : Cursor :=
  { c with block := b }

/-- Adds a value. -/
def pushValue (c : Cursor) (v : Value) : ValueId × Cursor :=
  ((c.func.pushValue v).1, { c with func := (c.func.pushValue v).2 })

/-- Adds the next parameter. -/
def param (c : Cursor) : ValueId × Cursor :=
  let (v, f) := c.func.pushValue (.arg c.func.params.length)
  (v, { c with func := { f with params := f.params ++ [v] } })

/-- Adds an integer literal. -/
def int (c : Cursor) (n : Int) : ValueId × Cursor := c.pushValue (.const (.int n))

/-- Adds a truth value. -/
def bool (c : Cursor) (b : Bool) : ValueId × Cursor := c.pushValue (.const (.bool b))

/-- Adds a memory slot. -/
def slot (c : Cursor) (name : String) : ValueId × Cursor := c.pushValue (.slot name)

/-! ## Instructions -/

/-- Appends an instruction without result to the current block. -/
def emit? (c : Cursor) (a : Action) : Option (InstId × Cursor) := do
  let (i, f) := c.func.pushInst { action := a }
  let f ← f.placeInst? c.block i
  return (i, { c with func := f })

/-- Appends an instruction to the current block and a fresh value for its result. -/
def emitValue? (c : Cursor) (a : Action) : Option (ValueId × Cursor) := do
  let (i, c) ← c.emit? a
  let (v, f) := c.func.pushValue (.result i)
  let f ← f.setResult? i (some v)
  return (v, { c with func := f })

/-- Appends a store. -/
def store? (c : Cursor) (value ptr : ValueId) : Option Cursor :=
  (c.emit? (.store value ptr)).map (·.2)

/-- Appends a load. -/
def load? (c : Cursor) (ptr : ValueId) : Option (ValueId × Cursor) :=
  c.emitValue? (.load ptr)

/-- Appends a binary operator. -/
def binary? (c : Cursor) (op : Operator) (lhs rhs : ValueId) : Option (ValueId × Cursor) :=
  c.emitValue? (.binary op lhs rhs)

/-- Appends any other instruction, with or without a result. -/
def other? (c : Cursor) (opcode : String) (operands : List ValueId) (hasResult : Bool) :
    Option (Option ValueId × Cursor) :=
  if hasResult then
    (c.emitValue? (.other opcode operands)).map fun (v, c) => (some v, c)
  else
    (c.emit? (.other opcode operands)).map fun (_, c) => (none, c)

/-! ## Edges -/

/-- Adds an edge from the current block, unless it is there already. -/
def jump? (c : Cursor) (target : BlockId) : Option Cursor := do
  let f ← c.func.addSuccessor? c.block target
  return { c with func := f }

/-- Adds both edges of a two-way branch. -/
def branch? (c : Cursor) (onTrue onFalse : BlockId) : Option Cursor := do
  (← c.jump? onTrue).jump? onFalse

/-! ## A small example -/

-- a branch with equal targets adds one edge
example :
    ((start { name := "f" }).branch? ⟨0⟩ ⟨0⟩).map (fun c => c.func.blocks)
      = some #[⟨[], [⟨0⟩]⟩] := by decide

end Cursor

end Dataflow
