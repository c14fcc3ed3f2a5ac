import Dataflow.Instruction

/-!
# Functions

A function is a control-flow graph over three tables: values, instructions and blocks.  Blocks stand
in layout order, the first one is the entry, and each lists the instructions it runs and the blocks
that may run next.  The tables may be inconsistent in every way (a block may list an instruction
that does not exist, or jump nowhere); `Dataflow.Func.validate` says which functions are sound.

`predecessors` collects, for every block, who jumps to it.  It walks the edges once and files each
under its target, so an edge listed twice counts once and an edge out of the graph counts nowhere.
-/

namespace Dataflow

/-- A straight run of instructions and the blocks that may follow it. -/
structure Block where
  insts : List InstId := []
  succs : List BlockId := []
deriving DecidableEq, Repr

namespace Block

/-- Whether nothing follows the block. -/
def isExit (b : Block) : Bool := b.succs.isEmpty

/-- Adds an edge, unless it is there already. -/
def addSuccessor (b : Block) (s : BlockId) : Block :=
  if s ∈ b.succs then b else { b with succs := b.succs ++ [s] }

end Block

/-- A function: its name, its parameters among the values, and its three tables. -/
structure Func where
  name : String
  params : List ValueId := []
  values : Array Value := #[]
  insts : Array Instruction := #[]
  blocks : Array Block := #[]
deriving DecidableEq, Repr

namespace Func

/-! ## Reading the graph -/

/-- The blocks with their labels, in layout order. -/
def layout (f : Func) : List (BlockId × Block) :=
  f.blocks.toList.zipIdx.map fun (b, i) => (⟨i⟩, b)

/-- The first block. -/
def entry? (f : Func) : Option BlockId :=
  if f.blocks.isEmpty then none else some ⟨0⟩

/-- Every listed instruction with its block, block after block in layout order. -/
def programOrder (f : Func) : List (BlockId × InstId) :=
  f.layout.flatMap fun (id, b) => b.insts.map fun i => (id, i)

/-- Every edge from its source to its target, in layout order, as often as it is listed. -/
def edges (f : Func) : List (BlockId × BlockId) :=
  f.layout.flatMap fun (id, b) => b.succs.map fun s => (id, s)

/-- Files the source of an edge under its target, once, and nowhere if there is no such block. -/
def fileEdge (preds : Array (List BlockId)) (edge : BlockId × BlockId) : Array (List BlockId) :=
  preds.modify edge.2.index fun sources =>
    if edge.1 ∈ sources then sources else sources ++ [edge.1]

/-- For every block, the blocks that list it as a successor, in layout order and without
repetition. -/
def predecessors (f : Func) : Array (List BlockId) :=
  f.edges.foldl fileEdge (Array.replicate f.blocks.size [])

/-! ## Growing the tables

Each of these appends one entry and answers its label. -/

/-- Appends a value. -/
def pushValue (f : Func) (v : Value) : ValueId × Func :=
  (⟨f.values.size⟩, { f with values := f.values.push v })

/-- Appends an instruction, which no block lists yet. -/
def pushInst (f : Func) (inst : Instruction) : InstId × Func :=
  (⟨f.insts.size⟩, { f with insts := f.insts.push inst })

/-- Appends an empty block to the layout. -/
def pushBlock (f : Func) : BlockId × Func :=
  (⟨f.blocks.size⟩, { f with blocks := f.blocks.push {} })

/-! ## Changing an entry

`none` means that there is no such entry. -/

/-- Changes one block. -/
def modifyBlock? (f : Func) (b : BlockId) (change : Block → Block) : Option Func :=
  if b.index < f.blocks.size then
    some { f with blocks := f.blocks.modify b.index change }
  else none

/-- Changes one instruction. -/
def modifyInst? (f : Func) (i : InstId) (change : Instruction → Instruction) : Option Func :=
  if i.index < f.insts.size then
    some { f with insts := f.insts.modify i.index change }
  else none

/-- Adds the edge from `b` to `s` unless it is there; `s` need not exist. -/
def addSuccessor? (f : Func) (b s : BlockId) : Option Func :=
  f.modifyBlock? b fun block => block.addSuccessor s

/-- Lists `s` once more as a successor of `b`, whatever is listed already. -/
def pushSuccessor? (f : Func) (b s : BlockId) : Option Func :=
  f.modifyBlock? b fun block => { block with succs := block.succs ++ [s] }

/-- Lists `i` as the last instruction of `b`. -/
def placeInst? (f : Func) (b : BlockId) (i : InstId) : Option Func :=
  f.modifyBlock? b fun block => { block with insts := block.insts ++ [i] }

/-- Names or forgets the result of `i`. -/
def setResult? (f : Func) (i : InstId) (result : Option ValueId) : Option Func :=
  f.modifyInst? i fun inst => { inst with result := result }

/-! ## A loop of two blocks -/

/-- Two blocks that jump to each other, one of them twice, and one edge out of the graph. -/
def twoBlockLoop : Func :=
  { name := "loop", blocks := #[⟨[], [⟨1⟩, ⟨1⟩]⟩, ⟨[], [⟨0⟩, ⟨7⟩]⟩] }

example : twoBlockLoop.predecessors = #[[⟨1⟩], [⟨0⟩]] := by decide
example : twoBlockLoop.entry? = some ⟨0⟩ := by decide

end Func

end Dataflow
