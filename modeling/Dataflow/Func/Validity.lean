import Dataflow.Func

/-!
# Which functions are sound

`Func.validate` reads a function once, block after block, and stops at the first thing that is
wrong.  Within a block the edges come first, then the listed instructions in order; an instruction
must exist, must not have been listed before, must mention only existing values, and its result must
be the value that stands for that very instruction.

The scan remembers which instructions were listed and where (`Placed`), since an instruction that is
listed twice is reported with both blocks.
-/

namespace Dataflow

/-- Something wrong with a function's tables. -/
inductive Defect where
  /-- There is nothing to run. -/
  | noBlocks
  /-- A block was asked for that is not there. -/
  | unknownBlock (block : BlockId)
  /-- An edge leaves the graph. -/
  | straySuccessor (block successor : BlockId)
  /-- A block lists an instruction that is not there. -/
  | unknownInstruction (block : BlockId) (inst : InstId)
  /-- An instruction is listed a second time. -/
  | duplicateInstruction (inst : InstId) (first second : BlockId)
  /-- An instruction mentions a value that is not there. -/
  | unknownValue (inst : InstId) (value : ValueId)
  /-- The value named as the result stands for something else. -/
  | resultMismatch (inst : InstId) (value : ValueId)
deriving DecidableEq, Repr

/-- The wording of a defect. -/
def Defect.message : Defect → String
  | .noBlocks => "function has no basic blocks"
  | .unknownBlock b => s!"{b} is not a block of the function"
  | .straySuccessor b s => s!"{b} has successor {s} outside the function"
  | .unknownInstruction b i => s!"{b} refers to unknown instruction {i}"
  | .duplicateInstruction i b c => s!"instruction {i} appears in both {b} and {c}"
  | .unknownValue i v => s!"instruction {i} refers to unknown value {v}"
  | .resultMismatch i v => s!"instruction {i} defines {v}, which is not its result"

namespace Func

/-- The instructions listed so far, each with its block, the latest first. -/
abbrev Placed := List (InstId × BlockId)

/-- Checks what an existing instruction mentions: first that all of it exists, then that the result
is the instruction's own. -/
def checkMentions (f : Func) (i : InstId) (inst : Instruction) : Except Defect Unit :=
  match inst.mentions.find? fun v => f.values.size ≤ v.index with
  | some v => .error (.unknownValue i v)
  | none =>
    match inst.result with
    | none => .ok ()
    | some v =>
      if f.values[v.index]? = some (.result i) then .ok () else .error (.resultMismatch i v)

/-- Checks one listed instruction and remembers it. -/
def checkListed (f : Func) (b : BlockId) (placed : Placed) (i : InstId) : Except Defect Placed :=
  match f.insts[i.index]? with
  | none => .error (.unknownInstruction b i)
  | some inst =>
    match placed.lookup i with
    | some first => .error (.duplicateInstruction i first b)
    | none => do
      f.checkMentions i inst
      return (i, b) :: placed

/-- Checks one block: its edges, then its instructions. -/
def checkBlock (f : Func) (placed : Placed) (b : BlockId × Block) : Except Defect Placed :=
  match b.2.succs.find? fun s => f.blocks.size ≤ s.index with
  | some s => .error (.straySuccessor b.1 s)
  | none => b.2.insts.foldlM (f.checkListed b.1) placed

/-- **Validation**: `ok` for a sound function, and otherwise its first defect. -/
def validate (f : Func) : Except Defect Unit :=
  if f.blocks.isEmpty then .error .noBlocks
  else do
    let _ ← f.layout.foldlM f.checkBlock []
    return ()

/-! ## Small examples -/

example : validate { name := "empty" } = .error .noBlocks := rfl

example : validate { name := "one", blocks := #[{}] } = .ok () := rfl

-- the edge is reported before the instruction that does not exist
example : validate { name := "two", blocks := #[⟨[⟨5⟩], [⟨0⟩, ⟨1⟩]⟩] }
    = .error (.straySuccessor ⟨0⟩ ⟨1⟩) := rfl

end Func

end Dataflow
