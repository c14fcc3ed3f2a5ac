import Dataflow.Func

/-!
# The text of a function

    fn name(v0, v1) {
        v2 = const 4
    bb0:
        v3 = add v0, v2
        -> bb1
    bb1:
        ret v3
    }

Constants and slots are listed before the blocks, since no instruction introduces them; parameters
stand in the heading and results in front of their instructions.  A block that lists an instruction
which is not in the table has no text, and then neither has the function.
-/

namespace Dataflow

namespace Func

/-- The lines for constants and slots. -/
def valueLines (f : Func) : List String :=
  f.values.toList.zipIdx.filterMap fun (v, i) =>
    match v with
    | .const _ | .slot _ => some ("    " ++ (ValueId.mk i).text ++ " = " ++ v.text)
    | .arg _ | .result _ => none

/-- The lines of one block: its label, its instructions, and where it goes. -/
def blockLines? (f : Func) (id : BlockId) (b : Block) : Option (List String) := do
  let insts ← b.insts.mapM fun i => f.insts[i.index]?
  let next := if b.isExit then [] else
    ["    -> " ++ ", ".intercalate (b.succs.map BlockId.text)]
  return (id.text ++ ":") :: insts.map (fun inst => "    " ++ inst.text) ++ next

/-- The function's text, without a line break at the end. -/
def text? (f : Func) : Option String := do
  let blocks ← f.layout.mapM fun (id, b) => f.blockLines? id b
  let heading := "fn " ++ f.name ++ "(" ++ ", ".intercalate (f.params.map ValueId.text) ++ ") \x7b"
  return "\n".intercalate (heading :: f.valueLines ++ blocks.flatten ++ ["\x7d"])

/-! ## A small example -/

/-- One block that adds a parameter to itself. -/
def doubler : Func :=
  { name := "double"
    params := [⟨0⟩]
    values := #[.arg 0, .result ⟨0⟩]
    insts := #[{ action := .binary .add ⟨0⟩ ⟨0⟩, result := some ⟨1⟩ }]
    blocks := #[{ insts := [⟨0⟩] }] }

example : doubler.text? = some "fn double(v0) \x7b\nbb0:\n    v1 = add v0, v0\n\x7d" := by
  decide +kernel

end Func

end Dataflow
