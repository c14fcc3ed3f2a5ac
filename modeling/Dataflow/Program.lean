import Dataflow.Func.Text

/-!
# Programs

A named list of functions.  Names may repeat; looking one up finds the first.
-/

namespace Dataflow

/-- Functions in the order they were added. -/
structure Program where
  name : String
  funcs : Array Func := #[]
deriving DecidableEq, Repr

namespace Program

/-- Adds a function at the end. -/
def add (p : Program) (f : Func) : FuncId × Program :=
  (⟨p.funcs.size⟩, { p with funcs := p.funcs.push f })

/-- The first function of this name. -/
def find? (p : Program) (name : String) : Option FuncId :=
  (p.funcs.toList.findIdx? fun f => f.name == name).map FuncId.mk

/-- The function of this label. -/
def func? (p : Program) (id : FuncId) : Option Func := p.funcs[id.index]?

/-- The heading, then every function after a blank line. -/
def text? (p : Program) : Option String := do
  let texts ← p.funcs.toList.mapM Func.text?
  return "module " ++ p.name ++ "\n" ++ String.join (texts.map fun t => "\n" ++ t ++ "\n")

end Program

end Dataflow
