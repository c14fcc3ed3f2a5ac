import Dataflow.Liveness.Run
import Dataflow.Numbering.Run
import Dataflow.Plan
import Dataflow.Text.Quoted

/-!
# The catalog of analyses

Analyses are found by name.  An entry may bear another name than the analysis it holds.  Entering a
name again replaces the analysis and keeps the place in the catalog.
-/

namespace Dataflow

/-- A function to a transcript, under a plan. -/
structure Analysis where
  name : String
  run : Func → Plan → Transcript Unit

namespace Analysis

/-- Value numbering. -/
def valueNumbering : Analysis where
  name := PassKind.valueNumbering.passName .value
  run f _ := do
    let _ ← Numbering.run f
    return ()

/-- Liveness under an identity, with the plan's limit on sweeps. -/
def liveness (identity : Identity) : Analysis where
  name := PassKind.liveness.passName identity
  run f plan := Liveness.run (.of identity f) f plan.cap

end Analysis

/-- Analyses by name, in the order the names were entered. -/
structure Catalog where
  entries : List (String × Analysis) := []

namespace Catalog

/-- The names, in order. -/
def names (c : Catalog) : List String := c.entries.map (·.1)

/-- Whether a name is taken. -/
def contains (c : Catalog) (name : String) : Bool := c.names.contains name

/-- Enters an analysis under a name. -/
def register (c : Catalog) (name : String) (a : Analysis) : Catalog :=
  if c.contains name then
    ⟨c.entries.map fun e => if e.1 = name then (name, a) else e⟩
  else ⟨c.entries ++ [(name, a)]⟩

/-- The analysis of a name. -/
def find (c : Catalog) (name : String) : Except Halt Analysis :=
  match c.entries.lookup name with
  | some a => .ok a
  | none => .error (.failed (.unknownAnalysis name))

/-- The catalog of the three analyses there are. -/
def builtin : Catalog :=
  (({} : Catalog).register "value-numbering" .valueNumbering
    |>.register "liveness" (.liveness .value))
    |>.register "liveness-names" (.liveness .name)

/-- The names in quotes, between braces. -/
def text (c : Catalog) : String :=
  "\x7b" ++ ", ".intercalate (c.names.map Text.quote) ++ "\x7d"

end Catalog

end Dataflow
