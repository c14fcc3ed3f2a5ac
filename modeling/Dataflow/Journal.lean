import Dataflow.Transcript

/-!
# The journal

The journal files reports by function: one record for each function that was started, in order.  A
report goes to the last record if that bears the name of its function, and otherwise opens a new
one; so results that were never announced are kept all the same, and an earlier record is never
touched.
-/

namespace Dataflow

/-- Everything reported in one go about a function. -/
structure Record where
  name : String
  numbering : List Event := []
  blocks : List BlockReport := []
deriving DecidableEq, Repr

/-- The records in the order they were opened. -/
structure Journal where
  records : List Record := []
deriving DecidableEq, Repr

namespace Journal

/-- Opens an empty record. -/
def openRecord (j : Journal) (name : String) : Journal := ⟨j.records ++ [{ name := name }]⟩

/-- Opens a record of this name, unless the last one bears it. -/
def ensure (j : Journal) (name : String) : Journal :=
  match j.records.getLast? with
  | some r => if r.name = name then j else j.openRecord name
  | none => j.openRecord name

/-- Adds to the last record. -/
def amendLast (j : Journal) (change : Record → Record) : Journal :=
  match j.records.getLast? with
  | some r => ⟨j.records.dropLast ++ [change r]⟩
  | none => j

/-- Files one report about the function of this name. -/
def file (j : Journal) (name : String) : Report → Journal
  | .start => j.openRecord name
  | .numbered event =>
    (j.ensure name).amendLast fun r => { r with numbering := r.numbering ++ [event] }
  | .live block =>
    (j.ensure name).amendLast fun r => { r with blocks := r.blocks ++ [block] }

/-- Files everything a run over `f` reported. -/
def fileAll {α : Type} (j : Journal) (f : Func) (t : Transcript α) : Journal :=
  t.reports.foldl (fun j r => j.file f.name r) j

/-- The first record of this name. -/
def find? (j : Journal) (name : String) : Option Record :=
  j.records.find? fun r => r.name == name

end Journal

/-! ## A small example -/

-- the second report about `f` comes after one about `g`, so it opens a record of its own
example :
    ((((Journal.mk []).file "f" .start).file "g" .start).file "f"
      (.numbered ⟨⟨0⟩, ⟨0⟩, .other⟩)).records
      = [⟨"f", [], []⟩, ⟨"g", [], []⟩, ⟨"f", [⟨⟨0⟩, ⟨0⟩, .other⟩], []⟩] := by decide

end Dataflow
