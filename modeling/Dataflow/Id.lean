/-!
# Labels of table entries

A function keeps its values, instructions and blocks in tables, and everything refers to an entry by
its position.  Each table has a label type of its own, so that a block cannot be looked up among the
values.  A label says nothing about whether the entry exists: that is for validation to find out.

In text a label is its table's letters followed by the position: `v3`, `i3`, `bb3`, `fn3`, `n3`.
-/

namespace Dataflow

/-- A value, by its position in a function's value table. -/
structure ValueId where
  index : Nat
deriving DecidableEq, Repr

/-- An instruction, by its position in a function's instruction table. -/
structure InstId where
  index : Nat
deriving DecidableEq, Repr

/-- A basic block, by its position in a function's layout. -/
structure BlockId where
  index : Nat
deriving DecidableEq, Repr

/-- A function, by its position in a program. -/
structure FuncId where
  index : Nat
deriving DecidableEq, Repr

/-- A slot name, by its position in a name table. -/
structure NameId where
  index : Nat
deriving DecidableEq, Repr

/-- Written `v3`. -/
def ValueId.text (v : ValueId) : String := s!"v{v.index}"

/-- Written `i3`. -/
def InstId.text (i : InstId) : String := s!"i{i.index}"

/-- Written `bb3`. -/
def BlockId.text (b : BlockId) : String := s!"bb{b.index}"

/-- Written `fn3`. -/
def FuncId.text (f : FuncId) : String := s!"fn{f.index}"

/-- Written `n3`. -/
def NameId.text (n : NameId) : String := s!"n{n.index}"

instance : ToString ValueId := ⟨ValueId.text⟩
instance : ToString InstId := ⟨InstId.text⟩
instance : ToString BlockId := ⟨BlockId.text⟩
instance : ToString FuncId := ⟨FuncId.text⟩
instance : ToString NameId := ⟨NameId.text⟩

end Dataflow
