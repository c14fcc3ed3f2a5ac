import Dataflow.Func
import Dataflow.Identity

/-!
# Keys

Liveness works on keys, which are small indices, so that sets of them are bit sets.  There are two
ways to choose them (`KeySpace`): the values of the function themselves, or the distinct names of
its slots as collected in a `NameTable`.  A key space says which keys an instruction reads and which
it overwrites, and how a key is written.

Under value identity an instruction reads its operands, a pointer included, and overwrites its
result and, for a store, the pointer.  Under name identity only slots count: a store reads the slot
named by the stored value (if it is one) and overwrites the one it points to, and a load reads the
one it points to.
-/

namespace Dataflow

/-! ## Name tables -/

/-- The distinct slot names of a function, numbered in order of first appearance, and for each value
the number of its name. -/
structure NameTable where
  names : List String := []
  ids : List (Option NameId) := []
deriving DecidableEq, Repr

namespace NameTable

/-- The label of a name. -/
def lookup? (t : NameTable) (name : String) : Option NameId :=
  (t.names.findIdx? fun s => s == name).map NameId.mk

/-- The name of a label. -/
def resolve? (t : NameTable) (id : NameId) : Option String := t.names[id.index]?

/-- The label of a value's name, for a slot; values past the table have none. -/
def nameOf? (t : NameTable) (v : ValueId) : Option NameId := (t.ids[v.index]?).join

/-- The number of distinct names. -/
def size (t : NameTable) : Nat := t.names.length

/-- Takes in the next value of the table: a name not seen before gets the next number. -/
def intern (t : NameTable) (v : Value) : NameTable :=
  match v.slotName? with
  | none => { t with ids := t.ids ++ [none] }
  | some name =>
    match t.lookup? name with
    | some id => { t with ids := t.ids ++ [some id] }
    | none => ⟨t.names ++ [name], t.ids ++ [some ⟨t.names.length⟩]⟩

/-- The names of a function. -/
def ofFunc (f : Func) : NameTable := f.values.toList.foldl intern {}

end NameTable

/-! ## Key spaces -/

/-- How a key is shown: the value itself, or the slot's name. -/
inductive KeyLabel where
  | value (v : ValueId)
  | name (s : String)
deriving DecidableEq, Repr

/-- Written `v3` or `%x`. -/
def KeyLabel.text : KeyLabel → String
  | .value v => v.text
  | .name s => "%" ++ s

/-- What the keys stand for. -/
inductive KeySpace where
  /-- Key `k` is the value at position `k`. -/
  | values
  /-- Key `k` is the name at position `k` of the table. -/
  | names (table : NameTable)
deriving DecidableEq, Repr

namespace KeySpace

/-- The key space of an identity; names are taken from this function. -/
def of (identity : Identity) (f : Func) : KeySpace :=
  match identity with
  | .value => .values
  | .name => .names (.ofFunc f)

/-- The identity that a key space realises. -/
def identity : KeySpace → Identity
  | .values => .value
  | .names _ => .name

/-- The number of keys for a function. -/
def size (keys : KeySpace) (f : Func) : Nat :=
  match keys with
  | .values => f.values.size
  | .names table => table.size

/-- The keys an instruction reads, in the order it reads them. -/
def uses (keys : KeySpace) (inst : Instruction) : List Nat :=
  match keys, inst.action with
  | .values, action => action.operands.map ValueId.index
  | .names table, .store value _ => ((table.nameOf? value).map NameId.index).toList
  | .names table, .load ptr => ((table.nameOf? ptr).map NameId.index).toList
  | .names _, .binary .. => []
  | .names _, .other .. => []

/-- The keys an instruction overwrites, in the order it does. -/
def defs (keys : KeySpace) (inst : Instruction) : List Nat :=
  match keys, inst.action with
  | .values, .store _ ptr => ptr.index :: inst.result.toList.map ValueId.index
  | .values, _ => inst.result.toList.map ValueId.index
  | .names table, .store _ ptr => ((table.nameOf? ptr).map NameId.index).toList
  | .names _, _ => []

/-- How a key is shown; a key past the name table cannot be. -/
def describe? (keys : KeySpace) (k : Nat) : Option KeyLabel :=
  match keys with
  | .values => some (.value ⟨k⟩)
  | .names table => (table.resolve? ⟨k⟩).map .name

end KeySpace

/-! ## A small example -/

/-- Three slots, two of one name, around a literal. -/
def threeSlots : Func :=
  { name := "slots", values := #[.slot "x", .const (.int 1), .slot "y", .slot "x"] }

example : NameTable.ofFunc threeSlots
    = ⟨["x", "y"], [some ⟨0⟩, none, some ⟨1⟩, some ⟨0⟩]⟩ := by decide

end Dataflow
