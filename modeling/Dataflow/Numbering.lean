import Dataflow.Failure
import Dataflow.Numbering.Event

/-!
# Value numbering

Instructions are numbered one after another.  A constant or a parameter gets a number of its own
when it is first asked for.  A binary operator is looked up by its operator and the numbers of its
operands, in ascending order if the operator commutes: an expression that was met before is
*redundant* and takes the old number, and a new one takes the next.  A store copies the number of
the stored value to the pointer, a load copies it from the pointer to the result; so memory is an
alias of what was stored last, and different pointers have nothing to do with each other.

An unknown operand counts as zero and takes part in expressions like any other number.  The table of
expressions is one for the whole function.
-/

namespace Dataflow

/-! ## Expressions -/

/-- An operator applied to numbers. -/
structure Expression where
  op : Operator
  lhs : ValueNumber
  rhs : ValueNumber
deriving DecidableEq, Repr

/-- The expression in its normal form: the smaller operand comes first if the operator commutes. -/
def Expression.normal (op : Operator) (lhs rhs : ValueNumber) : Expression :=
  if op.isCommutative && rhs < lhs then ⟨op, rhs, lhs⟩ else ⟨op, lhs, rhs⟩

/-- What is remembered about an expression: its number and the instruction that computed it
first. -/
structure Known where
  number : ValueNumber
  source : InstId
deriving DecidableEq, Repr

/-! ## The state -/

/-- Where numbering stands. -/
structure Numbering.State where
  /-- The number of each value that has been assigned one; the one assigned may be zero. -/
  numbers : Array (Option ValueNumber)
  /-- The expressions met, in normal form, the latest first. -/
  table : List (Expression × Known) := []
  /-- For each redundant instruction the one that computed its expression first. -/
  sources : Array (Option InstId)
  /-- The next number to hand out. -/
  next : ValueNumber := 1
deriving DecidableEq, Repr

/-- The result of numbering a function. -/
structure Numbering where
  numbers : Array ValueNumber
  sources : Array (Option InstId)
  next : ValueNumber
deriving DecidableEq, Repr

namespace Numbering

namespace State

/-- The state before any instruction. -/
def start (f : Func) : State where
  numbers := Array.replicate f.values.size none
  sources := Array.replicate f.insts.size none

/-- Gives a value a number; `none` if there is no such value. -/
def assign? (s : State) (v : ValueId) (n : ValueNumber) : Option State :=
  if v.index < s.numbers.size then
    some { s with numbers := s.numbers.setIfInBounds v.index (some n) }
  else none

/-- The number of a value.  A constant or parameter without one gets the next; any other value
without one, in the table or not, counts as zero. -/
def numberOf (f : Func) (s : State) (v : ValueId) : ValueNumber × State :=
  match s.numbers[v.index]?, f.values[v.index]? with
  | some (some n), _ => (n, s)
  | some none, some (.const _) | some none, some (.arg _) =>
    (s.next, { s with
      numbers := s.numbers.setIfInBounds v.index (some s.next)
      next := s.next + 1 })
  | _, _ => (0, s)

/-- Whether an instruction has recomputed something. -/
def isRedundant (s : State) (i : InstId) : Bool := ((s.sources[i.index]?).join).isSome

/-- Looks an expression up for an instruction: its number, and whether it was known.  A new one is
entered. -/
def lookup (s : State) (i : InstId) (e : Expression) : ValueNumber × Bool × State :=
  match s.table.lookup e with
  | some known =>
    (known.number, true, { s with sources := s.sources.setIfInBounds i.index (some known.source) })
  | none =>
    (s.next, false, { s with table := (e, ⟨s.next, i⟩) :: s.table, next := s.next + 1 })

/-- Numbers a store. -/
def store? (f : Func) (s : State) (value ptr : ValueId) : Option (Outcome × State) := do
  let (n, s) := s.numberOf f value
  let s ← s.assign? ptr n
  return (.store n, s)

/-- Numbers a load.  A pointer without a number leaves the result as it is. -/
def load? (s : State) (ptr : ValueId) (result : Option ValueId) : Option (Outcome × State) :=
  match s.numbers[ptr.index]?, result with
  | none, _ => none
  | some none, _ => some (.load 0, s)
  | some (some n), none => some (.load n, s)
  | some (some n), some r => (s.assign? r n).map fun s => (.load n, s)

/-- Numbers a binary operator, the left operand before the right one. -/
def binary? (f : Func) (s : State) (i : InstId) (op : Operator) (lhs rhs : ValueId)
    (result : Option ValueId) : Option (Outcome × State) := do
  let (l, s) := s.numberOf f lhs
  let (r, s) := s.numberOf f rhs
  let (n, redundant, s) := s.lookup i (.normal op l r)
  let s ← match result with
    | none => some s
    | some v => s.assign? v n
  return (.binary op l r n redundant, s)

/-- Numbers an instruction; `none` if a value that has to be there is not. -/
def number? (f : Func) (s : State) (i : InstId) (inst : Instruction) : Option (Outcome × State) :=
  match inst.action with
  | .store value ptr => s.store? f value ptr
  | .load ptr => s.load? ptr inst.result
  | .binary op lhs rhs => s.binary? f i op lhs rhs inst.result
  | .other .. => some (.other, s)

/-- **One step**: numbers the instruction `i`, which is said to stand in block `b`. -/
def step (f : Func) (s : State) (b : BlockId) (i : InstId) : Except Halt (Event × State) :=
  match f.insts[i.index]? with
  | none => .error (.failed (.invalid f.name (.unknownInstruction b i)))
  | some inst => do
    let (outcome, s) ← Halt.require (s.number? f i inst)
    return (⟨b, i, outcome⟩, s)

/-- Numbers instructions one after another.  Answers the events up to the first failure, and the
state after the last one if there is none. -/
def walk (f : Func) (s : State) : List (BlockId × InstId) → List Event × Except Halt State
  | [] => ([], .ok s)
  | (b, i) :: rest =>
    match s.step f b i with
    | .error halt => ([], .error halt)
    | .ok (event, s) =>
      let (events, last) := s.walk f rest
      (event :: events, last)

/-- Freezes the state; a value without a number gets zero. -/
def finish (s : State) : Numbering where
  numbers := s.numbers.map fun n => n.getD 0
  sources := s.sources
  next := s.next

end State

/-! ## The result -/

/-- Validates the function and makes the state before any instruction. -/
def start (f : Func) : Except Halt State := do
  f.check
  return .start f

/-- The number of a value, zero if it has none. -/
def numberOf (r : Numbering) (v : ValueId) : ValueNumber := (r.numbers[v.index]?).getD 0

/-- The instruction that first computed what a redundant one recomputes. -/
def source? (r : Numbering) (i : InstId) : Option InstId := (r.sources[i.index]?).join

/-- Whether an instruction recomputes something. -/
def isRedundant (r : Numbering) (i : InstId) : Bool := (r.source? i).isSome

/-- The redundant instructions, ascending. -/
def redundant (r : Numbering) : List InstId :=
  ((List.range r.sources.size).map InstId.mk).filter r.isRedundant

/-- The largest number handed out; zero if none was. -/
def maxNumber (r : Numbering) : ValueNumber := r.next - 1

end Numbering

end Dataflow
