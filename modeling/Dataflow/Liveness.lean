import Dataflow.Failure
import Dataflow.Liveness.Sweep

/-!
# Liveness of a function

The state of a liveness analysis: for every block its effect, which never changes once the state is
made, and the keys live at its end, which start empty and are brought to rest by sweeps.

`fixpoint` may be called again and on other functions, as long as the number of blocks is right: the
effects stay those of the state, only the edges are the function's.  A call that gives up leaves the
sets as its last sweep left them, and a call that is refused leaves everything alone.
-/

namespace Dataflow

/-- What a block reports: its identity, its label, and its three sets as they are shown. -/
structure BlockReport where
  identity : Identity
  block : BlockId
  exposed : List KeyLabel
  killed : List KeyLabel
  liveOut : List KeyLabel
deriving DecidableEq, Repr

/-- The state of a liveness analysis. -/
structure Liveness where
  keys : KeySpace
  /-- The number of keys of the function that the state was made for. -/
  numKeys : Nat
  blocks : Array BlockSets
  /-- How many sweeps the last fixpoint took. -/
  sweeps : Nat := 0
deriving Repr

namespace Liveness

/-! ## Making a state -/

/-- The state before any sweep, for a function that is known to be sound. -/
def start? (keys : KeySpace) (f : Func) : Option Liveness := do
  let numKeys := keys.size f
  let effects ← f.blocks.toList.mapM fun b => Effect.ofInsts? keys f b.insts
  let blocks := effects.map fun e => BlockSets.mk e (.withCapacity numKeys)
  return { keys := keys, numKeys := numKeys, blocks := blocks.toArray }

/-- Validates the function and makes the state before any sweep. -/
def start (keys : KeySpace) (f : Func) : Except Halt Liveness := do
  f.check
  Halt.require (start? keys f)

/-- Validates the function and finds the effect of one of its blocks. -/
def localEffect (keys : KeySpace) (f : Func) (b : BlockId) : Except Halt Effect := do
  f.check
  match f.blocks[b.index]? with
  | none => .error (.failed (.invalid f.name (.unknownBlock b)))
  | some block => Halt.require (Effect.ofInsts? keys f block.insts)

/-! ## Coming to rest -/

/-- How many sweeps a call may make. -/
def bound (l : Liveness) : Option SweepCap → Nat
  | some cap => cap.count
  | none => Sweep.defaultBound l.blocks.size l.numKeys

/-- The sweeps that a call makes along the edges of `f`. -/
def series? (l : Liveness) (f : Func) (cap : Option SweepCap) : Option Sweep.Series :=
  Sweep.repeat? l.numKeys f.layout (l.bound cap) { sets := l.blocks }

/-- The state that a series of sweeps leaves. -/
def after (l : Liveness) (s : Sweep.Series) : Liveness :=
  { l with blocks := s.sets, sweeps := s.changes.length }

/-- What a call answers after a series of sweeps: their number, if the sets came to rest. -/
def verdict (l : Liveness) (f : Func) (cap : Option SweepCap) (s : Sweep.Series) :
    Except Halt Nat :=
  if s.stable then .ok s.changes.length
  else .error (.failed (.diverged f.name (l.bound cap)))

/-- **The fixpoint**: sweeps along the edges of `f` until the sets rest.  Answers the number of
sweeps, the last idle one included, and the new state. -/
def fixpoint (l : Liveness) (f : Func) (cap : Option SweepCap) : Except Halt Nat × Liveness :=
  match f.check with
  | .error halt => (.error halt, l)
  | .ok () =>
    if l.blocks.size = f.blocks.size then
      match l.series? f cap with
      | none => (.error .outOfRange, l)
      | some s => (l.verdict f cap s, l.after s)
    else
      (.error (.failed (.blockCount f.name l.blocks.size f.blocks.size)), l)

/-! ## Reporting -/

/-- The sets of a block. -/
def block? (l : Liveness) (b : BlockId) : Option BlockSets := l.blocks[b.index]?

/-- The members of a set as they are shown, in ascending order of keys. -/
def describe? (l : Liveness) (s : WordSet) : Option (List KeyLabel) :=
  s.toList.mapM l.keys.describe?

/-- The report of one block. -/
def report? (l : Liveness) (b : BlockId) : Option BlockReport := do
  let sets ← l.block? b
  return {
    identity := l.keys.identity
    block := b
    exposed := ← l.describe? sets.effect.exposed
    killed := ← l.describe? sets.effect.killed
    liveOut := ← l.describe? sets.liveOut }

/-- The labels of the state's blocks, in layout order. -/
def blockIds (l : Liveness) : List BlockId := (List.range l.blocks.size).map BlockId.mk

end Liveness

end Dataflow
