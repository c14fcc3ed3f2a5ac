import Dataflow.Liveness.Key
import Dataflow.WordSet

/-!
# What a block does to keys

Two sets sum up a block: the keys it reads before it overwrites them (`exposed`, the upward-exposed
uses) and the keys it overwrites (`killed`).  They are found by one walk over the instructions, in
which a use counts only if nothing earlier in the block overwrote the key.
-/

namespace Dataflow

/-- A block, or a part of one, as far as liveness cares. -/
structure Effect where
  /-- Keys read before they are overwritten. -/
  exposed : WordSet
  /-- Keys overwritten. -/
  killed : WordSet
deriving Repr

namespace Effect

/-- The effect of no instructions at all. -/
def idle (numKeys : Nat) : Effect := ⟨.withCapacity numKeys, .withCapacity numKeys⟩

/-- The effect after one more instruction: its uses are looked at before its definitions. -/
def step (keys : KeySpace) (e : Effect) (inst : Instruction) : Effect where
  exposed := (keys.uses inst).foldl
    (fun s k => if e.killed.contains k then s else s.add k) e.exposed
  killed := (keys.defs inst).foldl WordSet.add e.killed

/-- The effect of listed instructions; `none` if one of them does not exist. -/
def ofInsts? (keys : KeySpace) (f : Func) (insts : List InstId) : Option Effect :=
  insts.foldlM (fun e i => (f.insts[i.index]?).map (e.step keys)) (idle (keys.size f))

end Effect

end Dataflow
