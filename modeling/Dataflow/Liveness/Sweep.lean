import Dataflow.Liveness.Effect

/-!
# Sweeps

Which keys are live at the end of a block depends on its successors:

    liveOut b  =  ⋃ over successors s of b:  exposed s ∪ (liveOut s \ killed s)

A sweep visits every block once, the last in layout first, and replaces its `liveOut` by the
right-hand side as it stands at that moment, so a block sees what the later blocks of the layout
became in the same sweep.  Sweeps are repeated until one changes nothing, or until their number is
used up.

The layout walked may belong to another function than the sets; only its edges matter.  An edge to a
block without sets is the one thing that can stop a sweep.
-/

namespace Dataflow

/-- What is known about one block: its effect, and the keys live at its end. -/
structure BlockSets where
  effect : Effect
  liveOut : WordSet
deriving Repr

namespace BlockSets

/-- The keys live at the start: those exposed, and those live at the end that are not
overwritten. -/
def liveIn (b : BlockSets) : WordSet :=
  b.effect.exposed.unionDiff b.liveOut b.effect.killed

end BlockSets

namespace Sweep

/-- The right-hand side of the equation for a block with these successors. -/
def gather? (numKeys : Nat) (sets : Array BlockSets) (succs : List BlockId) : Option WordSet :=
  succs.foldlM
    (fun live s => (sets[s.index]?).map fun b =>
      (live.union b.effect.exposed).unionDiff b.liveOut b.effect.killed)
    (.withCapacity numKeys)

/-- The sets in the middle of a sweep, and how many blocks it has changed. -/
structure Progress where
  sets : Array BlockSets
  changed : Nat := 0
deriving Repr

/-- Visits one block: replaces its `liveOut` if the equation gives another set. -/
def visit? (numKeys : Nat) (p : Progress) (b : BlockId × Block) : Option Progress := do
  let live ← gather? numKeys p.sets b.2.succs
  let old ← p.sets[b.1.index]?
  if live == old.liveOut then return p
  else return ⟨p.sets.modify b.1.index fun s => { s with liveOut := live }, p.changed + 1⟩

/-- One sweep over a layout, from its last block to its first. -/
def once? (numKeys : Nat) (layout : List (BlockId × Block)) (sets : Array BlockSets) :
    Option Progress :=
  layout.reverse.foldlM (visit? numKeys) ⟨sets, 0⟩

/-- What a series of sweeps came to: the sets it left, how many blocks each sweep changed, the
latest first, and whether the latest changed none. -/
structure Series where
  sets : Array BlockSets
  changes : List Nat := []
  stable : Bool := false
deriving Repr

/-- Sweeps until nothing changes, at most `bound` times more. -/
def repeat? (numKeys : Nat) (layout : List (BlockId × Block)) :
    (bound : Nat) → Series → Option Series
  | 0, series => some series
  | bound + 1, series =>
    match once? numKeys layout series.sets with
    | none => none
    | some p =>
      if p.changed = 0 then some ⟨p.sets, p.changed :: series.changes, true⟩
      else repeat? numKeys layout bound ⟨p.sets, p.changed :: series.changes, false⟩

/-- The largest count there is room for. -/
def maxCount : Nat := UInt64.size - 1

/-- Enough sweeps for any graph: every sweep but the last adds at least one key to one block.  The
count stops at the largest one there is room for. -/
def defaultBound (numBlocks numKeys : Nat) : Nat :=
  min (min (numBlocks * numKeys) maxCount + 1) maxCount

end Sweep

/-- A limit on the number of sweeps, chosen by the caller. -/
structure SweepCap where
  count : Nat
  pos : 0 < count
  le_max : count ≤ Sweep.maxCount
deriving DecidableEq, Repr

/-- The cap of this count; zero and counts too large are no caps. -/
def SweepCap.ofNat? (n : Nat) : Option SweepCap :=
  if h : 0 < n ∧ n ≤ Sweep.maxCount then some ⟨n, h.1, h.2⟩ else none

end Dataflow
