import Dataflow.Liveness
import Dataflow.Numbering.Event

/-!
# What analyses report

An analysis reports its results piece by piece: that a function is started, each numbered
instruction, each block's liveness.  Reports are data; what becomes of them is up to whoever reads
the transcript.
-/

namespace Dataflow

/-- One piece of an analysis' results. -/
inductive Report where
  /-- The analyses of a function begin. -/
  | start
  /-- An instruction was numbered. -/
  | numbered (event : Event)
  /-- A block's liveness is known. -/
  | live (block : BlockReport)
deriving DecidableEq, Repr

end Dataflow
