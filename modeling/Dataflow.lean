import Dataflow.Cursor
import Dataflow.Pipeline
import Dataflow.Plan.Json
import Dataflow.Proofs.Convergence
import Dataflow.Proofs.NumberedRuns
import Dataflow.Proofs.LivenessStates
import Dataflow.Proofs.GrowingEdges
import Dataflow.Proofs.InBounds
import Dataflow.Proofs.Execution
import Dataflow.Proofs.Relayout
import Dataflow.Proofs.Redundancy
import Dataflow.Proofs.ExchangedOperands
import Dataflow.Proofs.Journals
import Dataflow.Proofs.Building
import Dataflow.Proofs.BuiltinRuns
import Dataflow.Proofs.SweepCaps
import Dataflow.Proofs.NamedLiveness
import Dataflow.Proofs.Rejections
import Dataflow.Proofs.Solutions
import Dataflow.Proofs.ExpressionTable
import Dataflow.Proofs.DenseNumbers
import Dataflow.Proofs.SettledNumbers
import Dataflow.Proofs.LocalEffects
import Dataflow.Proofs.SetHistories
import Dataflow.Proofs.Respelling
import Dataflow.Proofs.Filing
import Dataflow.Proofs.PlanTexts
import Dataflow.Proofs.Predecessors
