import FrameGraph.Inspect
import FrameGraph.Main
import FrameGraph.Proofs.CapacityCondition
import FrameGraph.Proofs.ClosedDrawings
import FrameGraph.Proofs.Confluence
import FrameGraph.Proofs.Dataflow
import FrameGraph.Proofs.DividedSizes
import FrameGraph.Proofs.ExactSelection
import FrameGraph.Proofs.ExecutionOrder
import FrameGraph.Proofs.FrameRuns
import FrameGraph.Proofs.GreedyChoice
import FrameGraph.Proofs.InPlaceSharing
import FrameGraph.Proofs.MinimalChurn
import FrameGraph.Proofs.OpenDemands
import FrameGraph.Proofs.PhaseResources
import FrameGraph.Proofs.PrunedOperations
import FrameGraph.Proofs.Realizability
import FrameGraph.Proofs.RendererHistories
import FrameGraph.Proofs.Renumbering
import FrameGraph.Proofs.RequiredOrder
import FrameGraph.Proofs.ResourceHistories
import FrameGraph.Proofs.ResumedReconciliation
import FrameGraph.Proofs.SetupContract
import FrameGraph.Proofs.SlotHistories
import FrameGraph.Proofs.SlotPeaks
import FrameGraph.Proofs.StaleSchedules
import FrameGraph.Proofs.WellDeclaredOperations
