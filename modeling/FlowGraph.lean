import FlowGraph.Document.Printer
import FlowGraph.Main
import FlowGraph.Proofs.Chains
import FlowGraph.Proofs.DanglingEdges
import FlowGraph.Proofs.DiamondDocuments
import FlowGraph.Proofs.DocumentRoundTrip
import FlowGraph.Proofs.EdgeOrder
import FlowGraph.Proofs.FaithfulLoading
import FlowGraph.Proofs.FanDocuments
import FlowGraph.Proofs.FlatSets
import FlowGraph.Proofs.IdentityDefects
import FlowGraph.Proofs.Listing
import FlowGraph.Proofs.LongerTails
import FlowGraph.Proofs.NormalForm
import FlowGraph.Proofs.NothingToOutput
import FlowGraph.Proofs.OutgoingEdges
import FlowGraph.Proofs.PortLeaves
import FlowGraph.Proofs.RecordedCalls
import FlowGraph.Proofs.Renaming
import FlowGraph.Proofs.TextReading
import FlowGraph.Proofs.TotalRendering
import FlowGraph.Realization.Recording
