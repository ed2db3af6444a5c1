import CircuitPlan.Circuit.Builder
import CircuitPlan.Distribution.Families
import CircuitPlan.Execution.Accumulate
import CircuitPlan.Execution.Forward
import CircuitPlan.Fingerprint.Plan
import CircuitPlan.Initial
import CircuitPlan.Options.Document
import CircuitPlan.Options.Environment
import CircuitPlan.Registry
import CircuitPlan.Proofs.Checked
import CircuitPlan.Proofs.Ascending
import CircuitPlan.Proofs.Circuit.Rules
import CircuitPlan.Proofs.Circuit.Acceptance
import CircuitPlan.Proofs.Circuit.Reachability
import CircuitPlan.Proofs.Layout.Depth
import CircuitPlan.Proofs.Layout.Order
import CircuitPlan.Proofs.Slot.Consecutive
import CircuitPlan.Proofs.Slot.Service
import CircuitPlan.Proofs.Slot.Sharing
import CircuitPlan.Proofs.Slot.Pool
import CircuitPlan.Proofs.Slot.Requests
import CircuitPlan.Proofs.Slot.Ranges
import CircuitPlan.Proofs.Slot.Table
import CircuitPlan.Proofs.Slot.Tiling
import CircuitPlan.Proofs.Slot.Flows
import CircuitPlan.Proofs.Buffer
import CircuitPlan.Proofs.PaddedMatrix
import CircuitPlan.Proofs.Reduction.Tiling
import CircuitPlan.Proofs.Reduction.Neighbours
import CircuitPlan.Proofs.Execution.Accumulate
import CircuitPlan.Proofs.Plan
import CircuitPlan.Proofs.Execution.TiedFlows
import CircuitPlan.Proofs.Circuit.Value
import CircuitPlan.Proofs.Layer.Rows
import CircuitPlan.Proofs.Layer.Matrices
import CircuitPlan.Proofs.Execution.Partition
import CircuitPlan.Proofs.Layer.Lanes
import CircuitPlan.Proofs.Execution.Forward
import CircuitPlan.Proofs.Layer.Widths
import CircuitPlan.Proofs.Layer.Buckets
import CircuitPlan.Proofs.Layer.Edges
import CircuitPlan.Proofs.Layer.Operands
import CircuitPlan.Proofs.Layer.Reverse
import CircuitPlan.Proofs.Execution.Bounds
import CircuitPlan.Proofs.Slot.Demand
import CircuitPlan.Proofs.Reduction.Completion
import CircuitPlan.Proofs.Layer.Completion
import CircuitPlan.Proofs.Plan.Endings
import CircuitPlan.Proofs.Scope
import CircuitPlan.Proofs.Circuit.Leaves
import CircuitPlan.Proofs.Circuit.Building
import CircuitPlan.Proofs.Circuit.Authoring
import CircuitPlan.Proofs.Execution.Interleaving
import CircuitPlan.Proofs.Execution.OrderFree
import CircuitPlan.Proofs.Layout.Layering
import CircuitPlan.Proofs.Circuit.Agreement
import CircuitPlan.Proofs.Plan.Locality
import CircuitPlan.Proofs.Layer.Places
import CircuitPlan.Proofs.Layer.Inputs
import CircuitPlan.Proofs.Circuit.Supplied
import CircuitPlan.Proofs.Distribution
import CircuitPlan.Proofs.Layer.Initial
import CircuitPlan.Proofs.Execution.Stopping
import CircuitPlan.Proofs.Execution.Guard
import CircuitPlan.Proofs.Fingerprint.Encoding
import CircuitPlan.Proofs.Fingerprint.Plan
import CircuitPlan.Proofs.Fingerprint.Mixing
import CircuitPlan.Proofs.Layer.Columns
import CircuitPlan.Proofs.Layer.Mixtures
import CircuitPlan.Proofs.Plan.Variables
import CircuitPlan.Proofs.Reduction.Loop
import CircuitPlan.Proofs.Reduction.Exact
import CircuitPlan.Proofs.Reduction.Overlap
import CircuitPlan.Proofs.Reduction.JobCount
import CircuitPlan.Proofs.Execution.Phases
import CircuitPlan.Proofs.Execution.Buckets
import CircuitPlan.Proofs.Layer.Tolerance
import CircuitPlan.Proofs.Layer.Merging
import CircuitPlan.Proofs.Slot.History
import CircuitPlan.Proofs.Circuit.Parents
import CircuitPlan.Proofs.Circuit.Adding
import CircuitPlan.Proofs.Circuit.Copying
import CircuitPlan.Proofs.Layer.Repeats
