import CircuitPlan.Slot.Table
import CircuitPlan.Reduction

/-!
# Input layers

An input layer holds the input node vectors of one signature. Its parameters, flows and metadata
are buffers of its own. All columns have one entry for each scalar node.
-/

namespace CircuitPlan

structure InputLayer where
  index : Nat
  signature : String
  nodes : List NodeId
  values : Span
  vars : PaddedMatrix
  paramStarts : List Nat
  flowStarts : List Nat
  metadataStarts : List Nat
  /-- Positions of scalar nodes whose parameters make up the parameter buffer, each parameter
  once. -/
  sources : List Nat
  metadata : List Single
  numParameters : Nat
  numFlows : Nat
  reduction : Reduction
deriving DecidableEq

structure InputScalar where
  vars : List Nat
  paramStart : Nat
  flowStart : Nat
  metadataStart : Nat
  isSource : Bool

namespace InputLayer

def firstOfOwners (circuit : Circuit) (nodes : List NodeId) : List NodeId :=
  let sharing := Sharing.ofOrder circuit nodes
  nodes.filter fun id => sharing.isFirst (circuit.owner id) id

def scalars (circuit : Circuit) (table : SlotTable) (firsts : List NodeId) (id : NodeId) :
    Except Fault (List InputScalar) := do
  let node := circuit.node id
  let slots ← table.get id
  match node.kind.dist?, slots.params, slots.flows, slots.metadata with
  | some dist, some params, some flows, some metadata =>
      return (List.range node.numNodes).map fun k =>
        { vars := node.scope.vars
          paramStart := params.start + k * dist.numParameters
          flowStart := flows.start + k * dist.numFlows
          metadataStart := metadata.start
          isSource := firsts.contains id }
  | _, _, _, _ => .error (.noSlots id)

def ofGroup (circuit : Circuit) (table : SlotTable) (index : Nat) (group : InputGroup)
    (reduction : Reduction) : Except Fault InputLayer := do
  let slots ← group.nodes.mapM table.get
  let dists := group.nodes.filterMap fun id => (circuit.node id).kind.dist?
  let firsts := firstOfOwners circuit group.nodes
  let scalars := (← group.nodes.mapM (scalars circuit table firsts)).flatten
  let numVars := (dists.map (·.numVars)).foldl max 0
  let sizes := table.inputSizes.getD index ⟨0, 0, 0⟩
  let spans := slots.map (·.values)
  return {
    index
    signature := group.signature
    nodes := group.nodes
    values := ⟨(spans.head?.map (·.start)).getD 0, (spans.getLast?.map (·.stop)).getD 0⟩
    vars := ← PaddedMatrix.ofRows (scalars.map (·.vars)) numVars
    paramStarts := scalars.map (·.paramStart)
    flowStarts := scalars.map (·.flowStart)
    metadataStarts := scalars.map (·.metadataStart)
    sources := (scalars.zipIdx.filter fun entry => entry.1.isSource).map (·.2)
    metadata := dists.flatMap (·.metadata)
    numParameters := sizes.params
    numFlows := sizes.flows
    reduction }

def numNodes (layer : InputLayer) : Nat := layer.paramStarts.length

end InputLayer
end CircuitPlan
