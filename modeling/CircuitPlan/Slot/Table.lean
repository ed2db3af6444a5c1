import CircuitPlan.Layout
import CircuitPlan.Slot.Allocator

/-!
# Slots of a circuit

Every reachable node vector gets slots for its values and, unless it is a product, for parameters
and parameter flows. Node vectors with one parameter owner share the parameters. Each of them has
flows of its own, which are later summed into the target of the owner: an owner that is reachable
uses the target for its own flows, and so does a node vector that is alone with its owner.

All slots are asked for in one list of requests, which are then served in order. The width of a
request is a product of sizes, which is taken to fit in 64 bits.
-/

namespace CircuitPlan

inductive Purpose
  | values (node : NodeId)
  | metadata (node : NodeId)
  | params (owner : NodeId)
  | target (owner : NodeId)
  | flows (node : NodeId)
deriving DecidableEq

structure Request where
  purpose : Purpose
  space : Space
  node : NodeId
  width : Nat
deriving DecidableEq

structure TieGroup where
  /-- The owner, which may be unreachable. -/
  source : NodeId
  params : Span
  /-- The range that receives the sum of all flows. -/
  target : Span
  members : List NodeId
  flowStarts : List Nat
deriving DecidableEq

structure NodeSlots where
  values : Span
  params : Option Span
  flows : Option Span
  metadata : Option Span
  inputLayer : Option Nat
deriving DecidableEq

structure InputSizes where
  params : Nat
  flows : Nat
  metadata : Nat
deriving DecidableEq

structure SlotTable where
  nodes : List (NodeId × NodeSlots)
  numValues : Nat
  numSumParams : Nat
  numSumFlows : Nat
  inputSizes : List InputSizes
  sumTies : List TieGroup
  inputTies : List (List TieGroup)
deriving DecidableEq

/-- The node vectors that use parameters, each after its owner, in allocation order. -/
structure Sharing where
  entries : List (NodeId × NodeId)

namespace Sharing

def ofOrder (circuit : Circuit) (order : List NodeId) : Sharing :=
  ⟨(order.filter fun id => (circuit.node id).tag ≠ .product).map fun id => (circuit.owner id, id)⟩

def members (sharing : Sharing) (owner : NodeId) : List NodeId :=
  (sharing.entries.filter fun entry => entry.1 == owner).map (·.2)

def isFirst (sharing : Sharing) (owner id : NodeId) : Bool :=
  (sharing.members owner).head? == some id

/-- Whether `id` adds its flows straight into the target of its owner. -/
def usesTarget (sharing : Sharing) (owner id : NodeId) : Bool :=
  (sharing.members owner).length == 1 || id == owner

def isTied (sharing : Sharing) (owner : NodeId) : Bool :=
  (sharing.members owner).any fun id => id != owner

def owners (circuit : Circuit) (nodes : List NodeId) : List NodeId :=
  (nodes.map circuit.owner).eraseDups

end Sharing

namespace Request

/-- Requests of a node vector for parameters and flows of given widths. Only the first one of its
owner asks for the parameters and the target. -/
def forParams (sharing : Sharing) (owner id : NodeId) (params flows : Space)
    (paramWidth flowWidth : Nat) : List Request :=
  (if sharing.isFirst owner id then
    [⟨.params owner, params, owner, paramWidth⟩, ⟨.target owner, flows, owner, flowWidth⟩]
  else []) ++
    (if sharing.usesTarget owner id then [] else [⟨.flows id, flows, id, flowWidth⟩])

def forInput (circuit : Circuit) (sharing : Sharing) (layer : Nat) (id : NodeId) :
    List Request :=
  let node := circuit.node id
  match node.kind with
  | .input dist =>
      [⟨.values id, .nodeValues, id, node.numNodes⟩,
        ⟨.metadata id, .inputMetadata layer, id, dist.metadata.length⟩] ++
        forParams sharing (circuit.owner id) id (.inputParams layer) (.inputFlows layer)
          (node.numNodes * dist.numParameters) (node.numNodes * dist.numFlows)
  | _ => []

def forInner (circuit : Circuit) (sharing : Sharing) (id : NodeId) : List Request :=
  let node := circuit.node id
  let width := node.numGroups * circuit.arena.fanIn node * node.groupSize
  ⟨.values id, .nodeValues, id, node.numNodes⟩ ::
    if node.tag = .sum then
      forParams sharing (circuit.owner id) id .sumParams .sumFlows width width
    else []

def all (circuit : Circuit) (layout : Layout) : List Request :=
  let sharing := Sharing.ofOrder circuit layout.order
  (layout.inputs.zipIdx.flatMap fun (group, layer) =>
    group.nodes.flatMap (forInput circuit sharing layer)) ++
    layout.inner.flatMap fun group => group.nodes.flatMap (forInner circuit sharing)

def serve (allocator : Allocator) :
    List Request → Except Overflow (List (Purpose × Span) × Allocator)
  | [] => .ok ([], allocator)
  | request :: rest => do
      let (span, allocator) ← allocator.allocate request.space request.node request.width
      let (served, allocator) ← serve allocator rest
      return ((request.purpose, span) :: served, allocator)

end Request

namespace SlotTable

def spanOf (served : List (Purpose × Span)) (purpose : Purpose) : Span :=
  (served.lookup purpose).getD ⟨0, 0⟩

def flowsOf (sharing : Sharing) (served : List (Purpose × Span)) (owner id : NodeId) : Span :=
  spanOf served (if sharing.usesTarget owner id then .target owner else .flows id)

def nodeSlots (circuit : Circuit) (layout : Layout) (sharing : Sharing)
    (served : List (Purpose × Span)) (id : NodeId) : NodeSlots :=
  let owner := circuit.owner id
  let values := spanOf served (.values id)
  let params := spanOf served (.params owner)
  let flows := flowsOf sharing served owner id
  match (circuit.node id).kind with
  | .input _ =>
      { values, params, flows, metadata := spanOf served (.metadata id)
        inputLayer := layout.inputs.findIdx? fun group => group.nodes.contains id }
  | .product => { values, params := none, flows := none, metadata := none, inputLayer := none }
  | .sum => { values, params, flows, metadata := none, inputLayer := none }

def ties (circuit : Circuit) (sharing : Sharing) (served : List (Purpose × Span))
    (nodes : List NodeId) : List TieGroup :=
  ((Sharing.owners circuit nodes).filter sharing.isTied).map fun owner =>
    { source := owner
      params := spanOf served (.params owner)
      target := spanOf served (.target owner)
      members := sharing.members owner
      flowStarts := (sharing.members owner).map fun id =>
        (flowsOf sharing served owner id).start }

def ofLayout (circuit : Circuit) (layout : Layout) : Except Overflow SlotTable := do
  let sharing := Sharing.ofOrder circuit layout.order
  let (served, allocator) ← Request.serve .empty (Request.all circuit layout)
  let sums := (layout.inner.filter (·.kind = .sum)).flatMap (·.nodes)
  return {
    nodes := (Ascending.ofList layout.order).map fun id =>
      (id, nodeSlots circuit layout sharing served id)
    numValues := allocator.used .nodeValues
    numSumParams := allocator.used .sumParams
    numSumFlows := allocator.used .sumFlows
    inputSizes := (List.range layout.inputs.length).map fun layer =>
      { params := allocator.used (.inputParams layer)
        flows := allocator.used (.inputFlows layer)
        metadata := allocator.used (.inputMetadata layer) }
    sumTies := ties circuit sharing served sums
    inputTies := layout.inputs.map fun group => ties circuit sharing served group.nodes }

def get? (table : SlotTable) (id : NodeId) : Option NodeSlots := table.nodes.lookup id

def get (table : SlotTable) (id : NodeId) : Except Fault NodeSlots :=
  (table.get? id).elim (.error (.noSlots id)) .ok

end SlotTable
end CircuitPlan
