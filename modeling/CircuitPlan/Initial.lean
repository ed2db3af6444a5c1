import CircuitPlan.Arithmetic
import CircuitPlan.Buffer
import CircuitPlan.Plan

/-!
# Initial parameters

Random parameters of the sums, where the weights of the edges into one scalar node add up to one,
and parameters of the inputs, which are supplied or drawn by their distributions.
-/

namespace CircuitPlan

namespace SumParams

def columns (groupSize numGroups fanIn start : Nat) : List (List Nat) :=
  (List.range numGroups).flatMap fun group =>
    (List.range groupSize).map fun lane =>
      (List.range fanIn).map fun j => start + group * fanIn * groupSize + j * groupSize + lane

/-- The reachable sums in ascending order, the first one of each owner, with the start of its
parameters. -/
def blocks (circuit : Circuit) (table : SlotTable) : List (NodeId × Nat) :=
  let sums := table.nodes.filter fun entry => (circuit.node entry.1).tag = .sum
  let firsts := InputLayer.firstOfOwners circuit (sums.map (·.1))
  (sums.filter fun entry => firsts.contains entry.1).filterMap fun (id, slots) =>
    slots.params.map fun params => (id, params.start)

def allColumns (circuit : Circuit) (plan : Plan) : List (List Nat) :=
  (blocks circuit plan.slots).flatMap fun (id, start) =>
    let node := circuit.node id
    columns plan.groupSize node.numGroups (circuit.arena.fanIn node) start

variable {F : Type} [Arithmetic F]

def fillColumn (draws : List F) (params : Array F) (column : List Nat) : Array F :=
  let total := Arithmetic.sum draws
  (column.zip draws).foldl (fun params (slot, weight) =>
    params.setIfInBounds slot (Arithmetic.div weight total)) params

/-- Fills columns one after the other from a stream of draws. Gives the parameters and the number
of draws used so far. -/
def fill (draw : Nat → F) : List (List Nat) → Array F × Nat → Array F × Nat
  | [], state => state
  | column :: rest, (params, used) =>
      let draws := (List.range column.length).map fun k => draw (used + k)
      fill draw rest (fillColumn draws params column, used + column.length)

def initial (circuit : Circuit) (plan : Plan) (draw : Nat → F) : Array F × Nat :=
  fill draw (allColumns circuit plan)
    (Array.replicate plan.slots.numSumParams Arithmetic.zero, 0)

end SumParams

namespace InputLayer

def ownerParams (owner : Node) (perturbation : Float32) (source : WordSource) :
    List Float32 × WordSource :=
  match owner.params, owner.kind with
  | some supplied, _ => (supplied, source)
  | none, .input dist => dist.initial owner.numNodes perturbation source
  | none, _ => ([], source)

def initialParams (layer : InputLayer) (circuit : Circuit) (table : SlotTable)
    (perturbation : Float32) (source : WordSource) : Except Fault (Array Float32 × WordSource) :=
  (firstOfOwners circuit layer.nodes).foldlM (fun (params, source) id => do
    let span ← (← table.get id).params.elim (.error (.noSlots id)) .ok
    let (supplied, source) := ownerParams (circuit.node (circuit.owner id)) perturbation source
    return (Buffer.write params span.start supplied, source))
    (Array.replicate layer.numParameters 0, source)

end InputLayer
end CircuitPlan
