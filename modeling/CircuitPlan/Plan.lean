import CircuitPlan.Layer.Inner
import CircuitPlan.Layer.Input
import CircuitPlan.Reduction.Tiling

/-!
# Plans

A plan is all that an executor needs: the slots of every reachable node vector, the layers in the
order in which they run, and the reductions that sum tied flows.
-/

namespace CircuitPlan

structure Plan where
  groupSize : Nat
  root : NodeId
  slots : SlotTable
  inputLayers : List InputLayer
  innerLayers : List InnerLayer
  sumReduction : Reduction
  options : Options
deriving DecidableEq

namespace Plan

def numEdges (plan : Plan) : Nat := (plan.innerLayers.map (·.numEdges)).foldl (· + ·) 0

def rootValues (plan : Plan) : Except Fault Span :=
  (plan.slots.get plan.root).map (·.values)

def inputLayer (circuit : Circuit) (options : Options) (table : SlotTable) (index : Nat)
    (group : InputGroup) : Except Failure InputLayer := do
  let reduction ←
    Reduction.ofTies options.reduction (table.inputTies.getD index [])
  (InputLayer.ofGroup circuit table index group reduction).mapError .fault

def ofCircuit (circuit : Circuit) (options : Options) : Except Failure Plan := do
  options.validate.mapError fun error => .error (.invalidOptions error)
  let layout := Layout.ofCircuit circuit
  let slots ← (SlotTable.ofLayout circuit layout).mapError fun overflow =>
    .error (.spaceFull overflow)
  let inputLayers ← layout.inputs.zipIdx.mapM fun (group, index) =>
    inputLayer circuit options slots index group
  let innerLayers ← (layout.inner.mapM
    (InnerLayer.ofGroup circuit slots options.tolerance.value options.maxPartitions)).mapError
      .fault
  let sumReduction ← Reduction.ofTies options.reduction slots.sumTies
  return { groupSize := circuit.groupSize, root := circuit.root, slots, inputLayers,
           innerLayers, sumReduction, options }

end Plan
end CircuitPlan
