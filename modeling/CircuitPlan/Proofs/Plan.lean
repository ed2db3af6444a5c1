import CircuitPlan.Plan
import CircuitPlan.Proofs.Slot.Table

namespace CircuitPlan

namespace Plan

def reduction? (plan : Plan) : Pool → Option Reduction
  | .sums => some plan.sumReduction
  | .inputs layer => (plan.inputLayers[layer]?).map (·.reduction)

structure Made (circuit : Circuit) (options : Options) (plan : Plan) : Prop where
  groupSize_eq : plan.groupSize = circuit.groupSize
  slots : SlotTable.ofLayout circuit (Layout.ofCircuit circuit) = .ok plan.slots
  inputLayers : (Layout.ofCircuit circuit).inputs.zipIdx.mapM (fun entry =>
    inputLayer circuit options plan.slots entry.2 entry.1) = .ok plan.inputLayers
  innerLayers : (Layout.ofCircuit circuit).inner.mapM (InnerLayer.ofGroup circuit plan.slots
    options.tolerance.value options.maxPartitions) = .ok plan.innerLayers
  reductions : ∀ pool reduction, plan.reduction? pool = some reduction →
    Reduction.ofTies options.reduction (plan.slots.tiesOf pool) = .ok reduction
  numInputLayers : plan.inputLayers.length = (Layout.ofCircuit circuit).inputs.length

variable {circuit : Circuit} {options : Options} {plan : Plan}

theorem reduction_of_inputLayer {table : SlotTable} {index : Nat} {group : InputGroup}
    {layer : InputLayer} (success : inputLayer circuit options table index group = .ok layer) :
    Reduction.ofTies options.reduction (table.inputTies.getD index []) = .ok layer.reduction := by
  obtain ⟨reduction, made, success⟩ := bind_eq_ok.mp success
  rw [mapError_eq_ok, InputLayer.ofGroup] at success
  obtain ⟨_, -, success⟩ := bind_eq_ok.mp success
  obtain ⟨_, -, success⟩ := bind_eq_ok.mp success
  obtain ⟨_, -, success⟩ := bind_eq_ok.mp success
  rw [← pure_eq_ok.mp success]
  exact made

theorem ofCircuit_made (success : ofCircuit circuit options = .ok plan) :
    Made circuit options plan := by
  obtain ⟨-, success⟩ := unit_bind_eq_ok.mp success
  obtain ⟨slots, slotsOk, success⟩ := bind_eq_ok.mp success
  obtain ⟨inputLayers, inputsOk, success⟩ := bind_eq_ok.mp success
  obtain ⟨innerLayers, innerOk, success⟩ := bind_eq_ok.mp success
  obtain ⟨sumReduction, sumsOk, success⟩ := bind_eq_ok.mp success
  obtain rfl := pure_eq_ok.mp success
  have pairs := mapM_eq_ok.mp inputsOk
  refine ⟨rfl, mapError_eq_ok.mp slotsOk, inputsOk, mapError_eq_ok.mp innerOk, ?_, ?_⟩
  · intro pool reduction present
    cases pool with
    | sums =>
        obtain rfl := Option.some.inj present
        exact sumsOk
    | inputs index =>
        obtain ⟨layer, found, rfl⟩ := Option.map_eq_some_iff.mp present
        obtain ⟨⟨group, position⟩, indexed, made⟩ := forall₂_getElem? pairs found
        rw [List.getElem?_zipIdx, Option.map_eq_some_iff] at indexed
        obtain ⟨_, -, same⟩ := indexed
        obtain ⟨rfl, rfl⟩ := Prod.mk.inj same
        simp only [Nat.zero_add] at made
        exact reduction_of_inputLayer made
  · dsimp only
    rw [← pairs.length_eq, List.length_zipIdx]

theorem Made.exists_reduction (made : Made circuit options plan) {layer : Nat}
    (inside : layer < (Layout.ofCircuit circuit).inputs.length) :
    ∃ reduction, plan.reduction? (.inputs layer) = some reduction := by
  rw [← made.numInputLayers] at inside
  rw [reduction?, List.getElem?_eq_getElem inside]
  exact ⟨_, rfl⟩

end Plan
end CircuitPlan
