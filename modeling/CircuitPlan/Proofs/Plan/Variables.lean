import CircuitPlan.Proofs.Circuit.Leaves
import CircuitPlan.Proofs.Layer.Inputs

namespace CircuitPlan

variable {circuit : Circuit} {table : SlotTable} {served : List (Purpose × Span)}
  {options : Options} {plan : Plan} {id leaf : NodeId} {var : Nat}

namespace Circuit

/-- A variable of a child that an input lists. -/
def ReadsAside (circuit : Circuit) (var : Nat) : Prop :=
  ∃ id ∈ circuit.reachable, (circuit.node id).tag = .input ∧
    ∃ child ∈ (circuit.node id).children, var ∈ (circuit.node child).scope.vars

namespace WellFormed

variable (wellFormed : circuit.WellFormed)
include wellFormed

theorem leaf_reachable (isLeaf : circuit.IsLeaf leaf id) (reachable : id ∈ circuit.reachable) :
    leaf ∈ circuit.reachable ∧ (circuit.node leaf).tag = .input := by
  induction isLeaf with
  | input input => exact ⟨reachable, input⟩
  | inner _ isChild _ ih => exact ih (wellFormed.child_reachable reachable isChild)

theorem exists_input_of_scope (reachable : id ∈ circuit.reachable)
    (member : var ∈ (circuit.node id).scope.vars) :
    ∃ leaf ∈ circuit.reachable, (circuit.node leaf).tag = .input ∧
      var ∈ (circuit.node leaf).scope.vars := by
  rw [wellFormed.mem_scope_iff_reads (wellFormed.lt_length reachable)] at member
  obtain ⟨leaf, isLeaf, inLeaf⟩ := member
  obtain ⟨present, input⟩ := wellFormed.leaf_reachable isLeaf reachable
  exact ⟨leaf, present, input, inLeaf⟩

theorem scope_of_reachable (reachable : id ∈ circuit.reachable) :
    ∀ var ∈ (circuit.node id).scope.vars,
      var ∈ (circuit.node circuit.root).scope.vars ∨ circuit.ReadsAside var := by
  apply wellFormed.reachable_induction (motive := fun id => ∀ var ∈ (circuit.node id).scope.vars,
    var ∈ (circuit.node circuit.root).scope.vars ∨ circuit.ReadsAside var) _ _ reachable
  · exact fun var member => .inl member
  · intro parent present ih child isChild var member
    by_cases input : (circuit.node parent).tag = .input
    · exact .inr ⟨parent, present, input, child, isChild, member⟩
    · exact ih var (((wellFormed.admits present).mem_scope input).mpr ⟨child, isChild, member⟩)

theorem exists_input_iff :
    (∃ leaf ∈ circuit.reachable, (circuit.node leaf).tag = .input ∧
      var ∈ (circuit.node leaf).scope.vars) ↔
    var ∈ (circuit.node circuit.root).scope.vars ∨ circuit.ReadsAside var := by
  constructor
  · rintro ⟨leaf, reachable, -, member⟩
    exact wellFormed.scope_of_reachable reachable var member
  · rintro (member | ⟨id, reachable, -, child, isChild, member⟩)
    · exact wellFormed.exists_input_of_scope circuit.root_reachable member
    · exact wellFormed.exists_input_of_scope (wellFormed.child_reachable reachable isChild) member

theorem numNodes_pos (reachable : id ∈ circuit.reachable) : 0 < (circuit.node id).numNodes := by
  have admitted := wellFormed.admits reachable
  have positive := wellFormed.groupSize_pos
  rw [← admitted.groupSize_eq] at positive
  exact Nat.mul_pos admitted.numGroups_pos positive

end WellFormed
end Circuit

namespace InputLayer

def varsRead (layer : InputLayer) : List Nat := layer.vars.data.filter (· != padding)

theorem Made.mem_varsRead {group : InputGroup} {layer : InputLayer}
    (made : Made circuit table group layer) (wellFormed : circuit.WellFormed) :
    var ∈ layer.varsRead ↔ ∃ id ∈ layer.nodes, var ∈ (circuit.node id).scope.vars := by
  rw [varsRead, PaddedMatrix.entries_eq made.matrix, ← made.nodes_eq, List.mem_flatten]
  simp only [List.mem_map]
  constructor
  · rintro ⟨_, ⟨place, isPlace, rfl⟩, member⟩
    exact ⟨place.1, (Circuit.mem_places.mp isPlace).1, member⟩
  · rintro ⟨id, inside, member⟩
    have first := wellFormed.numNodes_pos (made.kind_of_mem inside).1
    exact ⟨_, ⟨(id, 0), Circuit.mem_places.mpr ⟨inside, first⟩, rfl⟩, member⟩

end InputLayer

namespace Plan

def varsRead (plan : Plan) : List Nat := plan.inputLayers.flatMap (·.varsRead)

theorem Made.mem_varsRead (made : Made circuit options plan) (wellFormed : circuit.WellFormed)
    (filled : plan.slots.Filled circuit served) :
    var ∈ plan.varsRead ↔ ∃ leaf ∈ circuit.reachable, (circuit.node leaf).tag = .input ∧
      var ∈ (circuit.node leaf).scope.vars := by
  have groups := made.groups_eq filled
  rw [varsRead, List.mem_flatMap]
  constructor
  · rintro ⟨layer, isLayer, member⟩
    obtain ⟨index, found⟩ := List.getElem?_of_mem isLayer
    obtain ⟨-, group, layerMade⟩ := made.exists_inputLayer filled found
    obtain ⟨leaf, inside, member⟩ := (layerMade.mem_varsRead wellFormed).mp member
    obtain ⟨reachable, dist, kind⟩ := layerMade.kind_of_mem inside
    exact ⟨leaf, reachable, Node.tag_eq_input.mpr ⟨dist, kind⟩, member⟩
  · rintro ⟨leaf, reachable, input, member⟩
    obtain ⟨group, isGroup, inside⟩ := Layout.exists_inputs reachable input
    rw [← groups] at isGroup
    obtain ⟨layer, isLayer, rfl⟩ := List.mem_map.mp isGroup
    obtain ⟨index, found⟩ := List.getElem?_of_mem isLayer
    obtain ⟨-, group, layerMade⟩ := made.exists_inputLayer filled found
    exact ⟨layer, isLayer, (layerMade.mem_varsRead wellFormed).mpr ⟨leaf, inside, member⟩⟩

theorem mem_varsRead_ofCircuit (accepted : circuit.Accepted)
    (compiled : ofCircuit circuit options = .ok plan) :
    (∀ var, var ∈ plan.varsRead ↔
      var ∈ (circuit.node circuit.root).scope.vars ∨ circuit.ReadsAside var) ∧
    ((∀ id ∈ circuit.reachable, (circuit.node id).tag = .input →
        (circuit.node id).children = []) →
      ∀ var, var ∈ plan.varsRead ↔ var ∈ (circuit.node circuit.root).scope.vars) := by
  have wellFormed := accepted.wellFormed
  have made := ofCircuit_made compiled
  obtain ⟨served, filled⟩ := SlotTable.exists_filled wellFormed made.slots
  have exact (var : Nat) : var ∈ plan.varsRead ↔
      var ∈ (circuit.node circuit.root).scope.vars ∨ circuit.ReadsAside var :=
    (made.mem_varsRead wellFormed filled).trans wellFormed.exists_input_iff
  refine ⟨exact, ?_⟩
  intro childless var
  rw [exact]
  apply or_iff_left
  rintro ⟨id, reachable, input, child, isChild, -⟩
  rw [childless id reachable input] at isChild
  exact List.not_mem_nil isChild

theorem twin_varsRead : ∃ plan, ofCircuit Circuit.twin {} = .ok plan ∧
    ∀ var, var ∈ plan.varsRead ↔ var ∈ [0, 1, 2, 3] := by
  have passes : (ofCircuit Circuit.twin {}).isOk = true := by decide +kernel
  obtain ⟨plan, compiled⟩ := exists_of_isOk passes
  have childless : ∀ id ∈ Circuit.twin.reachable, (Circuit.twin.node id).tag = .input →
      (Circuit.twin.node id).children = [] := by decide +kernel
  exact ⟨plan, compiled, (mem_varsRead_ofCircuit Circuit.twin_accepted compiled).2 childless⟩

end Plan

def Circuit.adopting : Circuit :=
  let node (kind : NodeKind) (var : Nat) (children : List NodeId) : Node :=
    { kind, scope := .ofList [var], numGroups := 1, groupSize := 1, children }
  ⟨1, [node (.input .bernoulli) 0 [], node (.input .bernoulli) 1 [0], node .product 1 [1],
    node .sum 1 [2]], 3⟩

theorem Plan.adopting_varsRead : ∃ plan,
    Circuit.ofArena 1 Circuit.adopting.arena 3 = .ok Circuit.adopting ∧
      Plan.ofCircuit Circuit.adopting {} = .ok plan ∧
      ¬ ∀ var, var ∈ plan.varsRead ↔
        var ∈ (Circuit.adopting.node Circuit.adopting.root).scope.vars := by
  have checked : (Circuit.ofArena 1 Circuit.adopting.arena 3).isOk = true := by decide +kernel
  have passes : (Plan.ofCircuit Circuit.adopting {}).toOption.any (fun plan =>
      decide (0 ∈ plan.varsRead)) = true := by decide +kernel
  obtain ⟨circuit, accepted⟩ := exists_of_isOk checked
  obtain rfl := (Circuit.ofArena_eq_ok.mp accepted).2.2.2
  obtain ⟨plan, compiled, foreign⟩ := exists_ok_of_any passes
  refine ⟨plan, accepted, compiled, ?_⟩
  intro same
  have absent : 0 ∉ (Circuit.adopting.node Circuit.adopting.root).scope.vars := by decide
  exact absent ((same 0).mp (of_decide_eq_true foreign))

end CircuitPlan
