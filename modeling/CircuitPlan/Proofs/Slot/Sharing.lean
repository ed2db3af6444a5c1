import CircuitPlan.Slot.Table
import CircuitPlan.Proofs.Layout.Order

namespace CircuitPlan

namespace Circuit

def paramWidth (circuit : Circuit) (id : NodeId) : Nat :=
  let node := circuit.node id
  match node.kind with
  | .input dist => node.numNodes * dist.numParameters
  | .product => 0
  | .sum => node.numGroups * circuit.arena.fanIn node * node.groupSize

def flowWidth (circuit : Circuit) (id : NodeId) : Nat :=
  let node := circuit.node id
  match node.kind with
  | .input dist => node.numNodes * dist.numFlows
  | .product => 0
  | .sum => node.numGroups * circuit.arena.fanIn node * node.groupSize

def users (circuit : Circuit) (owner : NodeId) : List NodeId :=
  (Layout.ofCircuit circuit).order.filter fun id =>
    decide ((circuit.node id).tag ≠ .product) && circuit.owner id == owner

abbrev sharing (circuit : Circuit) : Sharing :=
  Sharing.ofOrder circuit (Layout.ofCircuit circuit).order

theorem members_eq_users (circuit : Circuit) (owner : NodeId) :
    circuit.sharing.members owner = circuit.users owner := by
  rw [users, Sharing.members, sharing, Sharing.ofOrder, List.filter_map, List.map_map,
    List.filter_filter]
  simp [Function.comp_def, Bool.and_comm]

theorem users_nodup (circuit : Circuit) (owner : NodeId) : (circuit.users owner).Nodup :=
  (Layout.order_nodup circuit).filter _

variable {circuit : Circuit} {id owner : NodeId}

theorem owner_of_untied (untied : (circuit.node id).tiedTo = none) : circuit.owner id = id := by
  rw [Circuit.owner, untied, Option.getD_none]

structure Owns (circuit : Circuit) (owner id : NodeId) : Prop where
  untied : (circuit.node owner).tiedTo = none
  tag_eq : (circuit.node owner).tag = (circuit.node id).tag
  signature_eq : Layout.signature? circuit owner = Layout.signature? circuit id
  paramWidth_eq : circuit.paramWidth owner = circuit.paramWidth id
  flowWidth_eq : circuit.flowWidth owner = circuit.flowWidth id

theorem owns_of_sameShapes (untied : (circuit.node owner).tiedTo = none)
    (groupSize : (circuit.node owner).groupSize = (circuit.node id).groupSize)
    (numGroups : (circuit.node owner).numGroups = (circuit.node id).numGroups)
    (shapes : circuit.arena.SameShapes (circuit.node owner) (circuit.node id)) :
    circuit.Owns owner id := by
  have numNodes : (circuit.node owner).numNodes = (circuit.node id).numNodes := by
    rw [Node.numNodes, Node.numNodes, groupSize, numGroups]
  have tag := Arena.tag_eq_of_sameShapes shapes
  unfold Arena.SameShapes at shapes
  cases first : (circuit.node owner).kind with
  | input origin =>
      cases second : (circuit.node id).kind with
      | input dist =>
          rw [first, second] at shapes
          obtain ⟨signature, params, flows⟩ := shapes
          refine ⟨untied, tag, ?_, ?_, ?_⟩
          · simp [Layout.signature?, first, second, NodeKind.dist?, signature]
          · simp [paramWidth, first, second, numNodes, params]
          · simp [flowWidth, first, second, numNodes, flows]
      | product => simp [first, second] at shapes
      | sum => simp [first, second] at shapes
  | product => simp [first] at shapes
  | sum =>
      cases second : (circuit.node id).kind with
      | input dist => simp [first, second] at shapes
      | product => simp [first, second] at shapes
      | sum =>
          rw [first, second] at shapes
          refine ⟨untied, tag, ?_, ?_, ?_⟩
          · simp [Layout.signature?, first, second, NodeKind.dist?]
          · simp [paramWidth, first, second, groupSize, numGroups, shapes]
          · simp [flowWidth, first, second, groupSize, numGroups, shapes]

theorem WellFormed.owns (wellFormed : circuit.WellFormed) (reachable : id ∈ circuit.reachable) :
    circuit.Owns (circuit.owner id) id := by
  cases tied : (circuit.node id).tiedTo with
  | none =>
      rw [owner_of_untied tied]
      exact ⟨tied, rfl, rfl, rfl, rfl⟩
  | some source =>
      have rules := (wellFormed.admits reachable).tie_rules source tied
      rw [Circuit.owner, tied, Option.getD_some]
      exact owns_of_sameShapes rules.untied rules.groupSize_eq rules.numGroups_eq rules.shapes

theorem WellFormed.owner_owner (wellFormed : circuit.WellFormed)
    (reachable : id ∈ circuit.reachable) :
    circuit.owner (circuit.owner id) = circuit.owner id :=
  owner_of_untied (wellFormed.owns reachable).untied

end Circuit

end CircuitPlan
