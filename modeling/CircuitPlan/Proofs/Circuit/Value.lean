import CircuitPlan.Arithmetic
import CircuitPlan.Proofs.Layout.Depth

/-!
# Values of scalar nodes

The value of a scalar node is defined by recursion over the circuit alone, from the values of inputs
and the parameters of sums. Neither layers nor slots play a part.
-/

namespace CircuitPlan

structure Scalar where
  node : NodeId
  group : Nat
  lane : Nat

namespace Circuit

def scalars (circuit : Circuit) (id : NodeId) : List Scalar :=
  (List.range (circuit.node id).numGroups).flatMap fun group =>
    (List.range circuit.groupSize).map fun lane => ⟨id, group, lane⟩

/-- The scalar nodes that feed a scalar node, child by child: the same place of each child for a
product, and all scalar nodes of the children for a sum. -/
def operands (circuit : Circuit) (scalar : Scalar) : List Scalar :=
  let node := circuit.node scalar.node
  match node.kind with
  | .input _ => []
  | .product => node.children.map fun child => ⟨child, scalar.group, scalar.lane⟩
  | .sum => node.children.flatMap circuit.scalars

structure Has (circuit : Circuit) (scalar : Scalar) : Prop where
  reachable : scalar.node ∈ circuit.reachable
  group_lt : scalar.group < (circuit.node scalar.node).numGroups
  lane_lt : scalar.lane < circuit.groupSize

section Value

variable {F : Type} [Arithmetic F]

def valueStep (circuit : Circuit) (leaf : Scalar → F) (weight : NodeId → Nat → F)
    (below : Scalar → F) (scalar : Scalar) : F :=
  let node := circuit.node scalar.node
  match node.kind with
  | .input _ => leaf scalar
  | .product => Arithmetic.sum ((circuit.operands scalar).map below)
  | .sum =>
      let fanIn := circuit.arena.fanIn node
      Arithmetic.logSumExp ((circuit.operands scalar).zipIdx.map fun (operand, edge) =>
        Arithmetic.add
          (Arithmetic.log (weight (circuit.owner scalar.node)
            ((scalar.group * fanIn + edge) * circuit.groupSize + scalar.lane)))
          (below operand))

/-- The value of a scalar node. Operands that do not come earlier count as zero; an accepted
circuit has none. -/
def value (circuit : Circuit) (leaf : Scalar → F) (weight : NodeId → Nat → F)
    (scalar : Scalar) : F :=
  circuit.valueStep leaf weight
    (fun operand =>
      if operand.node < scalar.node then value circuit leaf weight operand else Arithmetic.zero)
    scalar
termination_by scalar.node

variable {circuit : Circuit} {leaf : Scalar → F} {weight : NodeId → Nat → F}
  {scalar operand : Scalar} {id : NodeId}

theorem mem_scalars : scalar ∈ circuit.scalars id ↔ scalar.node = id ∧
    scalar.group < (circuit.node id).numGroups ∧ scalar.lane < circuit.groupSize := by
  rw [scalars, List.mem_flatMap]
  constructor
  · rintro ⟨group, groupMember, member⟩
    obtain ⟨lane, laneMember, rfl⟩ := List.mem_map.mp member
    exact ⟨rfl, List.mem_range.mp groupMember, List.mem_range.mp laneMember⟩
  · rintro ⟨rfl, group, lane⟩
    exact ⟨scalar.group, List.mem_range.mpr group,
      List.mem_map.mpr ⟨scalar.lane, List.mem_range.mpr lane, rfl⟩⟩

theorem child_of_mem_operands (member : operand ∈ circuit.operands scalar) :
    operand.node ∈ (circuit.node scalar.node).children := by
  unfold operands at member
  cases kind : (circuit.node scalar.node).kind with
  | input dist => simp [kind] at member
  | product =>
      simp only [kind, List.mem_map] at member
      obtain ⟨child, isChild, rfl⟩ := member
      exact isChild
  | sum =>
      simp only [kind, List.mem_flatMap] at member
      obtain ⟨child, isChild, inChild⟩ := member
      obtain ⟨rfl, -⟩ := mem_scalars.mp inChild
      exact isChild

theorem WellFormed.has_first (wellFormed : circuit.WellFormed) {id : NodeId} {group : Nat}
    (reachable : id ∈ circuit.reachable) (inside : group < (circuit.node id).numGroups) :
    circuit.Has ⟨id, group, 0⟩ :=
  ⟨reachable, inside, wellFormed.groupSize_pos⟩

theorem WellFormed.has_operand (wellFormed : circuit.WellFormed) (has : circuit.Has scalar)
    (member : operand ∈ circuit.operands scalar) : circuit.Has operand := by
  have isChild := child_of_mem_operands member
  have childReachable := wellFormed.child_reachable has.reachable isChild
  unfold operands at member
  cases kind : (circuit.node scalar.node).kind with
  | input dist => simp [kind] at member
  | product =>
      have groups := (wellFormed.child_of_product has.reachable kind isChild).2
      simp only [kind, List.mem_map] at member
      obtain ⟨child, -, rfl⟩ := member
      exact ⟨childReachable, groups ▸ has.group_lt, has.lane_lt⟩
  | sum =>
      simp only [kind, List.mem_flatMap] at member
      obtain ⟨child, -, inChild⟩ := member
      obtain ⟨rfl, group, lane⟩ := mem_scalars.mp inChild
      exact ⟨childReachable, group, lane⟩

theorem valueStep_congr {below other : Scalar → F}
    (same : ∀ operand ∈ circuit.operands scalar, below operand = other operand) :
    circuit.valueStep leaf weight below scalar = circuit.valueStep leaf weight other scalar := by
  unfold valueStep
  dsimp only
  cases (circuit.node scalar.node).kind with
  | input dist => rfl
  | product =>
      dsimp only
      rw [List.map_congr_left same]
  | sum =>
      dsimp only
      congr 1
      apply List.map_congr_left
      rintro ⟨operand, edge⟩ member
      rw [same operand (List.fst_mem_of_mem_zipIdx member)]

theorem WellFormed.value_eq (wellFormed : circuit.WellFormed)
    (reachable : scalar.node ∈ circuit.reachable) :
    circuit.value leaf weight scalar =
      circuit.valueStep leaf weight (circuit.value leaf weight) scalar := by
  rw [value]
  apply valueStep_congr
  intro operand member
  exact if_pos ((wellFormed.admits reachable).children_earlier _ (child_of_mem_operands member))

theorem value_input {dist : Distribution} (kind : (circuit.node scalar.node).kind = .input dist) :
    circuit.value leaf weight scalar = leaf scalar := by
  rw [value, valueStep, kind]

end Value

end Circuit
end CircuitPlan
