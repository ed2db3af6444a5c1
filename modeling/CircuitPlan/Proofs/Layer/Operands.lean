import Mathlib.Data.List.Nodup
import CircuitPlan.Proofs.Layer.Edges

namespace CircuitPlan

theorem getElem?_flatMap {α β : Type} {xs : List α} {f : α → List β} {width : Nat}
    (positive : 0 < width) (uniform : ∀ x ∈ xs, (f x).length = width) (index : Nat) :
    (xs.flatMap f)[index]? = (xs[index / width]?).bind fun x => (f x)[index % width]? := by
  induction xs generalizing index with
  | nil => simp
  | cons x xs ih =>
      have length := uniform x List.mem_cons_self
      rw [List.flatMap_cons, List.getElem?_append, length]
      split
      case isTrue inside =>
        rw [Nat.div_eq_of_lt inside, Nat.mod_eq_of_lt inside]
        rfl
      case isFalse beyond =>
        have later := Nat.le_of_not_lt beyond
        rw [ih fun y member => uniform y (List.mem_cons_of_mem _ member),
          Nat.div_eq_sub_div positive later, Nat.mod_eq_sub_mod later]
        rfl

variable {circuit : Circuit} {table : SlotTable} {served : List (Purpose × Span)} {id : NodeId}
  {scalar other operand : Scalar}

namespace SlotTable

theorem Filled.slot_inj (filled : table.Filled circuit served) (wellFormed : circuit.WellFormed)
    (has : circuit.Has scalar) (hasOther : circuit.Has other)
    (same : table.slot circuit scalar = table.slot circuit other) : scalar = other := by
  have inside := filled.slot_inside wellFormed has
  have otherInside := filled.slot_inside wellFormed hasOther
  rw [← same] at otherInside
  obtain ⟨node, group, lane⟩ := scalar
  obtain ⟨otherNode, otherGroup, otherLane⟩ := other
  have sameNode : node = otherNode := by
    by_contra different
    exact (filled.values_apart wellFormed has.reachable hasOther.reachable different).not_contains
      inside otherInside
  subst sameNode
  have laneLt := has.lane_lt
  have otherLaneLt := hasOther.lane_lt
  simp only [slot, Nat.add_assoc, Nat.add_right_inj] at same laneLt otherLaneLt
  have sameLane : lane = otherLane := by
    have rest := congrArg (· % circuit.groupSize) same
    simpa [Nat.mod_eq_of_lt laneLt, Nat.mod_eq_of_lt otherLaneLt] using rest
  subst sameLane
  rw [Nat.add_right_cancel_iff, Nat.mul_left_inj (Nat.ne_of_gt wellFormed.groupSize_pos)] at same
  rw [same]

theorem groupStart_eq_slot (circuit : Circuit) (table : SlotTable) (id : NodeId) (group : Nat) :
    table.groupStart circuit id group = table.slot circuit ⟨id, group, 0⟩ := rfl

end SlotTable

namespace Circuit

theorem scalars_nodup (circuit : Circuit) (id : NodeId) : (circuit.scalars id).Nodup := by
  rw [scalars, List.nodup_flatMap]
  constructor
  · intro group _
    refine List.nodup_range.map ?_
    intro lane otherLane same
    exact congrArg Scalar.lane same
  · refine List.nodup_range.imp ?_
    intro group otherGroup different scalar left right
    obtain ⟨_, -, rfl⟩ := List.mem_map.mp left
    obtain ⟨_, -, same⟩ := List.mem_map.mp right
    exact different (congrArg Scalar.group same).symm

def blocks (circuit : Circuit) (id : NodeId) : List (NodeId × Nat) :=
  (circuit.node id).children.flatMap fun child =>
    (List.range (circuit.node child).numGroups).map (child, ·)

section Sum

variable (kind : (circuit.node scalar.node).kind = .sum)
include kind

theorem operands_eq_blocks : circuit.operands scalar =
    (circuit.blocks scalar.node).flatMap fun block =>
      (List.range circuit.groupSize).map fun lane => ⟨block.1, block.2, lane⟩ := by
  simp only [operands, kind, blocks, List.flatMap_assoc, List.flatMap_map]
  rfl

theorem mem_operands : operand ∈ circuit.operands scalar ↔
    operand.node ∈ (circuit.node scalar.node).children ∧
      operand.group < (circuit.node operand.node).numGroups ∧ operand.lane < circuit.groupSize := by
  simp only [operands, kind, List.mem_flatMap, mem_scalars]
  constructor
  · rintro ⟨child, isChild, rfl, inside⟩
    exact ⟨isChild, inside⟩
  · rintro ⟨isChild, inside⟩
    exact ⟨operand.node, isChild, rfl, inside⟩

theorem operands_nodup (wellFormed : circuit.WellFormed)
    (reachable : scalar.node ∈ circuit.reachable) : (circuit.operands scalar).Nodup := by
  obtain ⟨-, -, distinct⟩ := (wellFormed.admits reachable).kind_rules.of_sum kind
  simp only [operands, kind, List.nodup_flatMap]
  refine ⟨fun child _ => circuit.scalars_nodup child, distinct.imp ?_⟩
  intro child otherChild different operand left right
  exact different ((mem_scalars.mp left).1.symm.trans (mem_scalars.mp right).1)

theorem operands_lane (wellFormed : circuit.WellFormed) {position : Nat}
    (found : (circuit.operands scalar)[position]? = some operand) (first : operand.lane = 0)
    {lane : Nat} (bound : lane < circuit.groupSize) :
    (circuit.operands scalar)[position + lane]? = some ⟨operand.node, operand.group, lane⟩ := by
  have uniform : ∀ block ∈ circuit.blocks scalar.node,
      ((List.range circuit.groupSize).map fun lane => Scalar.mk block.1 block.2 lane).length =
        circuit.groupSize := by
    intro block _
    rw [List.length_map, List.length_range]
  have positive := wellFormed.groupSize_pos
  rw [operands_eq_blocks kind, getElem?_flatMap positive uniform, Option.bind_eq_some_iff]
    at found
  obtain ⟨block, blockFound, inBlock⟩ := found
  rw [List.getElem?_map, List.getElem?_range (Nat.mod_lt _ positive), Option.map_some,
    Option.some.injEq] at inBlock
  subst inBlock
  have start : position = circuit.groupSize * (position / circuit.groupSize) := by
    rw [Nat.mul_div_cancel' (Nat.dvd_of_mod_eq_zero first)]
  rw [operands_eq_blocks kind, getElem?_flatMap positive uniform, start,
    Nat.mul_add_div positive, Nat.div_eq_of_lt bound, Nat.add_zero, Nat.mul_add_mod,
    Nat.mod_eq_of_lt bound, blockFound, Option.bind_some, List.getElem?_map,
    List.getElem?_range bound]
  rfl

end Sum

end Circuit

namespace Row

variable (wellFormed : circuit.WellFormed)
include wellFormed

theorem sum_backEdges (table : SlotTable) (has : circuit.Has scalar)
    (kind : (circuit.node scalar.node).kind = .sum) :
    (ofGroup circuit table .sum scalar.node scalar.group).edges =
      ((circuit.operands scalar).zipIdx.filter fun entry => entry.1.lane == 0).map fun entry =>
        (table.slot circuit entry.1, table.paramOf circuit scalar.node scalar.group entry.2) := by
  simp only [ofGroup, ofSum]
  rw [length_scalars, scalars_marked wellFormed table has kind,
    range_fanIn wellFormed table has kind, List.zip_map, ← List.zipIdx_eq_zip_range',
    List.filter_map, List.map_map]
  simp only [Function.comp_def, Prod.map, SlotTable.paramOf, Nat.add_mul, Nat.add_assoc]

end Row
end CircuitPlan
