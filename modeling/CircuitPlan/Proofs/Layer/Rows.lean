import CircuitPlan.Layer.Inner
import CircuitPlan.Proofs.Slot.Table

namespace CircuitPlan

variable {circuit : Circuit} {table : SlotTable} {kind : LayerKind} {id : NodeId}

namespace SlotTable

theorem get_eq_ok {slots : NodeSlots} : table.get id = .ok slots ↔ table.get? id = some slots := by
  rw [get, elim_eq_ok]

theorem valuesAt_of_get {slots : NodeSlots} (found : table.get id = .ok slots) :
    slots.values = table.valuesAt id := by
  rw [valuesAt, get_eq_ok.mp found]
  rfl

end SlotTable

namespace Row

def ofGroup (circuit : Circuit) (table : SlotTable) (kind : LayerKind) (id : NodeId) (group : Nat) :
    Row :=
  let children := (circuit.node id).children
  let start := (table.valuesAt id).start
  match kind with
  | .product => ofProduct circuit.groupSize start
      (children.map fun child => (table.valuesAt child).start) group
  | .sum => ofSum circuit.groupSize start (table.paramsAt id).start
      (children.map fun child => ((table.valuesAt child).start, (circuit.node child).numNodes)) group

def ofTable (circuit : Circuit) (table : SlotTable) (kind : LayerKind) (id : NodeId) : List Row :=
  (List.range (circuit.node id).numGroups).map (ofGroup circuit table kind id)

theorem ofNode_eq {rows : List Row} (success : ofNode circuit table kind id = .ok rows) :
    rows = ofTable circuit table kind id := by
  rw [ofNode] at success
  obtain ⟨slots, found, success⟩ := bind_eq_ok.mp success
  obtain ⟨children, childrenFound, success⟩ := bind_eq_ok.mp success
  have starts : children.map (·.values.start) =
      (circuit.node id).children.map fun child => (table.valuesAt child).start := by
    apply mapM_map_eq childrenFound
    intro child childSlots childFound
    rw [SlotTable.valuesAt_of_get childFound]
  cases kind with
  | product =>
      have same := pure_eq_ok.mp success
      rw [← same, starts, SlotTable.valuesAt_of_get found]
      rfl
  | sum =>
      obtain ⟨params, paramsFound, success⟩ := bind_eq_ok.mp success
      have same := pure_eq_ok.mp success
      have reported : table.paramsAt id = params := by
        rw [SlotTable.paramsAt, SlotTable.get_eq_ok.mp found]
        rw [elim_eq_ok] at paramsFound
        rw [Option.bind_some, paramsFound, Option.getD_some]
      rw [← same, starts, SlotTable.valuesAt_of_get found, List.zip_map', ← reported]
      rfl

end Row

namespace InnerLayer

structure Made (circuit : Circuit) (table : SlotTable) (group : InnerGroup) (layer : InnerLayer)
    (parts : List (Nat × List Row)) : Prop where
  kind_eq : layer.kind = group.kind
  groupSize_eq : layer.groupSize = circuit.groupSize
  partitions : List.Forall₂ (fun part partition =>
    Partition.ofRows group.kind part.1 part.2 = .ok partition) parts layer.partitions
  mem_rows : ∀ row, (∃ part ∈ parts, row ∈ part.2) ↔
    ∃ id ∈ group.nodes, row ∈ Row.ofTable circuit table group.kind id

end InnerLayer
end CircuitPlan
