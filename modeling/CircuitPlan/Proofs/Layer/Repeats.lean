import CircuitPlan.Proofs.Circuit.Leaves
import CircuitPlan.Proofs.Circuit.Parents
import CircuitPlan.Proofs.Layer.Reverse

namespace CircuitPlan

variable {circuit : Circuit} {id child : NodeId}

namespace Circuit

/-- Which node vectors a child list can name more than once. -/
structure RepeatRules (circuit : Circuit) : Prop where
  sum : ∀ id < circuit.arena.length, (circuit.node id).kind = .sum →
    (circuit.node id).children.Nodup
  product : ∀ id < circuit.arena.length, (circuit.node id).kind = .product →
    ∀ child, 1 < (circuit.node id).children.count child → (circuit.node child).scope.vars = []
  reading : (∀ id dist, (circuit.node id).kind = .input dist → 0 < dist.numVars) →
    ∀ id < circuit.arena.length, (circuit.node id).tag ≠ .input → (circuit.node id).children.Nodup

namespace WellFormed

variable (wellFormed : circuit.WellFormed)
include wellFormed

theorem scope_of_repeated (bound : id < circuit.arena.length)
    (kind : (circuit.node id).kind = .product)
    (repeated : 1 < (circuit.node id).children.count child) :
    (circuit.node child).scope.vars = [] := by
  obtain ⟨-, -, apart, -⟩ := (wellFormed.sound id bound).kind_rules.of_product kind
  have twice : (List.replicate 2 child).Sublist (circuit.node id).children :=
    List.replicate_sublist_iff.mpr repeated
  have disjoint := List.pairwise_replicate.mp (apart.sublist twice)
  have alone : ∀ var ∈ (circuit.node child).scope.vars, var ∉ (circuit.node child).scope.vars :=
    Scope.disjoint_iff.mp (disjoint.resolve_left (by decide))
  exact List.eq_nil_iff_forall_not_mem.mpr fun var member => alone var member member

theorem scope_ne_nil (reading : ∀ id dist, (circuit.node id).kind = .input dist → 0 < dist.numVars)
    (bound : id < circuit.arena.length) : (circuit.node id).scope.vars ≠ [] := by
  induction id using Nat.strong_induction_on with
  | h id ih =>
      have admitted := wellFormed.sound id bound
      by_cases input : (circuit.node id).tag = .input
      · obtain ⟨dist, kind⟩ := Node.tag_eq_input.mp input
        have arity : (circuit.node id).scope.vars.length = dist.numVars :=
          admitted.kind_rules.of_input kind
        exact List.ne_nil_of_length_pos (arity ▸ reading id dist kind)
      · obtain ⟨child, isChild⟩ := List.exists_mem_of_ne_nil _ (admitted.children_ne_nil input)
        have earlier := admitted.children_earlier child isChild
        obtain ⟨var, member⟩ := List.exists_mem_of_ne_nil _
          (ih child earlier (Nat.lt_trans earlier bound))
        exact List.ne_nil_of_mem ((admitted.mem_scope input).mpr ⟨child, isChild, member⟩)

theorem repeatRules : circuit.RepeatRules := by
  constructor
  case sum =>
    intro id bound kind
    exact ((wellFormed.sound id bound).kind_rules.of_sum kind).2.2
  case product =>
    intro id bound kind child repeated
    exact wellFormed.scope_of_repeated bound kind repeated
  case reading =>
    intro reading id bound inner
    cases kind : (circuit.node id).kind with
    | input dist => exact absurd (Node.tag_eq_input.mpr ⟨dist, kind⟩) inner
    | sum => exact ((wellFormed.sound id bound).kind_rules.of_sum kind).2.2
    | product =>
        rw [List.nodup_iff_count_le_one]
        intro child
        by_contra repeated
        rw [Nat.not_le] at repeated
        have isChild := List.count_pos_iff.mp (Nat.lt_trans Nat.zero_lt_one repeated)
        have earlier := (wellFormed.sound id bound).children_earlier child isChild
        exact wellFormed.scope_ne_nil reading (Nat.lt_trans earlier bound)
          (wellFormed.scope_of_repeated bound kind repeated)

end WellFormed
end Circuit

variable {table : SlotTable} {served : List (Purpose × Span)} {kind : LayerKind}
  {layerGroup : InnerGroup} {layer : InnerLayer} {partition : Partition} {rows : List Row}
  {place group start : Nat}

structure Circuit.Feeds (circuit : Circuit) (child : NodeId) (place : Nat) (id : NodeId)
    (group : Nat) : Prop where
  isChild : child ∈ (circuit.node id).children
  place_lt : place < (circuit.node child).numGroups
  group_lt : group < (circuit.node id).numGroups
  place_eq : (circuit.node id).kind = .product → place = group

namespace Row

section Product

variable (isProduct : (circuit.node id).kind = .product)
include isProduct

theorem product_reads (table : SlotTable) (group : Nat) :
    (ofGroup circuit table .product id group).reads =
      (circuit.node id).children.map fun child => table.groupStart circuit child group := by
  rw [ofGroup_reads table (Layout.layerKind_eq_product.mpr isProduct), SlotTable.readsOf, isProduct]

theorem product_count (wellFormed : circuit.WellFormed) (filled : table.Filled circuit served)
    (reachable : id ∈ circuit.reachable) (inside : group < (circuit.node id).numGroups)
    (isChild : child ∈ (circuit.node id).children) :
    (ofGroup circuit table .product id group).reads.count (table.groupStart circuit child group) =
      (circuit.node id).children.count child := by
  have has_child (other : NodeId) (member : other ∈ (circuit.node id).children) :
      circuit.Has ⟨other, group, 0⟩ := by
    apply wellFormed.has_first (wellFormed.child_reachable reachable member)
    rw [(wellFormed.child_of_product reachable isProduct member).2]
    exact inside
  rw [product_reads isProduct, List.count_eq_countP, List.countP_map, List.count_eq_countP]
  apply List.countP_congr
  intro other member
  simp only [Function.comp_apply, beq_iff_eq]
  constructor
  · intro same
    exact congrArg Scalar.node
      (filled.slot_inj wellFormed (has_child other member) (has_child child isChild) same)
  · rintro rfl
    rfl

end Product

variable (wellFormed : circuit.WellFormed) (filled : table.Filled circuit served)
  (reachable : id ∈ circuit.reachable) (same : (circuit.node id).layerKind? = some kind)
include wellFormed reachable same

theorem mem_edges (feeds : circuit.Feeds child place id group) :
    table.groupStart circuit child place ∈
      (ofGroup circuit table kind id group).edges.map (·.1) := by
  cases kind with
  | product =>
      have isProduct := Layout.layerKind_eq_product.mp same
      rw [product_edges, product_reads isProduct, feeds.place_eq isProduct]
      exact List.mem_map_of_mem feeds.isChild
  | sum =>
      exact (mem_sum_children wellFormed (wellFormed.has_first reachable feeds.group_lt)
        (Layout.layerKind_eq_sum.mp same)).mpr ⟨child, feeds.isChild, place, feeds.place_lt, rfl⟩

include filled

theorem count_reads (feeds : circuit.Feeds child place id group) :
    (ofGroup circuit table kind id group).reads.count (table.groupStart circuit child place) =
      (circuit.node id).children.count child := by
  cases kind with
  | product =>
      have isProduct := Layout.layerKind_eq_product.mp same
      rw [feeds.place_eq isProduct]
      exact product_count isProduct wellFormed filled reachable feeds.group_lt feeds.isChild
  | sum =>
      have isSum := Layout.layerKind_eq_sum.mp same
      have has := wellFormed.has_first reachable feeds.group_lt
      obtain ⟨-, -, distinct⟩ := (wellFormed.admits reachable).kind_rules.of_sum isSum
      have childHas := wellFormed.has_first
        (wellFormed.child_reachable reachable feeds.isChild) feeds.place_lt
      have read : table.groupStart circuit child place ∈
          (ofGroup circuit table .sum id group).reads := by
        rw [← List.count_pos_iff, SlotTable.groupStart_eq_slot,
          ← sum_count wellFormed has isSum filled childHas rfl]
        exact List.count_pos_iff.mpr (mem_edges wellFormed reachable same feeds)
      rw [List.count_eq_one_of_mem (sum_reads_nodup wellFormed has isSum filled) read,
        List.count_eq_one_of_mem distinct feeds.isChild]

theorem exists_repeated (inside : group < (circuit.node id).numGroups)
    (repeated : 1 < (ofGroup circuit table kind id group).reads.count start) :
    (circuit.node id).kind = .product ∧ ∃ child, start = table.groupStart circuit child group ∧
      1 < (circuit.node id).children.count child := by
  cases kind with
  | product =>
      have isProduct := Layout.layerKind_eq_product.mp same
      have read := List.count_pos_iff.mp (Nat.lt_trans Nat.zero_lt_one repeated)
      rw [product_reads isProduct, List.mem_map] at read
      obtain ⟨child, isChild, rfl⟩ := read
      rw [product_count isProduct wellFormed filled reachable inside isChild] at repeated
      exact ⟨isProduct, child, rfl, repeated⟩
  | sum =>
      have distinct := sum_reads_nodup wellFormed (wellFormed.has_first reachable inside)
        (Layout.layerKind_eq_sum.mp same) filled
      exact absurd (List.nodup_iff_count_le_one.mp distinct start) (Nat.not_le.mpr repeated)

end Row

namespace Partition

/-- How often the rows of a partition and its reverse index name an edge, and why they can name
one again. -/
structure CountsEdges (circuit : Circuit) (table : SlotTable) (layer : InnerLayer)
    (partition : Partition) : Prop where
  reads : ∀ id ∈ layer.nodes, ∀ child place group, circuit.Feeds child place id group →
    ∀ row : Nat, partition.starts[row]? = some (table.groupStart circuit id group) →
      (partition.reads.valid row).count (table.groupStart circuit child place) =
        (circuit.node id).children.count child
  parents : ∀ id ∈ layer.nodes, ∀ child place group, circuit.Feeds child place id group →
    table.groupStart circuit id group ∈ partition.starts →
      ∃ index : Nat, partition.children[index]? = some (table.groupStart circuit child place) ∧
        (partition.parents.valid index).count (table.groupStart circuit id group) =
          (circuit.node id).children.count child
  repeated : ∀ index < partition.children.length, ∀ start,
    1 < (partition.parents.valid index).count start →
      ∃ id ∈ layer.nodes, (circuit.node id).kind = .product ∧
        ∃ group < (circuit.node id).numGroups, start = table.groupStart circuit id group ∧
          ∃ child, 1 < (circuit.node id).children.count child ∧
            partition.children[index]? = some (table.groupStart circuit child group)
  once : (∀ id ∈ layer.nodes, (circuit.node id).children.Nodup) →
    ∀ index < partition.children.length, (partition.parents.valid index).Nodup

variable (wellFormed : circuit.WellFormed) (filled : table.Filled circuit served)
  (member : layerGroup ∈ (Layout.ofCircuit circuit).inner)
  (rowsOf : RowsOf circuit table layerGroup partition rows)
include wellFormed filled member rowsOf

theorem RowsOf.exists_repeated {child start : Nat} (isChild : child ∈ childrenOf rows)
    (repeated : 1 < ((readers rows child).map (·.1)).count start) :
    ∃ id ∈ layerGroup.nodes, (circuit.node id).kind = .product ∧
      ∃ group < (circuit.node id).numGroups, start = table.groupStart circuit id group ∧
        ∃ factor, child = table.groupStart circuit factor group ∧
          1 < (circuit.node id).children.count factor := by
  have named := List.count_pos_iff.mp (Nat.lt_trans Nat.zero_lt_one repeated)
  obtain ⟨entry, isEntry, rfl⟩ := List.mem_map.mp named
  obtain ⟨row, isRow, same, -⟩ := mem_readers.mp isEntry
  rw [← same, count_readers rowsOf.ascending isRow,
    rowsOf.count_edges wellFormed filled member isChild isRow] at repeated
  obtain ⟨id, inside, group, bound, rfl⟩ := Row.mem_ofLayer.mp (rowsOf.of_layer row isRow)
  obtain ⟨reachable, -, kind⟩ := (Layout.mem_nodes_inner member).mp inside
  rw [Row.ofGroup_start] at same
  obtain ⟨isProduct, twice⟩ := Row.exists_repeated wellFormed filled reachable kind bound repeated
  exact ⟨id, inside, isProduct, group, bound, same.symm, twice⟩

theorem RowsOf.countsEdges (nodes_eq : layer.nodes = layerGroup.nodes) :
    partition.CountsEdges circuit table layer := by
  have children := rowsOf.matrices.children_eq
  have repeats : ∀ index < partition.children.length, ∀ start,
      1 < (partition.parents.valid index).count start →
        ∃ id ∈ layer.nodes, (circuit.node id).kind = .product ∧
          ∃ group < (circuit.node id).numGroups, start = table.groupStart circuit id group ∧
            ∃ child, 1 < (circuit.node id).children.count child ∧
              partition.children[index]? = some (table.groupStart circuit child group) := by
    intro index bound start repeated
    have found := List.getElem?_eq_getElem bound
    rw [rowsOf.parents_valid found] at repeated
    obtain ⟨id, inside, isProduct, group, within, same, child, isFactor, twice⟩ :=
      rowsOf.exists_repeated wellFormed filled member (children ▸ List.getElem_mem bound) repeated
    exact ⟨id, nodes_eq ▸ inside, isProduct, group, within, same, child, twice, isFactor ▸ found⟩
  rw [nodes_eq] at repeats
  constructor <;> rw [nodes_eq]
  case reads =>
    intro id inside child place group feeds row located
    obtain ⟨reachable, -, kind⟩ := (Layout.mem_nodes_inner member).mp inside
    have found := rowsOf.row_of_group wellFormed filled member inside feeds.group_lt located
    rw [rowsOf.reads_valid found]
    exact Row.count_reads wellFormed filled reachable kind feeds
  case parents =>
    intro id inside child place group feeds isStart
    obtain ⟨reachable, -, kind⟩ := (Layout.mem_nodes_inner member).mp inside
    obtain ⟨row, located⟩ := List.getElem?_of_mem isStart
    have found := rowsOf.row_of_group wellFormed filled member inside feeds.group_lt located
    have isRow := List.mem_of_getElem? found
    have isChild : table.groupStart circuit child place ∈ childrenOf rows :=
      mem_childrenOf.mpr ⟨_, isRow, Row.mem_edges wellFormed reachable kind feeds⟩
    obtain ⟨index, isIndex⟩ := List.getElem?_of_mem (children ▸ isChild)
    refine ⟨index, isIndex, ?_⟩
    rw [rowsOf.parents_valid isIndex, ← Row.ofGroup_start circuit table layerGroup.kind,
      count_readers rowsOf.ascending isRow,
      rowsOf.count_edges wellFormed filled member isChild isRow]
    exact Row.count_reads wellFormed filled reachable kind feeds
  case repeated => exact repeats
  case once =>
    intro distinct index bound
    rw [List.nodup_iff_count_le_one]
    intro start
    by_contra repeated
    obtain ⟨id, inside, -, group, -, -, child, twice, -⟩ :=
      repeats index bound start (Nat.not_le.mp repeated)
    exact Nat.not_le.mpr twice (List.nodup_iff_count_le_one.mp (distinct id inside) child)

end Partition

structure InnerLayer.CountsEdges (circuit : Circuit) (table : SlotTable) (layer : InnerLayer) :
    Prop where
  exists_row : ∀ id ∈ layer.nodes, ∀ group < (circuit.node id).numGroups,
    ∃! place, layer.start? place = some (table.groupStart circuit id group)
  partitions : ∀ partition ∈ layer.partitions, partition.CountsEdges circuit table layer

namespace Circuit

theorem Accepted.edges_counted (accepted : circuit.Accepted) :
    circuit.RepeatRules ∧ ∀ options plan, Plan.ofCircuit circuit options = .ok plan →
      ∀ layer ∈ plan.innerLayers, layer.CountsEdges circuit plan.slots := by
  have wellFormed := accepted.wellFormed
  refine ⟨wellFormed.repeatRules, ?_⟩
  intro options plan compiled layer isLayer
  have made := Plan.ofCircuit_made compiled
  obtain ⟨served, filled⟩ := SlotTable.exists_filled wellFormed made.slots
  obtain ⟨layerGroup, member, widths, bucketed⟩ := made.exists_bucketed isLayer
  constructor
  case exists_row => exact (bucketed.preservesEdges wellFormed filled member).exists_row
  case partitions =>
    intro partition isPartition
    obtain ⟨rows, rowsOf⟩ := bucketed.exists_rowsOf wellFormed filled member isPartition
    exact rowsOf.countsEdges wellFormed filled member bucketed.nodes_eq

theorem squared_edges_counted : squared.Accepted ∧ squared.RepeatRules ∧
    ∃ plan, Plan.ofCircuit squared {} = .ok plan ∧ plan.innerLayers ≠ [] ∧
      ∀ layer ∈ plan.innerLayers, layer.CountsEdges squared plan.slots := by
  have passes : (Plan.ofCircuit squared {}).toOption.any (fun plan =>
      decide (plan.innerLayers ≠ [])) = true := by decide +kernel
  obtain ⟨plan, compiled, present⟩ := exists_ok_of_any passes
  obtain ⟨rules, counts⟩ := Accepted.edges_counted squared_accepted
  exact ⟨squared_accepted, rules, plan, compiled, decide_eq_true_iff.mp present,
    counts {} plan compiled⟩

theorem squared_repeats : squared.Accepted ∧ (squared.node 2).kind = .product ∧
    ¬ (squared.node 2).children.Nodup ∧
    ∃ plan, Plan.ofCircuit squared {} = .ok plan ∧ ∃ layer ∈ plan.innerLayers,
      ∃ partition ∈ layer.partitions, ∃ index < partition.children.length,
        ¬ (partition.parents.valid index).Nodup := by
  have passes : (Plan.ofCircuit squared {}).toOption.any (fun plan =>
      decide (∃ layer ∈ plan.innerLayers, ∃ partition ∈ layer.partitions,
        ∃ index < partition.children.length,
          ¬ (partition.parents.valid index).Nodup)) = true := by decide +kernel
  obtain ⟨plan, compiled, repeated⟩ := exists_ok_of_any passes
  exact ⟨squared_accepted, rfl, by decide, plan, compiled, decide_eq_true_iff.mp repeated⟩

end Circuit
end CircuitPlan
