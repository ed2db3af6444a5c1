import CircuitPlan.Proofs.Layer.Buckets
import CircuitPlan.Proofs.Layer.Lanes
import CircuitPlan.Proofs.Plan

/-!
# Edges of a layer

The rows of an inner layer are the groups of its node vectors. Each group has one row, which reads
the operands of the group in order and lies in the narrowest partition that is wide enough.
-/

namespace CircuitPlan

variable {circuit : Circuit} {table : SlotTable} {served : List (Purpose × Span)}
  {group : InnerGroup} {layer : InnerLayer} {partition : Partition} {widths : List Nat}
  {kind : LayerKind} {id : NodeId} {row : Row} {width : Nat}

namespace SlotTable

def groupStart (circuit : Circuit) (table : SlotTable) (id : NodeId) (group : Nat) : Nat :=
  (table.valuesAt id).start + group * circuit.groupSize

/-- The value offsets that a group reads: the same group of each child for a product, and every
scalar node of the children, child by child, for a sum. -/
def readsOf (circuit : Circuit) (table : SlotTable) (id : NodeId) (group : Nat) : List Nat :=
  let node := circuit.node id
  match node.kind with
  | .input _ => []
  | .product => node.children.map fun child => table.groupStart circuit child group
  | .sum => node.children.flatMap fun child =>
      (List.range (circuit.node child).numNodes).map ((table.valuesAt child).start + ·)

def paramOf (circuit : Circuit) (table : SlotTable) (id : NodeId) (group edge : Nat) : Nat :=
  (table.paramsAt id).start +
    (group * circuit.arena.fanIn (circuit.node id) + edge) * circuit.groupSize

theorem groupStart_lt_stop (wellFormed : circuit.WellFormed) (filled : table.Filled circuit served)
    (reachable : id ∈ circuit.reachable) {index : Nat}
    (inside : index < (circuit.node id).numGroups) :
    table.groupStart circuit id index < (table.valuesAt id).stop := by
  have bound := filled.group_inside wellFormed (wellFormed.has_first reachable inside)
  exact Nat.lt_of_lt_of_le (Nat.lt_add_of_pos_right wellFormed.groupSize_pos) bound

end SlotTable

/-! ## Rows of a layer -/

namespace Row

theorem ofGroup_start (circuit : Circuit) (table : SlotTable) (kind : LayerKind) (id : NodeId)
    (index : Nat) :
    (ofGroup circuit table kind id index).start = table.groupStart circuit id index := by
  cases kind <;> rfl

theorem start_ne_padding (wellFormed : circuit.WellFormed) (filled : table.Filled circuit served)
    (kind : LayerKind) {scalar : Scalar} (has : circuit.Has scalar) :
    (ofGroup circuit table kind scalar.node scalar.group).start ≠ padding := by
  have below := SlotTable.groupStart_lt_stop wellFormed filled has.reachable has.group_lt
  rw [ofGroup_start]
  exact Nat.ne_of_lt (Nat.lt_trans below (filled.values_width wellFormed has.reachable).2)

theorem ofGroup_reads (table : SlotTable) (same : (circuit.node id).layerKind? = some kind)
    (index : Nat) :
    (ofGroup circuit table kind id index).reads = table.readsOf circuit id index := by
  cases kind with
  | product =>
      rw [SlotTable.readsOf, Layout.layerKind_eq_product.mp same]
      simp [ofGroup, ofProduct, SlotTable.groupStart, Function.comp_def]
  | sum =>
      rw [SlotTable.readsOf, Layout.layerKind_eq_sum.mp same]
      simp [ofGroup, ofSum, scalars, List.map_flatMap, List.flatMap_map, Function.comp_def]

theorem mem_ofLayer : row ∈ ofLayer circuit table group ↔ ∃ id ∈ group.nodes,
    ∃ index < (circuit.node id).numGroups, row = ofGroup circuit table group.kind id index := by
  rw [ofLayer, List.mem_flatMap]
  constructor
  · rintro ⟨id, inside, member⟩
    obtain ⟨index, bound, rfl⟩ := List.mem_map.mp member
    exact ⟨id, inside, index, List.mem_range.mp bound, rfl⟩
  · rintro ⟨id, inside, index, bound, rfl⟩
    exact ⟨id, inside, List.mem_map.mpr ⟨index, List.mem_range.mpr bound, rfl⟩⟩

theorem ofLayer_spaced (wellFormed : circuit.WellFormed) (filled : table.Filled circuit served)
    (member : group ∈ (Layout.ofCircuit circuit).inner) :
    (ofLayer circuit table group).Pairwise fun before after =>
      before.start + circuit.groupSize ≤ after.start := by
  rw [ofLayer, List.pairwise_flatMap]
  constructor
  · intro id _
    rw [ofTable, List.pairwise_map]
    refine List.pairwise_lt_range.imp ?_
    intro low high lower
    rw [ofGroup_start, ofGroup_start, SlotTable.groupStart, Nat.add_assoc, ← Nat.succ_mul]
    exact Nat.add_le_add_left (Nat.mul_le_mul_right _ lower) _
  · have kept : group.nodes.Sublist (Layout.ofCircuit circuit).order := by
      have inOrder := List.sublist_flatten_of_mem (List.mem_map_of_mem (f := (·.nodes)) member)
      rw [← List.flatMap_def] at inOrder
      exact inOrder.trans (List.sublist_append_right _ _)
    have ordered := List.pairwise_map.mp (filled.values_consecutive wellFormed).ordered
    refine (ordered.sublist kept).imp_of_mem ?_
    intro before after beforeInside afterInside earlier first isFirst second isSecond
    obtain ⟨low, lowBound, rfl⟩ := List.mem_map.mp isFirst
    obtain ⟨high, -, rfl⟩ := List.mem_map.mp isSecond
    rw [ofGroup_start, ofGroup_start]
    have reachable := ((Layout.mem_nodes_inner member).mp beforeInside).1
    have inside := filled.group_inside wellFormed
      (wellFormed.has_first reachable (List.mem_range.mp lowBound))
    exact Nat.le_trans inside (Nat.le_trans earlier (Nat.le_add_right _ _))

theorem ofLayer_ascending (wellFormed : circuit.WellFormed) (filled : table.Filled circuit served)
    (member : group ∈ (Layout.ofCircuit circuit).inner) :
    (ofLayer circuit table group).Pairwise fun before after => before.start < after.start :=
  (ofLayer_spaced wellFormed filled member).imp fun spaced =>
    Nat.lt_of_lt_of_le (Nat.lt_add_of_pos_right wellFormed.groupSize_pos) spaced

theorem ofLayer_nodup (wellFormed : circuit.WellFormed) (filled : table.Filled circuit served)
    (member : group ∈ (Layout.ofCircuit circuit).inner) : (ofLayer circuit table group).Nodup := by
  refine (ofLayer_ascending wellFormed filled member).imp ?_
  rintro row _ earlier rfl
  exact Nat.lt_irrefl _ earlier

theorem eq_of_start_eq {rows : List Row}
    (ascending : rows.Pairwise fun before after => before.start < after.start) {other : Row}
    (member : row ∈ rows) (otherMember : other ∈ rows) (same : row.start = other.start) :
    row = other := by
  have starts : (rows.map (·.start)).Nodup :=
    List.pairwise_map.mpr (ascending.imp Nat.ne_of_lt)
  exact List.inj_on_of_nodup_map starts member otherMember same

theorem buckets_perm {rows : List Row} (distinct : rows.Nodup)
    (serves : Widths.Serves (rows.map (·.reads.length)) widths) :
    (widths.flatMap (bucket widths rows)).Perm rows := by
  rw [List.perm_ext_iff_of_nodup _ distinct]
  · intro row
    rw [List.mem_flatMap]
    constructor
    · rintro ⟨width, -, member⟩
      exact (mem_bucket.mp member).1
    · intro member
      obtain ⟨width, isWidth, narrowest⟩ := exists_narrowest serves member
      exact ⟨width, isWidth, mem_bucket.mpr ⟨member, narrowest⟩⟩
  · rw [List.nodup_flatMap]
    refine ⟨fun width _ => distinct.filter _, serves.ascending.imp_of_mem ?_⟩
    intro width other isWidth isOther lower row inWidth inOther
    have same := (mem_bucket.mp inWidth).2.unique (mem_bucket.mp inOther).2 isWidth isOther
    exact Nat.ne_of_lt lower same

end Row

/-! ## Rows of a partition -/

namespace Partition

/-- A row of a partition stands for a group of a node vector. Its padding comes after its
entries. -/
structure Represents (circuit : Circuit) (table : SlotTable) (partition : Partition) (index : Nat)
    (id : NodeId) (group : Nat) : Prop where
  reads : partition.reads.valid index = table.readsOf circuit id group
  row : partition.reads.row index = table.readsOf circuit id group ++
    List.replicate (partition.width - (table.readsOf circuit id group).length) padding
  params : (circuit.node id).kind = .sum → ∃ params : PaddedMatrix, partition.params = some params ∧
    (params.row index).length = (partition.reads.row index).length ∧
    (∀ column : Nat, (params.row index)[column]? = some padding ↔
      (partition.reads.row index)[column]? = some padding) ∧
    ∀ edge < (table.readsOf circuit id group).length,
      (params.row index)[edge]? = some (table.paramOf circuit id group edge) ∧
      (table.paramsAt id).start ≤ table.paramOf circuit id group edge ∧
      table.paramOf circuit id group edge + circuit.groupSize ≤ (table.paramsAt id).stop

structure RowsOf (circuit : Circuit) (table : SlotTable) (group : InnerGroup)
    (partition : Partition) (rows : List Row) : Prop where
  made : ofRows group.kind partition.width rows = .ok partition
  nonempty : rows ≠ []
  ascending : rows.Pairwise fun before after => before.start < after.start
  of_layer : ∀ row ∈ rows, row ∈ Row.ofLayer circuit table group

section RowsOf

variable {rows : List Row} (rowsOf : RowsOf circuit table group partition rows)
include rowsOf

theorem RowsOf.matrices : Made group.kind partition.width rows partition :=
  ofRows_eq_ok.mp rowsOf.made

theorem RowsOf.exists_row {index start : Nat} (located : partition.starts[index]? = some start) :
    ∃ row, rows[index]? = some row ∧ row.start = start := by
  rw [rowsOf.matrices.starts_eq, List.getElem?_map, Option.map_eq_some_iff] at located
  exact located

theorem RowsOf.reads_valid {index : Nat} (found : rows[index]? = some row) :
    partition.reads.valid index = row.reads :=
  PaddedMatrix.valid_eq rowsOf.matrices.reads found

theorem RowsOf.exists_scalar (wellFormed : circuit.WellFormed)
    (member : group ∈ (Layout.ofCircuit circuit).inner) (isRow : row ∈ rows) :
    ∃ scalar, circuit.Has scalar ∧ scalar.lane = 0 ∧ scalar.node ∈ group.nodes ∧
      (circuit.node scalar.node).layerKind? = some group.kind ∧
      row = Row.ofGroup circuit table group.kind scalar.node scalar.group := by
  obtain ⟨id, inside, place, bound, rfl⟩ := Row.mem_ofLayer.mp (rowsOf.of_layer row isRow)
  obtain ⟨reachable, -, same⟩ := (Layout.mem_nodes_inner member).mp inside
  exact ⟨⟨id, place, 0⟩, wellFormed.has_first reachable bound, rfl, inside, same, rfl⟩

theorem RowsOf.row_of_group (wellFormed : circuit.WellFormed) (filled : table.Filled circuit served)
    (member : group ∈ (Layout.ofCircuit circuit).inner) {index place : Nat}
    (inside : id ∈ group.nodes) (bound : place < (circuit.node id).numGroups)
    (located : partition.starts[index]? = some (table.groupStart circuit id place)) :
    rows[index]? = some (Row.ofGroup circuit table group.kind id place) := by
  obtain ⟨row, found, same⟩ := rowsOf.exists_row located
  have isRow : Row.ofGroup circuit table group.kind id place ∈ Row.ofLayer circuit table group :=
    Row.mem_ofLayer.mpr ⟨id, inside, place, bound, rfl⟩
  rw [← Row.ofGroup_start circuit table group.kind] at same
  rw [← Row.eq_of_start_eq (Row.ofLayer_ascending wellFormed filled member)
    (rowsOf.of_layer row (List.mem_of_getElem? found)) isRow same]
  exact found

end RowsOf

theorem represents_of_ofRows (wellFormed : circuit.WellFormed)
    (filled : table.Filled circuit served) {rows : List Row}
    (made : ofRows kind width rows = .ok partition) (reachable : id ∈ circuit.reachable)
    (same : (circuit.node id).layerKind? = some kind) {place index : Nat}
    (inside : place < (circuit.node id).numGroups)
    (found : rows[index]? = some (Row.ofGroup circuit table kind id place)) :
    partition.Represents circuit table index id place := by
  have matrices := ofRows_eq_ok.mp made
  have isRow := List.mem_of_getElem? found
  obtain ⟨readsShort, readsFree⟩ := PaddedMatrix.row_fits matrices.reads isRow
  have readsRow := PaddedMatrix.row_eq matrices.reads found
  have readsValid := PaddedMatrix.valid_eq matrices.reads found
  rw [Row.ofGroup_reads table same] at readsShort readsFree readsRow readsValid
  constructor
  case reads => exact readsValid
  case row =>
    rw [readsRow, matrices.width_eq]
    rfl
  case params =>
    intro sum
    have isSum : kind = .sum := by
      rw [Layout.layerKind_eq_sum.mpr sum, Option.some.injEq] at same
      exact same.symm
    subst isSum
    obtain ⟨matrix, present, matrixOk⟩ := matrices.exists_params rfl
    have count : (table.readsOf circuit id place).length =
        circuit.arena.fanIn (circuit.node id) := by
      rw [← Row.ofGroup_reads table same, ← Row.length_scalars circuit table id]
      simp [Row.ofGroup, Row.ofSum]
    obtain ⟨short, free⟩ := PaddedMatrix.row_fits matrixOk isRow
    have paramsRow := PaddedMatrix.row_eq matrixOk found
    rw [Row.params_eq] at short free paramsRow
    refine ⟨matrix, present, ?_, ?_, ?_⟩
    · rw [paramsRow, readsRow, PaddedMatrix.length_padRow short,
        PaddedMatrix.length_padRow readsShort]
    · intro column
      rw [paramsRow, readsRow, PaddedMatrix.padRow_eq_padding short free,
        PaddedMatrix.padRow_eq_padding readsShort readsFree, List.length_map, List.length_range,
        count]
    · intro edge bound
      rw [count] at bound
      refine ⟨?_, Nat.le_add_right _ _, ?_⟩
      · rw [paramsRow, PaddedMatrix.padRow, List.getElem?_append_left (by simpa using bound),
          List.getElem?_map, List.getElem?_range bound, Option.map_some]
        rfl
      · have has := wellFormed.has_first reachable inside
        exact Row.param_in_range wellFormed filled has sum bound

end Partition

/-! ## Partitions of a layer -/

namespace InnerLayer

def start? (layer : InnerLayer) (place : Nat × Nat) : Option Nat :=
  (layer.partitions[place.1]?).bind fun partition => partition.starts[place.2]?

/-- The rows of a layer are the groups of its node vectors, with the edges of the circuit. -/
structure PreservesEdges (circuit : Circuit) (table : SlotTable) (layer : InnerLayer) : Prop where
  kind_eq : ∀ id ∈ layer.nodes, (circuit.node id).layerKind? = some layer.kind
  exists_row : ∀ id ∈ layer.nodes, ∀ group < (circuit.node id).numGroups,
    ∃! place, layer.start? place = some (table.groupStart circuit id group)
  of_row : ∀ place start, layer.start? place = some start → ∃ id ∈ layer.nodes,
    ∃ group < (circuit.node id).numGroups, start = table.groupStart circuit id group
  represents : ∀ partition ∈ layer.partitions, ∀ index : Nat, ∀ id ∈ layer.nodes,
    ∀ group < (circuit.node id).numGroups,
      partition.starts[index]? = some (table.groupStart circuit id group) →
        partition.Represents circuit table index id group
  shape : ∀ partition ∈ layer.partitions,
    partition.reads.rows = partition.starts.length ∧ partition.reads.cols = partition.width
  widths : layer.partitions.Pairwise fun before after => before.width < after.width
  narrowest : ∀ partition ∈ layer.partitions, ∀ index < partition.starts.length,
    (partition.reads.valid index).length ≤ partition.width ∧
      ∀ other ∈ layer.partitions, (partition.reads.valid index).length ≤ other.width →
        partition.width ≤ other.width
  nonempty : ∀ partition ∈ layer.partitions, partition.starts ≠ []
  ascending : ∀ partition ∈ layer.partitions, partition.starts.Pairwise (· < ·)
  numEdges_eq : layer.numEdges = circuit.groupSize *
    (layer.partitions.map fun partition => (Partition.entries partition.reads).length).sum

namespace Bucketed

variable (bucketed : Bucketed circuit table group widths layer)
include bucketed

theorem exists_partition {index : Nat} (found : widths[index]? = some width) :
    ∃ partition, layer.partitions[index]? = some partition ∧
      Partition.ofRows group.kind width
        (Row.bucket widths (Row.ofLayer circuit table group) width) = .ok partition :=
  forall₂_getElem? bucketed.partitions.flip found

theorem width_of {index : Nat} (found : layer.partitions[index]? = some partition) :
    widths[index]? = some partition.width ∧
      Partition.ofRows group.kind partition.width
        (Row.bucket widths (Row.ofLayer circuit table group) partition.width) = .ok partition := by
  obtain ⟨width, isWidth, made⟩ := forall₂_getElem? bucketed.partitions found
  rw [(Partition.ofRows_eq_ok.mp made).width_eq]
  exact ⟨isWidth, made⟩

theorem width_of_mem (member : partition ∈ layer.partitions) :
    partition.width ∈ widths ∧ Partition.ofRows group.kind partition.width
      (Row.bucket widths (Row.ofLayer circuit table group) partition.width) = .ok partition := by
  obtain ⟨index, found⟩ := List.getElem?_of_mem member
  obtain ⟨isWidth, made⟩ := bucketed.width_of found
  exact ⟨List.mem_of_getElem? isWidth, made⟩

theorem widths_eq : layer.partitions.map (·.width) = widths := by
  have same := mapM_map_eq (mapM_eq_ok.mpr bucketed.partitions) (g := (·.width)) (h := id)
    fun width partition made => (Partition.ofRows_eq_ok.mp made).width_eq
  rw [same, List.map_id]

theorem start?_eq_some {place : Nat × Nat} {start : Nat} :
    layer.start? place = some start ↔ ∃ width row, widths[place.1]? = some width ∧
      (Row.bucket widths (Row.ofLayer circuit table group) width)[place.2]? = some row ∧
      row.start = start := by
  rw [start?, Option.bind_eq_some_iff]
  constructor
  · rintro ⟨partition, found, located⟩
    obtain ⟨isWidth, made⟩ := bucketed.width_of found
    rw [(Partition.ofRows_eq_ok.mp made).starts_eq, List.getElem?_map,
      Option.map_eq_some_iff] at located
    obtain ⟨row, isRow, same⟩ := located
    exact ⟨partition.width, row, isWidth, isRow, same⟩
  · rintro ⟨width, row, isWidth, isRow, rfl⟩
    obtain ⟨partition, found, made⟩ := bucketed.exists_partition isWidth
    refine ⟨partition, found, ?_⟩
    rw [(Partition.ofRows_eq_ok.mp made).starts_eq, List.getElem?_map, isRow, Option.map_some]

section Rows

variable (wellFormed : circuit.WellFormed) (filled : table.Filled circuit served)
  (member : group ∈ (Layout.ofCircuit circuit).inner)
include wellFormed filled member

theorem existsUnique_place (inside : id ∈ group.nodes) {index : Nat}
    (bound : index < (circuit.node id).numGroups) :
    ∃! place, layer.start? place = some (table.groupStart circuit id index) := by
  have ascending := Row.ofLayer_ascending wellFormed filled member
  have isRow : Row.ofGroup circuit table group.kind id index ∈ Row.ofLayer circuit table group :=
    Row.mem_ofLayer.mpr ⟨id, inside, index, bound, rfl⟩
  obtain ⟨width, isWidth, narrowest⟩ := Row.exists_narrowest bucketed.serves isRow
  obtain ⟨first, widthFound⟩ := List.getElem?_of_mem isWidth
  obtain ⟨second, rowFound⟩ := List.getElem?_of_mem (Row.mem_bucket.mpr ⟨isRow, narrowest⟩)
  refine ⟨(first, second), ?_, ?_⟩
  · exact bucketed.start?_eq_some.mpr
      ⟨width, _, widthFound, rowFound, Row.ofGroup_start circuit table group.kind id index⟩
  · rintro ⟨otherFirst, otherSecond⟩ located
    obtain ⟨other, row, otherFound, rowLocated, same⟩ := bucketed.start?_eq_some.mp located
    dsimp only at otherFound rowLocated
    obtain ⟨inLayer, otherNarrowest⟩ := Row.mem_bucket.mp (List.mem_of_getElem? rowLocated)
    rw [← Row.ofGroup_start circuit table group.kind] at same
    obtain rfl := Row.eq_of_start_eq ascending inLayer isRow same
    obtain rfl := otherNarrowest.unique narrowest (List.mem_of_getElem? otherFound) isWidth
    have distinctWidths : widths.Nodup := bucketed.serves.ascending.imp Nat.ne_of_lt
    have distinctRows := (Row.ofLayer_nodup wellFormed filled member).filter
      fun row => decide (Row.Narrowest widths row other)
    have sameFirst : otherFirst = first :=
      (List.getElem?_inj (List.getElem?_eq_some_iff.mp otherFound).1 distinctWidths).mp
        (otherFound.trans widthFound.symm)
    have sameSecond : otherSecond = second :=
      (List.getElem?_inj (List.getElem?_eq_some_iff.mp rowLocated).1 distinctRows).mp
        (rowLocated.trans rowFound.symm)
    rw [sameFirst, sameSecond]

theorem exists_rowsOf (isPartition : partition ∈ layer.partitions) :
    ∃ rows, Partition.RowsOf circuit table group partition rows := by
  obtain ⟨isWidth, made⟩ := bucketed.width_of_mem isPartition
  refine ⟨_, made, Row.bucket_ne_nil bucketed.serves isWidth, ?_, ?_⟩
  · exact (Row.ofLayer_ascending wellFormed filled member).filter _
  · exact fun row isRow => (Row.mem_bucket.mp isRow).1

theorem numEdges_sum : layer.numEdges = circuit.groupSize *
    (layer.partitions.map fun partition => (Partition.entries partition.reads).length).sum := by
  have entries : layer.partitions.map
      (fun partition => (Partition.entries partition.reads).length) =
      widths.map fun width => ((Row.bucket widths (Row.ofLayer circuit table group) width).map
        (·.reads.length)).sum := by
    apply mapM_map_eq (mapM_eq_ok.mpr bucketed.partitions)
    intro width partition made
    rw [Partition.entries, PaddedMatrix.entries_eq (Partition.ofRows_eq_ok.mp made).reads,
      List.length_flatten, List.map_map]
    rfl
  have perm := (Row.buckets_perm (Row.ofLayer_nodup wellFormed filled member) bucketed.serves).map
    (·.reads.length)
  rw [bucketed.numEdges_eq, entries, Nat.mul_comm, ← perm.sum_nat, List.map_flatMap,
    List.flatMap_def, List.sum_flatten, List.map_map]
  rfl

theorem preservesEdges : layer.PreservesEdges circuit table := by
  constructor
  case kind_eq =>
    intro id inside
    rw [bucketed.nodes_eq, Layout.mem_nodes_inner member] at inside
    rw [bucketed.kind_eq]
    exact inside.2.2
  case exists_row =>
    intro id inside index bound
    rw [bucketed.nodes_eq] at inside
    exact bucketed.existsUnique_place wellFormed filled member inside bound
  case of_row =>
    intro place start located
    obtain ⟨width, row, -, rowFound, rfl⟩ := bucketed.start?_eq_some.mp located
    obtain ⟨inLayer, -⟩ := Row.mem_bucket.mp (List.mem_of_getElem? rowFound)
    obtain ⟨id, inside, index, bound, rfl⟩ := Row.mem_ofLayer.mp inLayer
    rw [bucketed.nodes_eq]
    exact ⟨id, inside, index, bound, Row.ofGroup_start circuit table group.kind id index⟩
  case represents =>
    intro partition isPartition index id inside place bound located
    rw [bucketed.nodes_eq] at inside
    obtain ⟨rows, rowsOf⟩ := bucketed.exists_rowsOf wellFormed filled member isPartition
    obtain ⟨reachable, -, same⟩ := (Layout.mem_nodes_inner member).mp inside
    have found := rowsOf.row_of_group wellFormed filled member inside bound located
    exact Partition.represents_of_ofRows wellFormed filled rowsOf.made reachable same bound found
  case shape =>
    intro partition isPartition
    obtain ⟨-, made⟩ := bucketed.width_of_mem isPartition
    have matrices := Partition.ofRows_eq_ok.mp made
    rw [(PaddedMatrix.ofRows_eq_ok.mp matrices.reads).2, matrices.starts_eq]
    simp
  case widths =>
    have sorted := bucketed.serves.ascending
    rw [← bucketed.widths_eq] at sorted
    exact List.pairwise_map.mp sorted
  case narrowest =>
    intro partition isPartition index bound
    obtain ⟨-, made⟩ := bucketed.width_of_mem isPartition
    have matrices := Partition.ofRows_eq_ok.mp made
    rw [matrices.starts_eq, List.length_map] at bound
    have found := List.getElem?_eq_getElem bound
    rw [PaddedMatrix.valid_eq matrices.reads found]
    obtain ⟨-, fits, least⟩ := Row.mem_bucket.mp (List.mem_of_getElem? found)
    refine ⟨fits, fun other isOther enough => ?_⟩
    exact least other.width (bucketed.width_of_mem isOther).1 enough
  case nonempty =>
    intro partition isPartition
    obtain ⟨rows, rowsOf⟩ := bucketed.exists_rowsOf wellFormed filled member isPartition
    rw [rowsOf.matrices.starts_eq, ne_eq, List.map_eq_nil_iff]
    exact rowsOf.nonempty
  case ascending =>
    intro partition isPartition
    obtain ⟨rows, rowsOf⟩ := bucketed.exists_rowsOf wellFormed filled member isPartition
    rw [rowsOf.matrices.starts_eq, List.pairwise_map]
    exact rowsOf.ascending
  case numEdges_eq => exact bucketed.numEdges_sum wellFormed filled member

end Rows

end Bucketed
end InnerLayer

/-! ## Layers of a plan -/

namespace Plan

variable {options : Options} {plan : Plan}

theorem Made.exists_bucketed (made : Made circuit options plan)
    (isLayer : layer ∈ plan.innerLayers) :
    ∃ group ∈ (Layout.ofCircuit circuit).inner, ∃ widths,
      InnerLayer.Bucketed circuit plan.slots group widths layer := by
  obtain ⟨group, member, success⟩ := mapM_origin made.innerLayers isLayer
  exact ⟨group, member, InnerLayer.ofGroup_bucketed success⟩

/-- Every inner node vector lies in a layer, and every layer has the edges of the circuit. -/
structure PreservesEdges (circuit : Circuit) (plan : Plan) : Prop where
  exists_layer : ∀ id ∈ circuit.reachable, (circuit.node id).tag ≠ .input →
    ∃ layer ∈ plan.innerLayers, id ∈ layer.nodes
  layers : ∀ layer ∈ plan.innerLayers, layer.PreservesEdges circuit plan.slots

theorem ofCircuit_preservesEdges (accepted : circuit.Accepted)
    (compiled : ofCircuit circuit options = .ok plan) : plan.PreservesEdges circuit := by
  have wellFormed := accepted.wellFormed
  have made := ofCircuit_made compiled
  obtain ⟨served, filled⟩ := SlotTable.exists_filled wellFormed made.slots
  constructor
  case exists_layer =>
    intro id reachable inner
    obtain ⟨group, member, inside⟩ := Layout.exists_inner wellFormed reachable inner
    obtain ⟨layer, isLayer, success⟩ := mapM_result made.innerLayers member
    obtain ⟨widths, bucketed⟩ := InnerLayer.ofGroup_bucketed success
    exact ⟨layer, isLayer, bucketed.nodes_eq ▸ inside⟩
  case layers =>
    intro layer isLayer
    obtain ⟨group, member, widths, bucketed⟩ := made.exists_bucketed isLayer
    exact bucketed.preservesEdges wellFormed filled member

theorem twin_preservesEdges : ∃ plan, ofCircuit Circuit.twin {} = .ok plan ∧
    plan.innerLayers ≠ [] ∧ plan.PreservesEdges Circuit.twin := by
  have passes : (ofCircuit Circuit.twin {}).toOption.any (fun plan =>
      decide (plan.innerLayers ≠ [])) = true := by decide +kernel
  obtain ⟨plan, compiled, present⟩ := exists_ok_of_any passes
  exact ⟨plan, compiled, decide_eq_true_iff.mp present,
    ofCircuit_preservesEdges Circuit.twin_accepted compiled⟩

end Plan
end CircuitPlan
