import CircuitPlan.Proofs.Layer.Places
import CircuitPlan.Proofs.Layer.Reverse

namespace CircuitPlan

variable {circuit : Circuit} {table : SlotTable} {served : List (Purpose × Span)}
  {group : InnerGroup} {kind : LayerKind} {id : NodeId} {rows : List Row} {row : Row}
  {scalar : Scalar} {width : Nat}

namespace SlotTable.Filled

theorem paramsAt_stop_lt {pool : Pool} (wellFormed : circuit.WellFormed)
    (filled : Filled circuit served table) (member : id ∈ pool.nodes circuit) :
    (table.paramsAt id).stop < padding := by
  rw [filled.paramsAt_eq wellFormed member]
  exact (filled.owner_widths wellFormed (Pool.mem_owners.mpr ⟨id, member, rfl⟩)).1.2

end SlotTable.Filled

structure Row.Storable (kind : LayerKind) (width : Nat) (row : Row) : Prop where
  short : row.reads.length ≤ width
  start : row.start ≠ padding
  reads : padding ∉ row.reads
  aligned : kind = .sum → row.params.length = row.reads.length
  params : kind = .sum → padding ∉ row.params
  edges : kind = .sum → ∀ edge ∈ row.edges, edge.2 ∈ row.params

namespace Partition

theorem readers_fit {child : Nat} (isChild : child ∈ childrenOf rows) {part : Nat × Nat → Nat}
    (free : ∀ entry ∈ readers rows child, part entry ≠ padding) :
    ((readers rows child).map part).length ≤ maxReaders rows ∧
      padding ∉ (readers rows child).map part := by
  refine ⟨by rw [List.length_map]; exact length_readers_le isChild, ?_⟩
  intro isPart
  obtain ⟨entry, isEntry, same⟩ := List.mem_map.mp isPart
  exact free entry isEntry same

theorem ofRows_ok (storable : ∀ row ∈ rows, row.Storable kind width) :
    ∃ partition, ofRows kind width rows = .ok partition := by
  obtain ⟨reads, readsOk⟩ : ∃ reads,
      PaddedMatrix.ofRows (rows.map (·.reads)) width = .ok reads := by
    apply PaddedMatrix.exists_ofRows
    rw [List.forall_mem_map]
    exact fun row isRow => ⟨(storable row isRow).short, (storable row isRow).reads⟩
  obtain ⟨params, paramsOk⟩ : ∃ params,
      paramMatrix kind (rows.map (·.params)) width = .ok params := by
    apply exists_paramMatrix
    intro isSum
    rw [List.forall_mem_map]
    intro row isRow
    have aligned := (storable row isRow).aligned isSum
    exact ⟨by rw [aligned]; exact (storable row isRow).short, (storable row isRow).params isSum⟩
  obtain ⟨parents, parentsOk⟩ : ∃ parents, PaddedMatrix.ofRows
      ((childrenOf rows).map fun child => (readers rows child).map (·.1)) (maxReaders rows) =
        .ok parents := by
    apply PaddedMatrix.exists_ofRows
    rw [List.forall_mem_map]
    refine fun child isChild => readers_fit isChild fun entry isEntry => ?_
    obtain ⟨row, isRow, start, -⟩ := mem_readers.mp isEntry
    rw [← start]
    exact (storable row isRow).start
  obtain ⟨parentParams, parentParamsOk⟩ : ∃ parentParams, paramMatrix kind
      ((childrenOf rows).map fun child => (readers rows child).map (·.2)) (maxReaders rows) =
        .ok parentParams := by
    apply exists_paramMatrix
    intro isSum
    rw [List.forall_mem_map]
    refine fun child isChild => readers_fit isChild fun entry isEntry => ?_
    obtain ⟨row, isRow, -, isEdge⟩ := mem_readers.mp isEntry
    have inParams := (storable row isRow).edges isSum _ isEdge
    exact ne_of_mem_of_not_mem inParams ((storable row isRow).params isSum)
  exact ⟨⟨width, rows.map (·.start), reads, params, childrenOf rows, parents, parentParams⟩,
    ofRows_eq_ok.mpr ⟨rfl, rfl, readsOk, paramsOk, rfl, parentsOk, parentParamsOk⟩⟩

end Partition

namespace Row

variable (wellFormed : circuit.WellFormed) (filled : table.Filled circuit served)
include wellFormed filled

theorem ofNode_ok (reachable : id ∈ circuit.reachable)
    (same : (circuit.node id).layerKind? = some kind) :
    ofNode circuit table kind id = .ok (ofTable circuit table kind id) := by
  suffices made : ∃ rows, ofNode circuit table kind id = .ok rows by
    obtain ⟨rows, made⟩ := made
    rw [made, ofNode_eq made]
  have children := mapM_ok (f := table.get) fun child isChild =>
    filled.get_ok (wellFormed.child_reachable reachable isChild)
  rw [ofNode, filled.get_ok reachable, ok_bind, children, ok_bind]
  cases kind with
  | product => exact ⟨_, rfl⟩
  | sum =>
      have kind := Layout.layerKind_eq_sum.mp same
      have params : (SlotTable.nodeSlots circuit (Layout.ofCircuit circuit) circuit.sharing served
          id).params = some (SlotTable.spanOf served (.params (circuit.owner id))) := by
        rw [SlotTable.nodeSlots, kind]
      rw [params]
      exact ⟨_, rfl⟩

theorem storable (has : circuit.Has scalar) (first : scalar.lane = 0)
    (same : (circuit.node scalar.node).layerKind? = some kind)
    (short : (ofGroup circuit table kind scalar.node scalar.group).reads.length ≤ width) :
    (ofGroup circuit table kind scalar.node scalar.group).Storable kind width := by
  constructor
  case short => exact short
  case start => exact start_ne_padding wellFormed filled kind has
  case reads =>
    intro isRead
    obtain ⟨child, isChild, -, inside⟩ := read_inside wellFormed filled has same first isRead
    have childReachable := wellFormed.child_reachable has.reachable isChild
    have bound := (filled.values_width wellFormed childReachable).2
    omega
  case aligned =>
    rintro rfl
    simp [ofGroup, ofSum]
  case params =>
    rintro rfl isParam
    have isSum := Layout.layerKind_eq_sum.mp same
    have member : scalar.node ∈ Pool.sums.nodes circuit :=
      (Pool.mem_nodes wellFormed).mpr ⟨has.reachable, Pool.of_sum isSum⟩
    have below := filled.paramsAt_stop_lt wellFormed member
    rw [params_eq, List.mem_map] at isParam
    obtain ⟨edge, inside, isPadding⟩ := isParam
    have inRange := param_in_range wellFormed filled has isSum (List.mem_range.mp inside)
    omega
  case edges =>
    rintro rfl edge isEdge
    obtain ⟨entry, inZip, rfl⟩ := List.mem_map.mp isEdge
    exact (List.of_mem_zip (List.mem_of_mem_filter inZip)).2

end Row

namespace InnerLayer

theorem ofGroup_ok (wellFormed : circuit.WellFormed) (filled : table.Filled circuit served)
    (member : group ∈ (Layout.ofCircuit circuit).inner) (tolerance : Float32) (cap : Option Nat) :
    ∃ layer, ofGroup circuit table tolerance cap group = .ok layer := by
  have rowsOk : ∀ id ∈ group.nodes, Row.ofNode circuit table group.kind id =
      .ok (Row.ofTable circuit table group.kind id) := by
    intro id inside
    obtain ⟨reachable, -, same⟩ := (Layout.mem_nodes_inner member).mp inside
    exact Row.ofNode_ok wellFormed filled reachable same
  obtain ⟨widths, -, made⟩ := ofGroup_eq rowsOk tolerance cap
  obtain ⟨partitions, partitionsOk⟩ : ∃ partitions, (widths.mapM fun width =>
      Partition.ofRows group.kind width
        (Row.bucket widths (Row.ofLayer circuit table group) width)) = .ok partitions := by
    apply mapM_exists
    intro width _
    apply Partition.ofRows_ok
    intro row inBucket
    obtain ⟨inLayer, narrowest⟩ := Row.mem_bucket.mp inBucket
    obtain ⟨id, inside, index, bound, rfl⟩ := Row.mem_ofLayer.mp inLayer
    obtain ⟨reachable, -, same⟩ := (Layout.mem_nodes_inner member).mp inside
    have has := wellFormed.has_first reachable bound
    exact Row.storable wellFormed filled has rfl same narrowest.1
  rw [made, partitionsOk]
  exact ⟨_, rfl⟩

end InnerLayer

namespace InputLayer

theorem ofGroup_ok (wellFormed : circuit.WellFormed) (filled : table.Filled circuit served)
    {inputs : InputGroup} (member : inputs ∈ (Layout.ofCircuit circuit).inputs) (index : Nat)
    (reduction : Reduction) :
    ∃ layer, ofGroup circuit table index inputs reduction = .ok layer := by
  obtain ⟨vars, matrix⟩ : ∃ vars, matrixOf circuit inputs.nodes = .ok vars := by
    apply PaddedMatrix.exists_ofRows
    rw [List.forall_mem_map]
    intro place isPlace
    have inside := (Circuit.mem_places.mp isPlace).1
    have admits := wellFormed.admits ((Layout.mem_nodes_inputs member).mp inside).1
    obtain ⟨dist, kind⟩ := Node.tag_eq_input.mp (Layout.tag_of_mem_inputs member inside)
    have arity : (circuit.node place.1).scope.vars.length = dist.numVars :=
      admits.kind_rules.of_input kind
    have isDist : dist ∈ inputs.nodes.filterMap fun id => (circuit.node id).kind.dist? :=
      List.mem_filterMap.mpr ⟨place.1, inside, by rw [kind]; rfl⟩
    rw [arity]
    exact ⟨le_foldl_max (List.mem_map_of_mem isDist) 0, admits.scope_free⟩
  rw [ofGroup_eq filled member, matrix]
  exact ⟨_, rfl⟩

end InputLayer
end CircuitPlan
