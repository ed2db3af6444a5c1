import CircuitPlan.Proofs.Layer.Operands

namespace CircuitPlan

variable {circuit : Circuit} {table : SlotTable} {served : List (Purpose × Span)}
  {group : InnerGroup} {layer : InnerLayer} {partition : Partition} {kind : LayerKind}
  {widths : List Nat} {rows : List Row} {row : Row} {scalar : Scalar} {width child : Nat}

namespace Partition

/-! ## Readers of a child group -/

theorem mem_childrenOf :
    child ∈ childrenOf rows ↔ ∃ row ∈ rows, child ∈ row.edges.map (·.1) := by
  rw [childrenOf, Ascending.mem_ofList, List.mem_flatMap]

theorem mem_readers {entry : Nat × Nat} : entry ∈ readers rows child ↔
    ∃ row ∈ rows, row.start = entry.1 ∧ (child, entry.2) ∈ row.edges := by
  rw [readers, List.mem_flatMap]
  constructor
  · rintro ⟨row, isRow, member⟩
    obtain ⟨edge, isEdge, rfl⟩ := List.mem_map.mp member
    obtain ⟨isEdge, same⟩ := List.mem_filter.mp isEdge
    rw [← beq_iff_eq.mp same]
    exact ⟨row, isRow, rfl, isEdge⟩
  · rintro ⟨row, isRow, same, isEdge⟩
    refine ⟨row, isRow, List.mem_map.mpr ⟨(child, entry.2), ?_, ?_⟩⟩
    · exact List.mem_filter.mpr ⟨isEdge, beq_self_eq_true _⟩
    · rw [same]

theorem length_readers_le (isChild : child ∈ childrenOf rows) :
    (readers rows child).length ≤ maxReaders rows :=
  le_foldl_max (List.mem_map_of_mem (f := fun child => (readers rows child).length) isChild) 0

theorem exists_maxReaders (isChild : child ∈ childrenOf rows) :
    ∃ most ∈ childrenOf rows, (readers rows most).length = maxReaders rows := by
  have bound := length_readers_le isChild
  rcases foldl_max_mem ((childrenOf rows).map fun child => (readers rows child).length) 0 with
    zero | attained
  · rw [← maxReaders] at zero
    exact ⟨child, isChild, by omega⟩
  · exact List.mem_map.mp attained

section Ascending

variable (ascending : rows.Pairwise fun before after => before.start < after.start)
include ascending

theorem readers_sorted (child : Nat) : ((readers rows child).map (·.1)).Pairwise (· ≤ ·) := by
  rw [readers, List.map_flatMap, List.pairwise_flatMap]
  simp only [List.map_map, Function.comp_def, List.map_const']
  constructor
  · intro row _
    exact List.pairwise_replicate.mpr (.inr (Nat.le_refl _))
  · refine ascending.imp ?_
    intro before after earlier first isFirst second isSecond
    rw [List.eq_of_mem_replicate isFirst, List.eq_of_mem_replicate isSecond]
    exact Nat.le_of_lt earlier

theorem count_readers (isRow : row ∈ rows) (child : Nat) :
    ((readers rows child).map (·.1)).count row.start = (row.edges.map (·.1)).count child := by
  have own (row : Row) : ((row.edges.filter fun edge => edge.1 == child).map fun edge =>
      (row.start, edge.2)).map (·.1) =
      List.replicate ((row.edges.map (·.1)).count child) row.start := by
    rw [List.map_map, List.count_eq_countP, List.countP_map, List.countP_eq_length_filter]
    exact List.map_const'
  induction rows with
  | nil => cases isRow
  | cons first rest ih =>
      obtain ⟨before, later⟩ := List.pairwise_cons.mp ascending
      rw [readers, List.flatMap_cons, List.map_append, List.count_append, own]
      cases isRow with
      | head =>
          have absent : row.start ∉ (readers rest child).map (·.1) := by
            intro member
            obtain ⟨entry, isEntry, same⟩ := List.mem_map.mp member
            obtain ⟨other, isOther, start, -⟩ := mem_readers.mp isEntry
            exact Nat.ne_of_lt (before other isOther) (start.trans same).symm
          rw [List.count_replicate_self, ← readers, List.count_eq_zero_of_not_mem absent,
            Nat.add_zero]
      | tail _ isRow =>
          have different : first.start ≠ row.start := Nat.ne_of_lt (before row isRow)
          rw [List.count_eq_zero_of_not_mem (fun member =>
            different (List.eq_of_mem_replicate member).symm), Nat.zero_add]
          exact ih later isRow

end Ascending

end Partition

/-! ## Edges of a row -/

namespace Row

variable (wellFormed : circuit.WellFormed)

theorem product_edges (circuit : Circuit) (table : SlotTable) (id : NodeId) (index : Nat) :
    (ofGroup circuit table .product id index).edges.map (·.1) =
      (ofGroup circuit table .product id index).reads := by
  simp [ofGroup, ofProduct, Function.comp_def]

section Sum

variable (has : circuit.Has scalar) (isSum : (circuit.node scalar.node).kind = .sum)
include wellFormed has isSum

theorem mem_sum_edges {edge : Nat × Nat} :
    edge ∈ (ofGroup circuit table .sum scalar.node scalar.group).edges ↔
      ∃ (operand : Scalar) (position : Nat), (circuit.operands scalar)[position]? = some operand ∧
        operand.lane = 0 ∧ edge = (table.slot circuit operand,
          table.paramOf circuit scalar.node scalar.group position) := by
  rw [sum_backEdges wellFormed table has isSum, List.mem_map]
  constructor
  · rintro ⟨⟨operand, position⟩, member, rfl⟩
    obtain ⟨member, first⟩ := List.mem_filter.mp member
    exact ⟨operand, position, List.mem_zipIdx_iff_getElem?.mp member, beq_iff_eq.mp first, rfl⟩
  · rintro ⟨operand, position, found, first, rfl⟩
    exact ⟨(operand, position), List.mem_filter.mpr
      ⟨List.mem_zipIdx_iff_getElem?.mpr found, beq_iff_eq.mpr first⟩, rfl⟩

theorem mem_sum_children :
    child ∈ (ofGroup circuit table .sum scalar.node scalar.group).edges.map (·.1) ↔
      ∃ operand ∈ (circuit.node scalar.node).children,
        ∃ index < (circuit.node operand).numGroups,
          child = table.groupStart circuit operand index := by
  rw [List.mem_map]
  constructor
  · rintro ⟨edge, isEdge, rfl⟩
    obtain ⟨operand, position, found, first, rfl⟩ := (mem_sum_edges wellFormed has isSum).mp isEdge
    obtain ⟨isChild, bound, -⟩ :=
      (Circuit.mem_operands isSum).mp (List.mem_of_getElem? found)
    refine ⟨operand.node, isChild, operand.group, bound, ?_⟩
    rw [SlotTable.groupStart_eq_slot, ← first]
  · rintro ⟨operand, isChild, index, bound, rfl⟩
    have member : ⟨operand, index, 0⟩ ∈ circuit.operands scalar :=
      (Circuit.mem_operands isSum).mpr ⟨isChild, bound, wellFormed.groupSize_pos⟩
    obtain ⟨position, found⟩ := List.getElem?_of_mem member
    exact ⟨_, (mem_sum_edges wellFormed has isSum).mpr ⟨_, position, found, rfl, rfl⟩, rfl⟩

theorem sum_reads_nodup (filled : table.Filled circuit served) :
    (ofGroup circuit table .sum scalar.node scalar.group).reads.Nodup := by
  have reads : (ofGroup circuit table .sum scalar.node scalar.group).reads =
      (circuit.operands scalar).map (table.slot circuit) := scalars_eq wellFormed table has isSum
  rw [reads]
  refine List.Nodup.map_on ?_ (Circuit.operands_nodup isSum wellFormed has.reachable)
  intro operand member other otherMember same
  exact filled.slot_inj wellFormed (wellFormed.has_operand has member)
    (wellFormed.has_operand has otherMember) same

theorem sum_count (filled : table.Filled circuit served) {operand : Scalar}
    (isScalar : circuit.Has operand) (first : operand.lane = 0) :
    ((ofGroup circuit table .sum scalar.node scalar.group).edges.map (·.1)).count
        (table.slot circuit operand) =
      (ofGroup circuit table .sum scalar.node scalar.group).reads.count
        (table.slot circuit operand) := by
  have reads : (ofGroup circuit table .sum scalar.node scalar.group).reads =
      (circuit.operands scalar).map (table.slot circuit) := scalars_eq wellFormed table has isSum
  have edges : (ofGroup circuit table .sum scalar.node scalar.group).edges.map (·.1) =
      ((circuit.operands scalar).filter fun operand => operand.lane == 0).map
        (table.slot circuit) := by
    rw [sum_backEdges wellFormed table has isSum, List.map_map]
    conv_rhs => rw [← List.zipIdx_map_fst 0 (circuit.operands scalar), List.filter_map,
      List.map_map]
    rfl
  rw [edges, reads, List.count_eq_countP, List.count_eq_countP, List.countP_map, List.countP_map,
    List.countP_filter]
  apply List.countP_congr
  intro other member
  simp only [Function.comp_apply, Bool.and_eq_true, beq_iff_eq, and_iff_left_iff_imp]
  intro same
  rw [filled.slot_inj wellFormed (wellFormed.has_operand has member) isScalar same, first]

theorem sum_lanes (filled : table.Filled circuit served) {edge : Nat × Nat}
    (isEdge : edge ∈ (ofGroup circuit table .sum scalar.node scalar.group).edges) {lane : Nat}
    (bound : lane < circuit.groupSize) :
    ∃ position, (∀ other, (ofGroup circuit table .sum scalar.node scalar.group).reads[other]? =
        some (edge.1 + lane) ↔ other = position) ∧
      position < (ofGroup circuit table .sum scalar.node scalar.group).reads.length ∧
      table.paramOf circuit scalar.node scalar.group position =
        edge.2 + lane * circuit.groupSize := by
  have reads : (ofGroup circuit table .sum scalar.node scalar.group).reads =
      (circuit.operands scalar).map (table.slot circuit) := scalars_eq wellFormed table has isSum
  obtain ⟨operand, start, found, first, rfl⟩ := (mem_sum_edges wellFormed has isSum).mp isEdge
  have laneFound : (ofGroup circuit table .sum scalar.node scalar.group).reads[start + lane]? =
      some (table.slot circuit operand + lane) := by
    rw [reads, List.getElem?_map, Circuit.operands_lane isSum wellFormed found first bound,
      Option.map_some, SlotTable.slot, SlotTable.slot, first, Nat.add_zero]
  obtain ⟨inside, -⟩ := List.getElem?_eq_some_iff.mp laneFound
  refine ⟨start + lane, fun other => ⟨fun same => ?_, ?_⟩, inside, ?_⟩
  · exact ((List.getElem?_inj inside (sum_reads_nodup wellFormed has isSum filled)).mp
      (laneFound.trans same.symm)).symm
  · rintro rfl
    exact laneFound
  · simp only [SlotTable.paramOf, ← Nat.add_assoc, Nat.add_mul]

end Sum

end Row

/-! ## The reverse index of a partition -/

namespace Partition

/-- The reverse index of a partition is the converse of its rows. -/
structure ReverseIndexed (circuit : Circuit) (table : SlotTable) (layer : InnerLayer)
    (partition : Partition) : Prop where
  ascending : partition.children.Pairwise (· < ·)
  product_children : layer.kind = .product → ∀ child, child ∈ partition.children ↔
    ∃ index < partition.starts.length, child ∈ partition.reads.valid index
  sum_children : layer.kind = .sum → ∀ child, child ∈ partition.children ↔
    ∃ (index : Nat), ∃ id ∈ layer.nodes, ∃ group < (circuit.node id).numGroups,
      partition.starts[index]? = some (table.groupStart circuit id group) ∧
        ∃ operand ∈ (circuit.node id).children, ∃ place < (circuit.node operand).numGroups,
          child = table.groupStart circuit operand place
  rows_eq : partition.parents.rows = partition.children.length
  starts_ascending : partition.starts.Pairwise (· < ·)
  parents_sorted : ∀ index < partition.children.length,
    (partition.parents.valid index).Pairwise (· ≤ ·)
  parents_starts : ∀ index < partition.children.length,
    ∀ parent ∈ partition.parents.valid index, parent ∈ partition.starts
  count_eq : ∀ (index child row start : Nat), partition.children[index]? = some child →
    partition.starts[row]? = some start →
      (partition.parents.valid index).count start = (partition.reads.valid row).count child
  parents_le : ∀ index < partition.children.length,
    (partition.parents.valid index).length ≤ partition.parents.cols
  exists_widest : ∃ index < partition.children.length,
    (partition.parents.valid index).length = partition.parents.cols
  params : layer.kind = .sum → ∃ params parentParams,
    partition.params = some params ∧ partition.parentParams = some parentParams ∧
    ∀ (index child : Nat), partition.children[index]? = some child →
      (∀ column : Nat, (parentParams.row index)[column]? = some padding ↔
        (partition.parents.row index)[column]? = some padding) ∧
      ∀ (column row start : Nat), (partition.parents.valid index)[column]? = some start →
        partition.starts[row]? = some start →
          ∃ param, (parentParams.row index)[column]? = some param ∧
            ∀ lane < circuit.groupSize, ∃ position,
              (∀ other : Nat, (partition.reads.valid row)[other]? = some (child + lane) ↔
                other = position) ∧
              (params.row row)[position]? = some (param + lane * circuit.groupSize)

section RowsOf

variable (wellFormed : circuit.WellFormed) (filled : table.Filled circuit served)
  (member : group ∈ (Layout.ofCircuit circuit).inner)
  (rowsOf : RowsOf circuit table group partition rows)

namespace RowsOf

include rowsOf in
theorem parents_valid {index : Nat} (found : partition.children[index]? = some child) :
    partition.parents.valid index = (readers rows child).map (·.1) := by
  rw [rowsOf.matrices.children_eq] at found
  exact PaddedMatrix.valid_eq (f := fun child => (readers rows child).map (·.1))
    rowsOf.matrices.parents found

include wellFormed member rowsOf in
theorem exists_sum_scalar (isSum : group.kind = .sum) (isRow : row ∈ rows) :
    ∃ scalar, circuit.Has scalar ∧ (circuit.node scalar.node).kind = .sum ∧
      scalar.node ∈ group.nodes ∧
      row = Row.ofGroup circuit table .sum scalar.node scalar.group := by
  obtain ⟨scalar, has, -, inside, same, rfl⟩ := rowsOf.exists_scalar wellFormed member isRow
  rw [isSum] at same
  exact ⟨scalar, has, Layout.layerKind_eq_sum.mp same, inside, by rw [isSum]⟩

include wellFormed member rowsOf in
theorem edges_ne_nil (isRow : row ∈ rows) : row.edges ≠ [] := by
  obtain ⟨scalar, has, -, inside, same, rfl⟩ := rowsOf.exists_scalar wellFormed member isRow
  obtain ⟨operand, isChild⟩ := List.exists_mem_of_ne_nil _
    (wellFormed.children_ne_nil has.reachable (Layout.tag_of_mem_inner member inside))
  cases kind : group.kind with
  | product => simpa [Row.ofGroup, Row.ofProduct] using List.ne_nil_of_mem isChild
  | sum =>
      rw [kind, Layout.layerKind_eq_sum] at same
      have positive :=
        (wellFormed.admits (wellFormed.child_reachable has.reachable isChild)).numGroups_pos
      have present : table.groupStart circuit operand 0 ∈
          (Row.ofGroup circuit table .sum scalar.node scalar.group).edges.map (·.1) :=
        (Row.mem_sum_children wellFormed has same).mpr ⟨operand, isChild, 0, positive, rfl⟩
      exact fun empty => List.ne_nil_of_mem present (List.map_eq_nil_iff.mpr empty)

include wellFormed filled member rowsOf in
theorem count_edges (isChild : child ∈ childrenOf rows) (isRow : row ∈ rows) :
    (row.edges.map (·.1)).count child = row.reads.count child := by
  cases kind : group.kind with
  | product =>
      obtain ⟨scalar, -, -, -, -, rfl⟩ := rowsOf.exists_scalar wellFormed member isRow
      rw [kind, Row.product_edges]
  | sum =>
      -- The child group may be known from another row of the partition.
      obtain ⟨other, isOther, inOther⟩ := mem_childrenOf.mp isChild
      obtain ⟨reader, readerHas, readerSum, -, rfl⟩ :=
        rowsOf.exists_sum_scalar wellFormed member kind isOther
      rw [Row.mem_sum_children wellFormed readerHas readerSum] at inOther
      obtain ⟨operand, isOperand, index, inOperand, rfl⟩ := inOther
      obtain ⟨scalar, has, isSum, -, rfl⟩ :=
        rowsOf.exists_sum_scalar wellFormed member kind isRow
      have operandReachable := wellFormed.child_reachable readerHas.reachable isOperand
      exact Row.sum_count wellFormed has isSum filled
        (wellFormed.has_first operandReachable inOperand) rfl

include wellFormed filled member rowsOf in
theorem mem_children_sum (isSum : group.kind = .sum) : child ∈ partition.children ↔
    ∃ (index : Nat), ∃ id ∈ group.nodes, ∃ place < (circuit.node id).numGroups,
      partition.starts[index]? = some (table.groupStart circuit id place) ∧
        ∃ operand ∈ (circuit.node id).children, ∃ other < (circuit.node operand).numGroups,
          child = table.groupStart circuit operand other := by
  rw [rowsOf.matrices.children_eq, mem_childrenOf]
  constructor
  · rintro ⟨row, isRow, inEdges⟩
    obtain ⟨index, found⟩ := List.getElem?_of_mem isRow
    obtain ⟨scalar, has, kind, inside, rfl⟩ :=
      rowsOf.exists_sum_scalar wellFormed member isSum isRow
    refine ⟨index, scalar.node, inside, scalar.group, has.group_lt, ?_,
      (Row.mem_sum_children wellFormed has kind).mp inEdges⟩
    rw [rowsOf.matrices.starts_eq, List.getElem?_map, found, Option.map_some,
      Row.ofGroup_start]
  · rintro ⟨index, id, inside, place, bound, located, operands⟩
    have found := rowsOf.row_of_group wellFormed filled member inside bound located
    obtain ⟨reachable, -, same⟩ := (Layout.mem_nodes_inner member).mp inside
    rw [isSum] at found same
    have has := wellFormed.has_first reachable bound
    exact ⟨_, List.mem_of_getElem? found,
      (Row.mem_sum_children wellFormed has (Layout.layerKind_eq_sum.mp same)).mpr operands⟩

include wellFormed member rowsOf in
theorem mem_children_product (isProduct : group.kind = .product) : child ∈ partition.children ↔
    ∃ index < partition.starts.length, child ∈ partition.reads.valid index := by
  have edges : ∀ row ∈ rows, row.edges.map (·.1) = row.reads := by
    intro row isRow
    obtain ⟨scalar, -, -, -, -, rfl⟩ := rowsOf.exists_scalar wellFormed member isRow
    rw [isProduct, Row.product_edges]
  rw [rowsOf.matrices.children_eq, mem_childrenOf, rowsOf.matrices.starts_eq,
    List.length_map]
  constructor
  · rintro ⟨row, isRow, inEdges⟩
    obtain ⟨index, bound, rfl⟩ := List.getElem_of_mem isRow
    rw [edges _ isRow, ← rowsOf.reads_valid (List.getElem?_eq_getElem bound)] at inEdges
    exact ⟨index, bound, inEdges⟩
  · rintro ⟨index, bound, inReads⟩
    rw [rowsOf.reads_valid (List.getElem?_eq_getElem bound)] at inReads
    have isRow := List.getElem_mem bound
    exact ⟨rows[index], isRow, (edges _ isRow).symm ▸ inReads⟩

include rowsOf in
theorem parents_cols : partition.parents.cols = maxReaders rows := by
  rw [(PaddedMatrix.ofRows_eq_ok.mp rowsOf.matrices.parents).2]

include rowsOf in
theorem parents_length {index : Nat} (found : partition.children[index]? = some child) :
    (partition.parents.valid index).length = (readers rows child).length := by
  rw [rowsOf.parents_valid found, List.length_map]

include wellFormed member rowsOf in
theorem exists_widest : ∃ index < partition.children.length,
    (partition.parents.valid index).length = partition.parents.cols := by
  obtain ⟨row, isRow⟩ := List.exists_mem_of_ne_nil _ rowsOf.nonempty
  obtain ⟨edge, isEdge⟩ := List.exists_mem_of_ne_nil _
    (rowsOf.edges_ne_nil wellFormed member isRow)
  have present : edge.1 ∈ childrenOf rows :=
    mem_childrenOf.mpr ⟨row, isRow, List.mem_map_of_mem isEdge⟩
  obtain ⟨most, isChild, widest⟩ := exists_maxReaders present
  rw [← rowsOf.matrices.children_eq] at isChild
  obtain ⟨index, bound, rfl⟩ := List.getElem_of_mem isChild
  refine ⟨index, bound, ?_⟩
  rw [rowsOf.parents_length (List.getElem?_eq_getElem bound), widest, rowsOf.parents_cols]

include wellFormed filled member rowsOf in
theorem params_of_parent (isSum : group.kind = .sum) {params parentParams : PaddedMatrix}
    (present : partition.params = some params)
    (parentsMade : PaddedMatrix.ofRows ((childrenOf rows).map fun child =>
      (readers rows child).map (·.2)) (maxReaders rows) = .ok parentParams)
    {index column place start : Nat} (found : partition.children[index]? = some child)
    (isParent : (partition.parents.valid index)[column]? = some start)
    (located : partition.starts[place]? = some start) :
    ∃ param, (parentParams.row index)[column]? = some param ∧
      ∀ lane < circuit.groupSize, ∃ position,
        (∀ other : Nat, (partition.reads.valid place)[other]? = some (child + lane) ↔
          other = position) ∧
        (params.row place)[position]? = some (param + lane * circuit.groupSize) := by
  rw [rowsOf.parents_valid found, List.getElem?_map, Option.map_eq_some_iff] at isParent
  obtain ⟨entry, inColumn, rfl⟩ := isParent
  obtain ⟨inside, -⟩ := List.getElem?_eq_some_iff.mp inColumn
  obtain ⟨row, rowFound, sameStart⟩ := rowsOf.exists_row located
  have isRow := List.mem_of_getElem? rowFound
  obtain ⟨reader, isReader, readerStart, isEdge⟩ := mem_readers.mp (List.mem_of_getElem? inColumn)
  obtain rfl := Row.eq_of_start_eq rowsOf.ascending isRow isReader
    (sameStart.trans readerStart.symm)
  refine ⟨entry.2, ?_, ?_⟩
  · rw [rowsOf.matrices.children_eq] at found
    rw [PaddedMatrix.row_eq parentsMade found, PaddedMatrix.padRow,
      List.getElem?_append_left (by rw [List.length_map]; exact inside), List.getElem?_map,
      inColumn, Option.map_some]
  · intro lane bound
    obtain ⟨scalar, has, kind, -, rfl⟩ :=
      rowsOf.exists_sum_scalar wellFormed member isSum isRow
    obtain ⟨position, unique, within, param⟩ :=
      Row.sum_lanes wellFormed has kind filled isEdge bound
    have layerKind := Layout.layerKind_eq_sum.mpr kind
    have represents := represents_of_ofRows wellFormed filled (isSum ▸ rowsOf.made) has.reachable
      layerKind has.group_lt rowFound
    obtain ⟨matrix, stored, -, -, entries⟩ := represents.params kind
    obtain rfl := Option.some.inj (present.symm.trans stored)
    rw [Row.ofGroup_reads table layerKind] at within
    refine ⟨position, ?_, ?_⟩
    · rw [rowsOf.reads_valid rowFound]
      exact unique
    · rw [(entries position within).1, param]

include wellFormed filled member rowsOf in
theorem reverseIndexed (kind_eq : layer.kind = group.kind) (nodes_eq : layer.nodes = group.nodes) :
    partition.ReverseIndexed circuit table layer := by
  have children := rowsOf.matrices.children_eq
  have starts := rowsOf.matrices.starts_eq
  have parents := rowsOf.matrices.parents
  constructor
  case ascending =>
    rw [children]
    exact Ascending.ofList_ascending _
  case product_children =>
    intro isProduct child
    exact rowsOf.mem_children_product wellFormed member (kind_eq ▸ isProduct)
  case sum_children =>
    intro isSum child
    rw [nodes_eq]
    exact rowsOf.mem_children_sum wellFormed filled member (kind_eq ▸ isSum)
  case rows_eq =>
    rw [(PaddedMatrix.ofRows_eq_ok.mp parents).2, children, List.length_map]
  case starts_ascending =>
    rw [starts, List.pairwise_map]
    exact rowsOf.ascending
  case parents_sorted =>
    intro index bound
    rw [rowsOf.parents_valid (List.getElem?_eq_getElem bound)]
    exact readers_sorted rowsOf.ascending _
  case parents_starts =>
    intro index bound parent isParent
    rw [rowsOf.parents_valid (List.getElem?_eq_getElem bound), List.mem_map] at isParent
    obtain ⟨entry, isEntry, rfl⟩ := isParent
    obtain ⟨row, isRow, same, -⟩ := mem_readers.mp isEntry
    rw [starts, ← same]
    exact List.mem_map_of_mem isRow
  case count_eq =>
    intro index child place start found located
    obtain ⟨row, rowFound, rfl⟩ := rowsOf.exists_row located
    have isRow := List.mem_of_getElem? rowFound
    have isChild : child ∈ childrenOf rows := children ▸ List.mem_of_getElem? found
    rw [rowsOf.parents_valid found, rowsOf.reads_valid rowFound,
      count_readers rowsOf.ascending isRow,
      rowsOf.count_edges wellFormed filled member isChild isRow]
  case parents_le =>
    intro index bound
    rw [rowsOf.parents_length (List.getElem?_eq_getElem bound), rowsOf.parents_cols]
    exact length_readers_le (children ▸ List.getElem_mem bound)
  case exists_widest => exact rowsOf.exists_widest wellFormed member
  case params =>
    intro isSum
    rw [kind_eq] at isSum
    obtain ⟨index, present, -⟩ := rowsOf.matrices.exists_params isSum
    obtain ⟨parentIndex, parentPresent, parentMade⟩ := rowsOf.matrices.exists_parentParams isSum
    refine ⟨index, parentIndex, present, parentPresent, fun row child found => ⟨?_, ?_⟩⟩
    · intro column
      rw [children] at found
      have starts := PaddedMatrix.row_fits parents (List.mem_of_getElem? found)
      have offsets := PaddedMatrix.row_fits parentMade (List.mem_of_getElem? found)
      rw [PaddedMatrix.row_eq parents found, PaddedMatrix.row_eq parentMade found,
        PaddedMatrix.padRow_eq_padding starts.1 starts.2,
        PaddedMatrix.padRow_eq_padding offsets.1 offsets.2, List.length_map, List.length_map]
    · intro column place start isParent located
      exact rowsOf.params_of_parent wellFormed filled member isSum present parentMade found isParent
        located

end RowsOf

end RowsOf

end Partition

/-! ## Layers of a plan -/

namespace Plan

variable {options : Options} {plan : Plan}

theorem ofCircuit_reverseIndexed (accepted : circuit.Accepted)
    (compiled : ofCircuit circuit options = .ok plan) :
    ∀ layer ∈ plan.innerLayers, ∀ partition ∈ layer.partitions,
      partition.ReverseIndexed circuit plan.slots layer := by
  intro layer isLayer partition isPartition
  have wellFormed := accepted.wellFormed
  have made := ofCircuit_made compiled
  obtain ⟨served, filled⟩ := SlotTable.exists_filled wellFormed made.slots
  obtain ⟨group, member, widths, bucketed⟩ := made.exists_bucketed isLayer
  obtain ⟨rows, rowsOf⟩ := bucketed.exists_rowsOf wellFormed filled member isPartition
  exact rowsOf.reverseIndexed wellFormed filled member bucketed.kind_eq bucketed.nodes_eq

theorem twin_reverseIndexed : ∃ plan, ofCircuit Circuit.twin {} = .ok plan ∧
    (∃ layer ∈ plan.innerLayers, layer.kind = .sum ∧ layer.partitions ≠ []) ∧
    ∀ layer ∈ plan.innerLayers, ∀ partition ∈ layer.partitions,
      partition.ReverseIndexed Circuit.twin plan.slots layer := by
  have passes : (ofCircuit Circuit.twin {}).toOption.any (fun plan =>
      decide (∃ layer ∈ plan.innerLayers, layer.kind = .sum ∧ layer.partitions ≠ [])) = true := by
    decide +kernel
  obtain ⟨plan, compiled, present⟩ := exists_ok_of_any passes
  exact ⟨plan, compiled, decide_eq_true_iff.mp present,
    ofCircuit_reverseIndexed Circuit.twin_accepted compiled⟩

end Plan
end CircuitPlan
