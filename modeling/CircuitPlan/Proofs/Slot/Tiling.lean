import CircuitPlan.Proofs.Slot.Table

namespace CircuitPlan

variable {circuit : Circuit} {table : SlotTable} {served : List (Purpose × Span)}
  {id owner : NodeId} {pool : Pool} {layer : Nat}

namespace Request

theorem mem_all (wellFormed : circuit.WellFormed) (reachable : id ∈ circuit.reachable)
    {request : Request} (member : request ∈ ofNode circuit id) :
    request ∈ all circuit (Layout.ofCircuit circuit) := by
  rw [all_eq, List.mem_flatMap]
  exact ⟨id, (Layout.mem_order wellFormed).mpr reachable, member⟩

theorem mem_all_of_params (wellFormed : circuit.WellFormed) (member : id ∈ pool.nodes circuit)
    {request : Request}
    (asked : request ∈ forParams circuit.sharing (circuit.owner id) id pool.params pool.flows
      (circuit.paramWidth id) (circuit.flowWidth id)) :
    request ∈ all circuit (Layout.ofCircuit circuit) := by
  obtain ⟨reachable, found⟩ := (Pool.mem_nodes wellFormed).mp member
  apply mem_all wellFormed reachable
  apply List.mem_cons_of_mem
  apply List.mem_append_right
  rw [ofParams, found]
  exact asked

end Request

theorem Pool.exists_first (wellFormed : circuit.WellFormed)
    (used : owner ∈ Sharing.owners circuit (pool.nodes circuit)) :
    ∃ first ∈ pool.nodes circuit, circuit.owner first = owner ∧
      circuit.sharing.isFirst owner first = true := by
  rw [← firsts_owners wellFormed, List.mem_map] at used
  obtain ⟨first, isFirst, rfl⟩ := used
  obtain ⟨member, isFirst⟩ := List.mem_filter.mp isFirst
  exact ⟨first, member, rfl, isFirst⟩

namespace SlotTable.Filled

theorem values_width (wellFormed : circuit.WellFormed) (filled : Filled circuit served table)
    (reachable : id ∈ circuit.reachable) :
    (table.valuesAt id).stop = (table.valuesAt id).start + (circuit.node id).numNodes ∧
      (table.valuesAt id).stop < padding := by
  rw [filled.valuesAt_eq reachable]
  exact filled.widths _ (Request.mem_all wellFormed reachable List.mem_cons_self)

theorem owner_widths (wellFormed : circuit.WellFormed) (filled : Filled circuit served table)
    (used : owner ∈ Sharing.owners circuit (pool.nodes circuit)) :
    ((spanOf served (.params owner)).stop =
        (spanOf served (.params owner)).start + circuit.paramWidth owner ∧
      (spanOf served (.params owner)).stop < padding) ∧
    ((spanOf served (.target owner)).stop =
        (spanOf served (.target owner)).start + circuit.flowWidth owner ∧
      (spanOf served (.target owner)).stop < padding) := by
  obtain ⟨first, member, rfl, isFirst⟩ := Pool.exists_first wellFormed used
  have owns := wellFormed.owns ((Pool.mem_nodes wellFormed).mp member).1
  rw [owns.paramWidth_eq, owns.flowWidth_eq]
  constructor
  · exact filled.widths _ (Request.mem_all_of_params wellFormed member
      (by rw [Request.forParams, isFirst]; exact List.mem_cons_self))
  · exact filled.widths _ (Request.mem_all_of_params wellFormed member
      (by rw [Request.forParams, isFirst]; exact List.mem_cons_of_mem _ List.mem_cons_self))

theorem flows_width (wellFormed : circuit.WellFormed) (filled : Filled circuit served table)
    (member : id ∈ pool.nodes circuit) :
    (table.flowsAt id).stop = (table.flowsAt id).start + circuit.flowWidth id ∧
      (table.flowsAt id).stop < padding := by
  rw [filled.flowsAt_eq wellFormed member, flowsOf]
  cases shared : circuit.sharing.usesTarget (circuit.owner id) id with
  | true =>
      have owns := wellFormed.owns ((Pool.mem_nodes wellFormed).mp member).1
      rw [if_pos rfl, ← owns.flowWidth_eq]
      exact (filled.owner_widths wellFormed (Pool.mem_owners.mpr ⟨id, member, rfl⟩)).2
  | false =>
      rw [if_neg Bool.false_ne_true]
      let request : Request := ⟨.flows id, pool.flows, id, circuit.flowWidth id⟩
      apply filled.widths request (Request.mem_all_of_params wellFormed member _)
      rw [Request.forParams, shared]
      exact List.mem_append_right _ (List.mem_singleton_self request)

theorem metadata_width (wellFormed : circuit.WellFormed) (filled : Filled circuit served table)
    (reachable : id ∈ circuit.reachable) {dist : Distribution}
    (kind : (circuit.node id).kind = .input dist) :
    (table.metadataAt id).stop = (table.metadataAt id).start + dist.metadata.length ∧
      (table.metadataAt id).stop < padding := by
  rw [filled.metadataAt_eq reachable kind]
  obtain ⟨group, member, inside⟩ :=
    Layout.exists_inputs reachable (Node.tag_eq_input.mpr ⟨dist, kind⟩)
  obtain ⟨layer, found⟩ := List.getElem?_of_mem member
  let request : Request := ⟨.metadata id, .inputMetadata layer, id, dist.metadata.length⟩
  apply filled.widths request (Request.mem_all wellFormed reachable _)
  apply List.mem_cons_of_mem
  apply List.mem_append_left
  rw [Request.ofMetadata, kind, Pool.of_input found inside]
  exact List.mem_singleton_self request

theorem values_consecutive (wellFormed : circuit.WellFormed)
    (filled : Filled circuit served table) :
    Span.Consecutive 0 ((Layout.ofCircuit circuit).order.map table.valuesAt) table.numValues := by
  have same : (Layout.ofCircuit circuit).order.map table.valuesAt =
      (Layout.ofCircuit circuit).order.map fun id => spanOf served (.values id) := by
    apply List.map_congr_left
    intro id member
    exact filled.valuesAt_eq ((Layout.mem_order wellFormed).mp member)
  rw [same]
  exact filled.values

theorem values_apart (wellFormed : circuit.WellFormed) (filled : Filled circuit served table)
    (reachable : id ∈ circuit.reachable) {other : NodeId}
    (otherReachable : other ∈ circuit.reachable)
    (different : id ≠ other) : Span.Apart (table.valuesAt id) (table.valuesAt other) :=
  (filled.values_consecutive wellFormed).apart table.valuesAt
    ((Layout.mem_order wellFormed).mpr reachable)
    ((Layout.mem_order wellFormed).mpr otherReachable) different

theorem values_bound (wellFormed : circuit.WellFormed) (filled : Filled circuit served table)
    (reachable : id ∈ circuit.reachable) : (table.valuesAt id).stop ≤ table.numValues :=
  ((filled.values_consecutive wellFormed).bounds
    (List.mem_map_of_mem ((Layout.mem_order wellFormed).mpr reachable))).2.2

theorem owners_nodup (circuit : Circuit) (pool : Pool) :
    (Sharing.owners circuit (pool.nodes circuit)).Nodup :=
  nodup_eraseDups _

theorem params_apart (wellFormed : circuit.WellFormed) (filled : Filled circuit served table)
    (member : id ∈ pool.nodes circuit) {other : NodeId} (otherMember : other ∈ pool.nodes circuit)
    (different : circuit.owner id ≠ circuit.owner other) :
    Span.Apart (table.paramsAt id) (table.paramsAt other) := by
  rw [filled.paramsAt_eq wellFormed member, filled.paramsAt_eq wellFormed otherMember]
  exact (filled.params pool).apart (fun owner => spanOf served (.params owner))
    (Pool.mem_owners.mpr ⟨id, member, rfl⟩)
    (Pool.mem_owners.mpr ⟨other, otherMember, rfl⟩) different

theorem params_width (wellFormed : circuit.WellFormed) (filled : Filled circuit served table)
    (member : id ∈ pool.nodes circuit) :
    (table.paramsAt id).stop = (table.paramsAt id).start + circuit.paramWidth id ∧
      (table.paramsAt id).stop ≤ table.numParams pool := by
  have used := Pool.mem_owners.mpr ⟨id, member, rfl⟩
  have owns := wellFormed.owns ((Pool.mem_nodes wellFormed).mp member).1
  rw [filled.paramsAt_eq wellFormed member, ← owns.paramWidth_eq]
  exact ⟨(filled.owner_widths wellFormed used).1.1,
    ((filled.params pool).bounds (List.mem_map_of_mem used)).2.2⟩

theorem metadata_consecutive (filled : Filled circuit served table) {group : InputGroup}
    (found : (Layout.ofCircuit circuit).inputs[layer]? = some group) :
    Span.Consecutive 0 (group.nodes.map table.metadataAt) (table.sizesOf layer).metadata := by
  have same : group.nodes.map table.metadataAt =
      ((Pool.inputs layer).nodes circuit).map fun id => spanOf served (.metadata id) := by
    rw [Pool.nodes_inputs found]
    apply List.map_congr_left
    intro id inside
    have member := List.mem_of_getElem? found
    obtain ⟨dist, kind⟩ := Node.tag_eq_input.mp (Layout.tag_of_mem_inputs member inside)
    exact filled.metadataAt_eq ((Layout.mem_nodes_inputs member).mp inside).1 kind
  rw [same]
  exact filled.metadata layer

theorem entries (filled : Filled circuit served table) :
    table.nodes.map (·.1) = circuit.reachable := by
  rw [filled.nodes_eq, List.map_map]
  exact List.map_id _

end SlotTable.Filled

def NodeSlots.ranges (slots : NodeSlots) : List Span :=
  slots.values :: (slots.params.toList ++ slots.flows.toList ++ slots.metadata.toList)

namespace SlotTable

theorem Filled.mem_ranges (wellFormed : circuit.WellFormed)
    (filled : Filled circuit served table) {slots : NodeSlots}
    (found : table.get? id = some slots) {range : Span} (member : range ∈ slots.ranges) :
    range = table.valuesAt id ∨
      (∃ pool : Pool, id ∈ pool.nodes circuit ∧
        (range = table.paramsAt id ∨ range = table.flowsAt id)) ∨
      ∃ dist, (circuit.node id).kind = .input dist ∧ range = table.metadataAt id := by
  have reachable := filled.reachable_of_get found
  rw [valuesAt, paramsAt, flowsAt, metadataAt, found]
  have slots_eq := Option.some.inj (found.symm.trans (filled.get_of_reachable reachable))
  cases List.mem_cons.mp member with
  | inl values => exact .inl values
  | inr member =>
      apply Or.inr
      cases kind : (circuit.node id).kind with
      | product => simp [slots_eq, nodeSlots, kind] at member
      | input dist =>
          obtain ⟨group, isGroup, inside⟩ :=
            Layout.exists_inputs reachable (Node.tag_eq_input.mpr ⟨dist, kind⟩)
          obtain ⟨layer, present⟩ := List.getElem?_of_mem isGroup
          have pooled : id ∈ (Pool.inputs layer).nodes circuit :=
            (Pool.mem_nodes wellFormed).mpr ⟨reachable, Pool.of_input present inside⟩
          rw [slots_eq, nodeSlots, kind] at member ⊢
          simp only [Option.toList_some, List.append_assoc, List.mem_append, List.mem_singleton]
            at member
          rcases member with params | flows | metadata
          · exact .inl ⟨_, pooled, .inl params⟩
          · exact .inl ⟨_, pooled, .inr flows⟩
          · exact .inr ⟨dist, rfl, metadata⟩
      | sum =>
          have pooled : id ∈ Pool.sums.nodes circuit :=
            (Pool.mem_nodes wellFormed).mpr ⟨reachable, Pool.of_sum kind⟩
          rw [slots_eq, nodeSlots, kind] at member ⊢
          simp only [Option.toList_some, Option.toList_none, List.append_nil, List.mem_append,
            List.mem_singleton] at member
          exact .inl ⟨_, pooled, member⟩

theorem Filled.ranges_below (wellFormed : circuit.WellFormed)
    (filled : Filled circuit served table) {slots : NodeSlots} (found : table.get? id = some slots)
    {range : Span} (member : range ∈ slots.ranges) : range.stop < padding := by
  have reachable := filled.reachable_of_get found
  rcases filled.mem_ranges wellFormed found member with
    rfl | ⟨pool, inside, rfl | rfl⟩ | ⟨dist, kind, rfl⟩
  · exact (filled.values_width wellFormed reachable).2
  · rw [filled.paramsAt_eq wellFormed inside]
    exact (filled.owner_widths wellFormed (Pool.mem_owners.mpr ⟨id, inside, rfl⟩)).1.2
  · exact (filled.flows_width wellFormed inside).2
  · exact (filled.metadata_width wellFormed reachable kind).2

/-- The ranges of a table fill their spaces as the circuit asks for. -/
structure Tiling (circuit : Circuit) (table : SlotTable) : Prop where
  entries : table.nodes.map (·.1) = circuit.reachable
  order : (Layout.ofCircuit circuit).order.Perm circuit.reachable
  values : Span.Consecutive 0 ((Layout.ofCircuit circuit).order.map table.valuesAt) table.numValues
  values_width : ∀ id ∈ circuit.reachable, (table.valuesAt id).stop =
    (table.valuesAt id).start + (circuit.node id).numGroups * circuit.groupSize
  pooled : ∀ id ∈ circuit.reachable, (circuit.node id).tag ≠ .product →
    ∃ pool : Pool, id ∈ pool.nodes circuit
  products : ∀ id ∈ circuit.reachable, (circuit.node id).tag = .product →
    ∃ slots, table.get? id = some slots ∧ slots.params = none
  params : ∀ pool : Pool, ∃ range : NodeId → Span,
    Span.Consecutive 0 ((Sharing.owners circuit (pool.nodes circuit)).map range)
      (table.numParams pool) ∧
    (∀ owner ∈ Sharing.owners circuit (pool.nodes circuit),
      (range owner).stop = (range owner).start + circuit.paramWidth owner) ∧
    ∀ id ∈ pool.nodes circuit, ∃ slots, table.get? id = some slots ∧
      slots.params = some (range (circuit.owner id))
  params_shared : ∀ pool : Pool, ∀ id ∈ pool.nodes circuit, ∀ other ∈ pool.nodes circuit,
    circuit.owner id = circuit.owner other → table.paramsAt id = table.paramsAt other
  params_apart : ∀ pool : Pool, ∀ id ∈ pool.nodes circuit, ∀ other ∈ pool.nodes circuit,
    circuit.owner id ≠ circuit.owner other →
      Span.Apart (table.paramsAt id) (table.paramsAt other)
  metadata : ∀ layer group, (Layout.ofCircuit circuit).inputs[layer]? = some group →
    Span.Consecutive 0 (group.nodes.map table.metadataAt) (table.sizesOf layer).metadata
  metadata_width : ∀ id ∈ circuit.reachable, ∀ dist, (circuit.node id).kind = .input dist →
    (∃ slots, table.get? id = some slots ∧ slots.metadata = some (table.metadataAt id)) ∧
      (table.metadataAt id).stop = (table.metadataAt id).start + dist.metadata.length
  below_padding : ∀ id slots, table.get? id = some slots →
    ∀ range ∈ slots.ranges, range.stop < padding
  ties_below_padding : ∀ pool, ∀ tie ∈ table.tiesOf pool,
    tie.params.stop < padding ∧ tie.target.stop < padding

theorem ofLayout_tiling (accepted : circuit.Accepted)
    (success : ofLayout circuit (Layout.ofCircuit circuit) = .ok table) :
    Tiling circuit table := by
  have wellFormed := accepted.wellFormed
  obtain ⟨served, filled⟩ := exists_filled wellFormed success
  constructor
  case entries => exact filled.entries
  case order =>
    rw [List.perm_ext_iff_of_nodup (Layout.order_nodup circuit) circuit.reachable_nodup]
    intro id
    exact Layout.mem_order wellFormed
  case values => exact filled.values_consecutive wellFormed
  case values_width =>
    intro id reachable
    rw [← (wellFormed.admits reachable).groupSize_eq]
    exact (filled.values_width wellFormed reachable).1
  case pooled =>
    intro id reachable parameterized
    obtain ⟨pool, found⟩ :=
      Option.ne_none_iff_exists'.mp ((Pool.of_eq_none reachable).not.mpr parameterized)
    exact ⟨pool, (Pool.mem_nodes wellFormed).mpr ⟨reachable, found⟩⟩
  case products =>
    intro id reachable tag
    refine ⟨_, filled.get_of_reachable reachable, ?_⟩
    rw [nodeSlots, Node.tag_eq_product.mp tag]
  case params =>
    intro pool
    refine ⟨fun owner => spanOf served (.params owner), filled.params pool, ?_, ?_⟩
    · intro owner used
      exact (filled.owner_widths wellFormed used).1.1
    · intro id member
      obtain ⟨slots, found, params, -⟩ := filled.reported wellFormed member
      exact ⟨slots, found, params⟩
  case params_shared =>
    intro pool id member other otherMember same
    rw [filled.paramsAt_eq wellFormed member, filled.paramsAt_eq wellFormed otherMember, same]
  case params_apart =>
    intro pool id member other otherMember different
    exact filled.params_apart wellFormed member otherMember different
  case metadata =>
    exact fun layer group found => filled.metadata_consecutive found
  case metadata_width =>
    intro id reachable dist kind
    refine ⟨⟨_, filled.get_of_reachable reachable, ?_⟩,
      (filled.metadata_width wellFormed reachable kind).1⟩
    rw [filled.metadataAt_eq reachable kind, nodeSlots, kind]
  case below_padding =>
    intro id slots found range member
    exact filled.ranges_below wellFormed found member
  case ties_below_padding =>
    intro pool tie member
    rw [filled.ties_eq, ties, List.mem_map] at member
    obtain ⟨owner, used, rfl⟩ := member
    have widths := filled.owner_widths wellFormed (List.mem_of_mem_filter used)
    exact ⟨widths.1.2, widths.2.2⟩

theorem twin_tiling : ∃ table,
    ofLayout Circuit.twin (Layout.ofCircuit Circuit.twin) = .ok table ∧
      Tiling Circuit.twin table := by
  have passes : (ofLayout Circuit.twin (Layout.ofCircuit Circuit.twin)).isOk = true := by
    decide +kernel
  obtain ⟨table, success⟩ := exists_of_isOk passes
  exact ⟨table, success, ofLayout_tiling Circuit.twin_accepted success⟩

end SlotTable
end CircuitPlan
