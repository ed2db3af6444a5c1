import CircuitPlan.Proofs.Execution.TiedFlows
import CircuitPlan.Proofs.Layer.Lanes
import CircuitPlan.Proofs.Layer.Places
import CircuitPlan.Proofs.Layout.Layering

namespace CircuitPlan

variable {circuit : Circuit} {table : SlotTable} {served : List (Purpose × Span)}
  {group : InputGroup} {layer : InputLayer} {index : Nat} {id : NodeId} {k : Nat}

theorem SlotTable.Filled.inputs_chain (wellFormed : circuit.WellFormed)
    (filled : table.Filled circuit served) : ∃ stop, Span.Consecutive 0
      ((Layout.ofCircuit circuit).inputs.flatMap fun group => group.nodes.map table.valuesAt)
      stop := by
  have chain := filled.values_consecutive wellFormed
  rw [Layout.order, List.map_append, List.map_flatMap] at chain
  obtain ⟨stop, inputs, -⟩ := chain.split
  exact ⟨stop, inputs⟩

namespace InputLayer

def paramSpan (circuit : Circuit) (layer : InputLayer) (index : Nat) : Span :=
  let start := layer.paramStarts.getD index 0
  ⟨start, start + (((circuit.places layer.nodes)[index]?).map fun place =>
    (circuit.node place.1).numParameters).getD 0⟩

def flowSpan (circuit : Circuit) (layer : InputLayer) (index : Nat) : Span :=
  let start := layer.flowStarts.getD index 0
  ⟨start, start + (((circuit.places layer.nodes)[index]?).map fun place =>
    (circuit.node place.1).numFlows).getD 0⟩

structure Entry (circuit : Circuit) (table : SlotTable) (layer : InputLayer) (index : Nat)
    (id : NodeId) (k : Nat) (dist : Distribution) : Prop where
  value : layer.values.start + index = (table.valuesAt id).start + k
  vars : layer.vars.valid index = (circuit.node id).scope.vars
  paramStart : layer.paramStarts[index]? =
    some ((table.ownerParams circuit (circuit.owner id)).start + k * dist.numParameters)
  params_inside : (table.ownerParams circuit (circuit.owner id)).start + k * dist.numParameters +
    dist.numParameters ≤ (table.ownerParams circuit (circuit.owner id)).stop
  flowStart : layer.flowStarts[index]? = some ((table.flowsAt id).start + k * dist.numFlows)
  flows_inside : (table.flowsAt id).start + k * dist.numFlows + dist.numFlows ≤
    (table.flowsAt id).stop
  metadataStart : layer.metadataStarts[index]? = some (table.metadataAt id).start
  metadata : dist.metadata <+: layer.metadata.drop (table.metadataAt id).start

structure Indexed (circuit : Circuit) (table : SlotTable) (layer : InputLayer) : Prop where
  places : (circuit.places layer.nodes).length = layer.values.size
  params_length : layer.paramStarts.length = layer.values.size
  flows_length : layer.flowStarts.length = layer.values.size
  metadata_length : layer.metadataStarts.length = layer.values.size
  vars_rows : layer.vars.rows = layer.values.size
  reported : ∀ id ∈ layer.nodes, ∃ slots, table.get? id = some slots ∧
    slots.values = table.valuesAt id ∧
    slots.params = some (table.ownerParams circuit (circuit.owner id)) ∧
    slots.flows = some (table.flowsAt id) ∧ slots.metadata = some (table.metadataAt id)
  entry : ∀ index id k, (circuit.places layer.nodes)[index]? = some (id, k) →
    ∃ dist, (circuit.node id).kind = .input dist ∧ layer.Entry circuit table index id k dist
  sources_lt : ∀ source ∈ layer.sources, source < layer.numNodes
  sources : Span.Consecutive 0 (layer.sources.map (layer.paramSpan circuit)) layer.numParameters
  flows_apart : ∀ left < layer.numNodes, ∀ right < layer.numNodes, left ≠ right →
    Span.Apart (layer.flowSpan circuit left) (layer.flowSpan circuit right)
  flows_bound : ∀ index < layer.numNodes, (layer.flowSpan circuit index).stop ≤ layer.numFlows

namespace Made

variable (wellFormed : circuit.WellFormed) (filled : table.Filled circuit served)
  (made : Made circuit table group layer)
include made

theorem nodes_eq : layer.nodes = group.nodes := by
  rw [made.layer_eq]
  rfl

theorem group_eq : InputGroup.mk layer.signature layer.nodes = group := by
  rw [made.layer_eq]
  rfl

theorem pool_nodes : (Pool.inputs layer.index).nodes circuit = layer.nodes := by
  rw [made.nodes_eq, Pool.nodes_inputs made.found]

theorem kind_of_mem (inside : id ∈ layer.nodes) :
    id ∈ circuit.reachable ∧ ∃ dist, (circuit.node id).kind = .input dist := by
  rw [made.nodes_eq] at inside
  have member := List.mem_of_getElem? made.found
  exact ⟨((Layout.mem_nodes_inputs member).mp inside).1,
    Node.tag_eq_input.mp (Layout.tag_of_mem_inputs member inside)⟩

/-! ## Columns -/

theorem values_eq : layer.values = Span.hull (layer.nodes.map table.valuesAt) := by
  rw [made.nodes_eq, made.layer_eq]
  rfl

theorem paramStarts_eq : layer.paramStarts = (circuit.places layer.nodes).map fun place =>
    (table.paramsAt place.1).start + place.2 * (circuit.node place.1).numParameters := by
  rw [made.nodes_eq, made.layer_eq]
  simp [ofPlaces, scalarAt]

theorem flowStarts_eq : layer.flowStarts = (circuit.places layer.nodes).map fun place =>
    (table.flowsAt place.1).start + place.2 * (circuit.node place.1).numFlows := by
  rw [made.nodes_eq, made.layer_eq]
  simp [ofPlaces, scalarAt]

theorem metadataStarts_eq : layer.metadataStarts = (circuit.places layer.nodes).map fun place =>
    (table.metadataAt place.1).start := by
  rw [made.nodes_eq, made.layer_eq]
  simp [ofPlaces, scalarAt]

theorem numNodes_eq : layer.numNodes = (circuit.places layer.nodes).length := by
  rw [numNodes, made.paramStarts_eq, List.length_map]

theorem exists_place (inside : index < layer.numNodes) :
    ∃ id k, (circuit.places layer.nodes)[index]? = some (id, k) := by
  rw [made.numNodes_eq] at inside
  exact ⟨_, _, List.getElem?_eq_getElem inside⟩

theorem paramSpan_eq {place : NodeId × Nat}
    (found : (circuit.places layer.nodes)[index]? = some place) :
    layer.paramSpan circuit index =
      ⟨(table.paramsAt place.1).start + place.2 * (circuit.node place.1).numParameters,
        (table.paramsAt place.1).start + place.2 * (circuit.node place.1).numParameters +
          (circuit.node place.1).numParameters⟩ := by
  rw [paramSpan, made.paramStarts_eq, List.getD_eq_getElem?_getD, List.getElem?_map, found]
  rfl

theorem flowSpan_eq {place : NodeId × Nat}
    (found : (circuit.places layer.nodes)[index]? = some place) :
    layer.flowSpan circuit index =
      ⟨(table.flowsAt place.1).start + place.2 * (circuit.node place.1).numFlows,
        (table.flowsAt place.1).start + place.2 * (circuit.node place.1).numFlows +
          (circuit.node place.1).numFlows⟩ := by
  rw [flowSpan, made.flowStarts_eq, List.getD_eq_getElem?_getD, List.getElem?_map, found]
  rfl

theorem sources_eq : layer.sources =
    ((circuit.places layer.nodes).zipIdx.filter fun entry =>
      (firstOfOwners circuit layer.nodes).contains entry.1.1).map (·.2) := by
  rw [made.nodes_eq, made.layer_eq]
  simp [ofPlaces, scalarAt, List.zipIdx_map, List.filter_map, Function.comp_def]

theorem firsts_congr {β : Type} {f g : NodeId → β}
    (same : ∀ id ∈ (Pool.inputs layer.index).nodes circuit, f id = g id) :
    (firstOfOwners circuit layer.nodes).map f = (firstOfOwners circuit layer.nodes).map g := by
  rw [made.pool_nodes] at same
  exact List.map_congr_left fun id first => same id (mem_of_first first)

theorem owners_firsts : (firstOfOwners circuit layer.nodes).map circuit.owner =
    Sharing.owners circuit layer.nodes := by
  apply InputLayer.owners_firsts
  · rw [← made.pool_nodes]
    exact Pool.nodes_nodup circuit _
  · intro id inside
    obtain ⟨-, dist, kind⟩ := made.kind_of_mem inside
    rw [Node.tag, kind]
    exact Tag.noConfusion

include wellFormed filled

/-! ## Values -/

theorem values_chain :
    Span.Consecutive layer.values.start (layer.nodes.map table.valuesAt) layer.values.stop := by
  have member := List.mem_of_getElem? made.found
  obtain ⟨_, chain⟩ := filled.inputs_chain wellFormed
  rw [made.values_eq, made.nodes_eq]
  exact chain.piece member (by simpa using Layout.inputs_nonempty member)

theorem offsets_eq : ((circuit.places layer.nodes).map fun place =>
    (table.valuesAt place.1).start + place.2) =
      List.range' layer.values.start layer.values.size := by
  rw [Span.size, ← (made.values_chain wellFormed filled).offsets_eq, Circuit.places,
    List.map_flatMap]
  apply List.flatMap_congr
  intro id inside
  have width := (filled.values_width wellFormed (made.kind_of_mem inside).1).1
  rw [List.map_map, Span.size, width, Nat.add_sub_cancel_left]
  rfl

theorem places_length : (circuit.places layer.nodes).length = layer.values.size := by
  have lengths := congrArg List.length (made.offsets_eq wellFormed filled)
  rwa [List.length_map, List.length_range'] at lengths

theorem value_eq (found : (circuit.places layer.nodes)[index]? = some (id, k)) :
    layer.values.start + index = (table.valuesAt id).start + k := by
  have offsets := congrArg (·[index]?) (made.offsets_eq wellFormed filled)
  have inside := (List.getElem?_eq_some_iff.mp found).1
  rw [made.places_length wellFormed filled] at inside
  simpa [found, List.getElem?_range', inside] using offsets.symm

/-! ## Parameters -/

theorem params_width (inside : id ∈ layer.nodes) : (table.paramsAt id).stop =
    (table.paramsAt id).start + (circuit.node id).numNodes * (circuit.node id).numParameters := by
  obtain ⟨-, dist, kind⟩ := made.kind_of_mem inside
  rw [← made.pool_nodes] at inside
  rw [(filled.params_width wellFormed inside).1, Circuit.paramWidth, kind,
    Node.numParameters_eq kind]

theorem params_chain : Span.Consecutive 0
    ((firstOfOwners circuit layer.nodes).map table.paramsAt) layer.numParameters := by
  have chain := filled.params (.inputs layer.index)
  have reported : (firstOfOwners circuit layer.nodes).map table.paramsAt =
      ((firstOfOwners circuit layer.nodes).map circuit.owner).map fun owner =>
        SlotTable.spanOf served (.params owner) := by
    rw [List.map_map]
    exact made.firsts_congr fun id inside => filled.paramsAt_eq wellFormed inside
  have size : layer.numParameters = table.numParams (.inputs layer.index) :=
    congrArg (·.numParameters) made.layer_eq
  rw [reported, made.owners_firsts, size, ← made.pool_nodes]
  exact chain

theorem sources_chain : Span.Consecutive 0
    (layer.sources.map (layer.paramSpan circuit)) layer.numParameters := by
  rw [made.sources_eq, map_filter_zipIdx (fun place : NodeId × Nat =>
      (firstOfOwners circuit layer.nodes).contains place.1) fun index place => made.paramSpan_eq,
    Circuit.places_filter, filter_firsts, Circuit.places, List.map_flatMap]
  apply (made.params_chain wellFormed filled).flatMap
  intro id first
  rw [made.params_width wellFormed filled (mem_of_first first), List.map_map]
  exact Span.consecutive_parts (table.paramsAt id).start (circuit.node id).numNodes
    (circuit.node id).numParameters

/-! ## Flows -/

theorem flows_width (inside : id ∈ layer.nodes) : (table.flowsAt id).stop =
    (table.flowsAt id).start + (circuit.node id).numNodes * (circuit.node id).numFlows := by
  obtain ⟨-, dist, kind⟩ := made.kind_of_mem inside
  rw [← made.pool_nodes] at inside
  rw [(filled.flows_width wellFormed inside).1, Circuit.flowWidth, kind, Node.numFlows_eq kind]

theorem flowSpan_inside (found : (circuit.places layer.nodes)[index]? = some (id, k)) :
    (table.flowsAt id).start ≤ (layer.flowSpan circuit index).start ∧
      (layer.flowSpan circuit index).stop ≤ (table.flowsAt id).stop := by
  obtain ⟨inside, bound⟩ := Circuit.mem_places.mp (List.mem_of_getElem? found)
  rw [made.flowSpan_eq found, made.flows_width wellFormed filled inside]
  exact Span.part_inside bound

theorem flows_apart {left right : Nat} (leftInside : left < layer.numNodes)
    (rightInside : right < layer.numNodes) (different : left ≠ right) :
    Span.Apart (layer.flowSpan circuit left) (layer.flowSpan circuit right) := by
  obtain ⟨id, k, found⟩ := made.exists_place leftInside
  obtain ⟨other, l, otherFound⟩ := made.exists_place rightInside
  obtain ⟨inside, bound⟩ := Circuit.mem_places.mp (List.mem_of_getElem? found)
  obtain ⟨otherInside, otherBound⟩ := Circuit.mem_places.mp (List.mem_of_getElem? otherFound)
  by_cases same : id = other
  · subst same
    have value := made.value_eq wellFormed filled found
    have otherValue := made.value_eq wellFormed filled otherFound
    rw [made.flowSpan_eq found, made.flowSpan_eq otherFound]
    exact Span.parts_apart bound otherBound (by omega)
  · rw [← made.pool_nodes] at inside otherInside
    exact (filled.flows_apart wellFormed inside otherInside same).mono
      (made.flowSpan_inside wellFormed filled found)
      (made.flowSpan_inside wellFormed filled otherFound)

theorem flowSpan_bound (inside : index < layer.numNodes) :
    (layer.flowSpan circuit index).stop ≤ layer.numFlows := by
  obtain ⟨id, k, found⟩ := made.exists_place inside
  have within := (Circuit.mem_places.mp (List.mem_of_getElem? found)).1
  rw [← made.pool_nodes] at within
  have size : layer.numFlows = table.numFlows (.inputs layer.index) :=
    congrArg (·.numFlows) made.layer_eq
  rw [size]
  exact Nat.le_trans (made.flowSpan_inside wellFormed filled found).2
    (filled.flows_bound wellFormed within)

/-! ## Metadata -/

theorem metadata_prefix {dist : Distribution} (kind : (circuit.node id).kind = .input dist)
    (inside : id ∈ layer.nodes) :
    dist.metadata <+: layer.metadata.drop (table.metadataAt id).start := by
  have gathered : layer.metadata = layer.nodes.flatMap fun id => (circuit.node id).metadata := by
    rw [made.nodes_eq, made.layer_eq]
    rfl
  have chain := filled.metadata_consecutive made.found
  rw [← made.nodes_eq] at chain
  have widths : ∀ id ∈ layer.nodes, (table.metadataAt id).stop =
      (table.metadataAt id).start + (circuit.node id).metadata.length := by
    intro id inside
    obtain ⟨reachable, dist, kind⟩ := made.kind_of_mem inside
    rw [Node.metadata_eq kind]
    exact (filled.metadata_width wellFormed reachable kind).1
  have located := chain.prefix_drop widths inside
  rwa [Nat.sub_zero, ← gathered, Node.metadata_eq kind] at located

/-! ## The layer as a whole -/

theorem reported (inside : id ∈ layer.nodes) : ∃ slots, table.get? id = some slots ∧
    slots.values = table.valuesAt id ∧
    slots.params = some (table.ownerParams circuit (circuit.owner id)) ∧
    slots.flows = some (table.flowsAt id) ∧ slots.metadata = some (table.metadataAt id) := by
  obtain ⟨reachable, dist, kind⟩ := made.kind_of_mem inside
  rw [← made.pool_nodes] at inside
  have found := filled.get_of_reachable reachable
  refine ⟨_, found, SlotTable.valuesAt_of_get (filled.get_ok reachable), ?_⟩
  rw [filled.ownerParams_eq wellFormed inside, SlotTable.paramsAt, SlotTable.flowsAt,
    SlotTable.metadataAt, found]
  unfold SlotTable.nodeSlots
  rw [kind]
  exact ⟨rfl, rfl, rfl⟩

theorem entry {dist : Distribution} (kind : (circuit.node id).kind = .input dist)
    (found : (circuit.places layer.nodes)[index]? = some (id, k)) :
    layer.Entry circuit table index id k dist := by
  obtain ⟨inside, bound⟩ := Circuit.mem_places.mp (List.mem_of_getElem? found)
  have pooled := inside
  rw [← made.pool_nodes] at pooled
  have owned := filled.ownerParams_eq wellFormed pooled
  constructor
  case value => exact made.value_eq wellFormed filled found
  case vars =>
    have matrix := made.matrix
    rw [← made.nodes_eq, matrixOf] at matrix
    exact PaddedMatrix.valid_eq (f := fun place => (circuit.node place.1).scope.vars) matrix found
  case paramStart =>
    rw [made.paramStarts_eq, List.getElem?_map, found, owned, ← Node.numParameters_eq kind]
    rfl
  case params_inside =>
    rw [owned, made.params_width wellFormed filled inside, ← Node.numParameters_eq kind]
    exact (Span.part_inside bound).2
  case flowStart =>
    rw [made.flowStarts_eq, List.getElem?_map, found, ← Node.numFlows_eq kind]
    rfl
  case flows_inside =>
    rw [made.flows_width wellFormed filled inside, ← Node.numFlows_eq kind]
    exact (Span.part_inside bound).2
  case metadataStart =>
    rw [made.metadataStarts_eq, List.getElem?_map, found]
    rfl
  case metadata => exact made.metadata_prefix wellFormed filled kind inside

theorem indexed : layer.Indexed circuit table := by
  have places := made.places_length wellFormed filled
  constructor
  case places => exact places
  case params_length => rw [made.paramStarts_eq, List.length_map, places]
  case flows_length => rw [made.flowStarts_eq, List.length_map, places]
  case metadata_length => rw [made.metadataStarts_eq, List.length_map, places]
  case vars_rows =>
    obtain ⟨-, matrix⟩ := PaddedMatrix.ofRows_eq_ok.mp made.matrix
    rw [matrix, ← places, made.nodes_eq]
    exact List.length_map _
  case reported => exact fun id inside => made.reported wellFormed filled inside
  case entry =>
    intro index id k found
    have inside := (Circuit.mem_places.mp (List.mem_of_getElem? found)).1
    obtain ⟨-, dist, kind⟩ := made.kind_of_mem inside
    exact ⟨dist, kind, made.entry wellFormed filled kind found⟩
  case sources_lt =>
    intro source isSource
    rw [made.sources_eq, List.mem_map] at isSource
    obtain ⟨⟨place, index⟩, member, rfl⟩ := isSource
    have found : (circuit.places layer.nodes)[index]? = some place :=
      List.mem_zipIdx_iff_getElem?.mp (List.mem_of_mem_filter member)
    rw [made.numNodes_eq]
    exact (List.getElem?_eq_some_iff.mp found).1
  case sources => exact made.sources_chain wellFormed filled
  case flows_apart =>
    intro left leftInside right rightInside different
    exact made.flows_apart wellFormed filled leftInside rightInside different
  case flows_bound => exact fun index inside => made.flowSpan_bound wellFormed filled inside

end Made
end InputLayer

namespace Plan

/-- The input layers are those of the layout, and together they have the first values. -/
structure InputsIndexed (circuit : Circuit) (plan : Plan) : Prop where
  groups : (plan.inputLayers.map fun layer => InputGroup.mk layer.signature layer.nodes) =
    (Layout.ofCircuit circuit).inputs
  index : ∀ (index : Nat) (layer : InputLayer), plan.inputLayers[index]? = some layer →
    layer.index = index
  layers : ∀ layer ∈ plan.inputLayers, layer.Indexed circuit plan.slots
  values : ∃ stop, Span.Consecutive 0 (plan.inputLayers.map (·.values)) stop

variable {options : Options} {plan : Plan}

theorem Made.groups_eq (made : Made circuit options plan)
    (filled : plan.slots.Filled circuit served) :
    (plan.inputLayers.map fun layer => InputGroup.mk layer.signature layer.nodes) =
      (Layout.ofCircuit circuit).inputs := by
  apply List.ext_getElem?
  intro index
  rw [List.getElem?_map]
  cases found : plan.inputLayers[index]? with
  | none =>
      rw [List.getElem?_eq_none_iff, made.numInputLayers] at found
      rw [List.getElem?_eq_none found]
      rfl
  | some layer =>
      obtain ⟨rfl, group, layerMade⟩ := made.exists_inputLayer filled found
      rw [layerMade.found, Option.map_some, layerMade.group_eq]

theorem ofCircuit_inputsIndexed (accepted : circuit.Accepted)
    (success : ofCircuit circuit options = .ok plan) : plan.InputsIndexed circuit := by
  have wellFormed := accepted.wellFormed
  have made := ofCircuit_made success
  obtain ⟨served, filled⟩ := SlotTable.exists_filled wellFormed made.slots
  have groups := made.groups_eq filled
  have layers (layer : InputLayer) (member : layer ∈ plan.inputLayers) :
      ∃ group, layer.Made circuit plan.slots group := by
    obtain ⟨index, found⟩ := List.getElem?_of_mem member
    exact (made.exists_inputLayer filled found).2
  constructor
  case groups => exact groups
  case index => exact fun index layer found => (made.exists_inputLayer filled found).1
  case layers =>
    intro layer member
    obtain ⟨group, layerMade⟩ := layers layer member
    exact layerMade.indexed wellFormed filled
  case values =>
    obtain ⟨stop, chain⟩ := filled.inputs_chain wellFormed
    have hulls := chain.hulls fun group member => by
      simpa using Layout.inputs_nonempty member
    rw [← groups, List.map_map] at hulls
    have values : plan.inputLayers.map (·.values) = plan.inputLayers.map fun layer =>
        Span.hull (layer.nodes.map plan.slots.valuesAt) := by
      apply List.map_congr_left
      intro layer member
      obtain ⟨group, layerMade⟩ := layers layer member
      exact layerMade.values_eq
    rw [values]
    exact ⟨stop, hulls⟩

theorem twin_inputsIndexed : ∃ plan, ofCircuit Circuit.twin {} = .ok plan ∧
    plan.inputLayers.map (·.paramStarts) = [[0, 2, 0, 2, 0, 2, 4, 6]] ∧
    plan.inputLayers.map (·.sources) = [[0, 1, 6, 7]] ∧ plan.InputsIndexed Circuit.twin := by
  have passes : (ofCircuit Circuit.twin {}).toOption.any (fun plan => decide
      (plan.inputLayers.map (·.paramStarts) = [[0, 2, 0, 2, 0, 2, 4, 6]] ∧
        plan.inputLayers.map (·.sources) = [[0, 1, 6, 7]])) = true := by decide +kernel
  obtain ⟨plan, compiled, columns⟩ := exists_ok_of_any passes
  obtain ⟨params, sources⟩ := of_decide_eq_true columns
  exact ⟨plan, compiled, params, sources, ofCircuit_inputsIndexed Circuit.twin_accepted compiled⟩

end Plan
end CircuitPlan
