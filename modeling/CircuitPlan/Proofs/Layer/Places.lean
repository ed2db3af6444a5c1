import CircuitPlan.Layer.Input
import CircuitPlan.Proofs.PaddedMatrix
import CircuitPlan.Proofs.Plan
import CircuitPlan.Proofs.Layer.Rows
import CircuitPlan.Proofs.Slot.Tiling

namespace CircuitPlan

variable {circuit : Circuit} {table : SlotTable} {served : List (Purpose × Span)} {id : NodeId}

theorem map_filter_zipIdx {α β : Type} (keep : α → Bool) {xs : List α} {f : Nat → β} {g : α → β}
    (same : ∀ index x, xs[index]? = some x → f index = g x) :
    ((xs.zipIdx.filter fun entry => keep entry.1).map (·.2)).map f = (xs.filter keep).map g := by
  have kept : xs.filter keep = (xs.zipIdx.filter fun entry => keep entry.1).map (·.1) := by
    conv_lhs => rw [← List.zipIdx_map_fst 0 xs, List.filter_map]
    rfl
  rw [kept, List.map_map, List.map_map]
  apply List.map_congr_left
  intro entry member
  exact same _ _ (List.mem_zipIdx_iff_getElem?.mp (List.mem_of_mem_filter member))

namespace Node

def numParameters (node : Node) : Nat := (node.kind.dist?.map (·.numParameters)).getD 0

def numFlows (node : Node) : Nat := (node.kind.dist?.map (·.numFlows)).getD 0

def metadata (node : Node) : List Single := (node.kind.dist?.map (·.metadata)).getD []

variable {node : Node} {dist : Distribution}

theorem numParameters_eq (kind : node.kind = .input dist) :
    node.numParameters = dist.numParameters := by
  rw [numParameters, kind]
  rfl

theorem numFlows_eq (kind : node.kind = .input dist) : node.numFlows = dist.numFlows := by
  rw [numFlows, kind]
  rfl

theorem metadata_eq (kind : node.kind = .input dist) : node.metadata = dist.metadata := by
  rw [metadata, kind]
  rfl

end Node

def Circuit.places (circuit : Circuit) (nodes : List NodeId) : List (NodeId × Nat) :=
  nodes.flatMap fun id => (List.range (circuit.node id).numNodes).map fun k => (id, k)

theorem Circuit.mem_places {nodes : List NodeId} {place : NodeId × Nat} :
    place ∈ circuit.places nodes ↔ place.1 ∈ nodes ∧ place.2 < (circuit.node place.1).numNodes := by
  obtain ⟨id, k⟩ := place
  simp only [places, List.mem_flatMap, List.mem_map, List.mem_range, Prod.mk.injEq]
  constructor
  · rintro ⟨_, inside, _, bound, rfl, rfl⟩
    exact ⟨inside, bound⟩
  · intro ⟨inside, bound⟩
    exact ⟨id, inside, k, bound, rfl, rfl⟩

theorem Circuit.places_filter (circuit : Circuit) (keep : NodeId → Bool) (nodes : List NodeId) :
    ((circuit.places nodes).filter fun place => keep place.1) =
      circuit.places (nodes.filter keep) := by
  induction nodes with
  | nil => rfl
  | cons id nodes ih =>
      have own : (((List.range (circuit.node id).numNodes).map fun k => (id, k)).filter
          fun place => keep place.1) =
          if keep id then (List.range (circuit.node id).numNodes).map fun k => (id, k) else [] := by
        rw [List.filter_map]
        split <;> simp [*, Function.comp_def]
      rw [places, List.flatMap_cons, List.filter_append, ← places, ih, own, List.filter_cons]
      split
      · rfl
      · rw [List.nil_append]

theorem Sharing.members_ofOrder {nodes : List NodeId}
    (parameterized : ∀ id ∈ nodes, (circuit.node id).tag ≠ .product) (owner : NodeId) :
    (ofOrder circuit nodes).members owner = nodes.filter fun id => circuit.owner id == owner := by
  have all : (nodes.filter fun id => (circuit.node id).tag ≠ .product) = nodes := by
    rw [List.filter_eq_self]
    intro id inside
    exact decide_eq_true (parameterized id inside)
  rw [members, ofOrder, all, List.filter_map, List.map_map]
  exact List.map_id _

theorem InputLayer.mem_of_first {nodes : List NodeId} (first : id ∈ firstOfOwners circuit nodes) :
    id ∈ nodes :=
  List.mem_of_mem_filter first

theorem InputLayer.owners_firsts {nodes : List NodeId} (distinct : nodes.Nodup)
    (parameterized : ∀ id ∈ nodes, (circuit.node id).tag ≠ .product) :
    (firstOfOwners circuit nodes).map circuit.owner = Sharing.owners circuit nodes := by
  simp only [firstOfOwners, Sharing.isFirst, Sharing.members_ofOrder parameterized]
  exact map_firsts circuit.owner distinct

theorem InputLayer.filter_firsts (circuit : Circuit) (nodes : List NodeId) :
    nodes.filter (firstOfOwners circuit nodes).contains = firstOfOwners circuit nodes := by
  conv_rhs => rw [firstOfOwners]
  apply List.filter_congr
  intro id inside
  simp [firstOfOwners, inside]

theorem SlotTable.Filled.get_ok (filled : Filled circuit served table)
    (reachable : id ∈ circuit.reachable) :
    table.get id =
      .ok (nodeSlots circuit (Layout.ofCircuit circuit) circuit.sharing served id) :=
  get_eq_ok.mpr (filled.get_of_reachable reachable)

namespace InputLayer

def scalarAt (circuit : Circuit) (table : SlotTable) (firsts : List NodeId) (place : NodeId × Nat) :
    InputScalar where
  vars := (circuit.node place.1).scope.vars
  paramStart := (table.paramsAt place.1).start + place.2 * (circuit.node place.1).numParameters
  flowStart := (table.flowsAt place.1).start + place.2 * (circuit.node place.1).numFlows
  metadataStart := (table.metadataAt place.1).start
  isSource := firsts.contains place.1

theorem scalars_eq (filled : table.Filled circuit served) (reachable : id ∈ circuit.reachable)
    {dist : Distribution} (kind : (circuit.node id).kind = .input dist) (firsts : List NodeId) :
    scalars circuit table firsts id =
      .ok ((List.range (circuit.node id).numNodes).map fun k =>
        scalarAt circuit table firsts (id, k)) := by
  have slots := filled.get_of_reachable reachable
  rw [scalars, filled.get_ok reachable, ok_bind]
  simp only [scalarAt, Node.numParameters_eq kind, Node.numFlows_eq kind, SlotTable.paramsAt,
    SlotTable.flowsAt, SlotTable.metadataAt, slots]
  unfold SlotTable.nodeSlots
  rw [kind]
  rfl

def ofPlaces (circuit : Circuit) (table : SlotTable) (index : Nat) (group : InputGroup)
    (reduction : Reduction) (vars : PaddedMatrix) : InputLayer :=
  let entries := (circuit.places group.nodes).map
    (scalarAt circuit table (firstOfOwners circuit group.nodes))
  { index
    signature := group.signature
    nodes := group.nodes
    values := Span.hull (group.nodes.map table.valuesAt)
    vars
    paramStarts := entries.map (·.paramStart)
    flowStarts := entries.map (·.flowStart)
    metadataStarts := entries.map (·.metadataStart)
    sources := (entries.zipIdx.filter fun entry => entry.1.isSource).map (·.2)
    metadata := group.nodes.flatMap fun id => (circuit.node id).metadata
    numParameters := table.numParams (.inputs index)
    numFlows := table.numFlows (.inputs index)
    reduction }

def matrixOf (circuit : Circuit) (nodes : List NodeId) : Except Fault PaddedMatrix :=
  PaddedMatrix.ofRows ((circuit.places nodes).map fun place => (circuit.node place.1).scope.vars)
    (((nodes.filterMap fun id => (circuit.node id).kind.dist?).map (·.numVars)).foldl max 0)

theorem ofGroup_eq (filled : table.Filled circuit served) {group : InputGroup}
    (member : group ∈ (Layout.ofCircuit circuit).inputs) (index : Nat) (reduction : Reduction) :
    ofGroup circuit table index group reduction =
      (matrixOf circuit group.nodes).map (ofPlaces circuit table index group reduction) := by
  have reachable (id : NodeId) (inside : id ∈ group.nodes) : id ∈ circuit.reachable :=
    ((Layout.mem_nodes_inputs member).mp inside).1
  have slots := mapM_ok (f := table.get) fun id inside => filled.get_ok (reachable id inside)
  have values : (group.nodes.map (SlotTable.nodeSlots circuit (Layout.ofCircuit circuit)
      circuit.sharing served)).map (·.values) = group.nodes.map table.valuesAt := by
    rw [List.map_map]
    apply List.map_congr_left
    intro id inside
    exact SlotTable.valuesAt_of_get (filled.get_ok (reachable id inside))
  have entries := mapM_ok (f := scalars circuit table (firstOfOwners circuit group.nodes))
    fun id inside => by
      obtain ⟨dist, kind⟩ := Node.tag_eq_input.mp (Layout.tag_of_mem_inputs member inside)
      exact scalars_eq filled (reachable id inside) kind _
  have flattened : (group.nodes.map fun id => (List.range (circuit.node id).numNodes).map fun k =>
        scalarAt circuit table (firstOfOwners circuit group.nodes) (id, k)).flatten =
      (circuit.places group.nodes).map
        (scalarAt circuit table (firstOfOwners circuit group.nodes)) := by
    rw [← List.flatMap_def, Circuit.places, List.map_flatMap]
    simp only [List.map_map, Function.comp_def]
  have metadata : (group.nodes.filterMap fun id => (circuit.node id).kind.dist?).flatMap
      (·.metadata) = group.nodes.flatMap fun id => (circuit.node id).metadata := by
    rw [List.filterMap_eq_flatMap_toList, List.flatMap_assoc]
    apply List.flatMap_congr
    intro id _
    cases kind : (circuit.node id).kind <;> simp [Node.metadata, NodeKind.dist?, kind]
  rw [ofGroup, slots, ok_bind]
  dsimp only
  rw [entries, ok_bind, flattened, values, metadata, List.map_map]
  rfl

structure Made (circuit : Circuit) (table : SlotTable) (group : InputGroup) (layer : InputLayer) :
    Prop where
  found : (Layout.ofCircuit circuit).inputs[layer.index]? = some group
  matrix : matrixOf circuit group.nodes = .ok layer.vars
  layer_eq : layer = ofPlaces circuit table layer.index group layer.reduction layer.vars

end InputLayer

theorem Plan.Made.exists_inputLayer {plan : Plan} {options : Options}
    (made : Plan.Made circuit options plan) (filled : plan.slots.Filled circuit served)
    {index : Nat} {layer : InputLayer} (found : plan.inputLayers[index]? = some layer) :
    layer.index = index ∧ ∃ group, layer.Made circuit plan.slots group := by
  obtain ⟨⟨group, position⟩, indexed, success⟩ :=
    forall₂_getElem? (mapM_eq_ok.mp made.inputLayers) found
  obtain ⟨present, same⟩ : (Layout.ofCircuit circuit).inputs[index]? = some group ∧
      index = position := by simpa using indexed
  subst same
  obtain ⟨reduction, -, success⟩ := bind_eq_ok.mp success
  rw [mapError_eq_ok, InputLayer.ofGroup_eq filled (List.mem_of_getElem? present),
    map_eq_ok] at success
  obtain ⟨vars, matrix, rfl⟩ := success
  exact ⟨rfl, group, present, matrix, rfl⟩

end CircuitPlan
