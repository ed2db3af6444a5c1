import CircuitPlan.Proofs.Ascending
import CircuitPlan.Proofs.Slot.Ranges

namespace CircuitPlan

namespace SlotTable

def valuesAt (table : SlotTable) (id : NodeId) : Span :=
  ((table.get? id).map (·.values)).getD ⟨0, 0⟩

def paramsAt (table : SlotTable) (id : NodeId) : Span :=
  ((table.get? id).bind (·.params)).getD ⟨0, 0⟩

def flowsAt (table : SlotTable) (id : NodeId) : Span :=
  ((table.get? id).bind (·.flows)).getD ⟨0, 0⟩

def metadataAt (table : SlotTable) (id : NodeId) : Span :=
  ((table.get? id).bind (·.metadata)).getD ⟨0, 0⟩

def sizesOf (table : SlotTable) (layer : Nat) : InputSizes :=
  table.inputSizes.getD layer ⟨0, 0, 0⟩

def numParams (table : SlotTable) : Pool → Nat
  | .sums => table.numSumParams
  | .inputs layer => (table.sizesOf layer).params

def numFlows (table : SlotTable) : Pool → Nat
  | .sums => table.numSumFlows
  | .inputs layer => (table.sizesOf layer).flows

def tiesOf (table : SlotTable) : Pool → List TieGroup
  | .sums => table.sumTies
  | .inputs layer => table.inputTies.getD layer []

/-- A table reports the ranges that were served to its circuit, which fill each space. -/
structure Filled (circuit : Circuit) (served : List (Purpose × Span)) (table : SlotTable) :
    Prop where
  nodes_eq : table.nodes = circuit.reachable.map fun id =>
    (id, nodeSlots circuit (Layout.ofCircuit circuit) circuit.sharing served id)
  ties_eq : ∀ pool, table.tiesOf pool = ties circuit circuit.sharing served (pool.nodes circuit)
  values : Span.Consecutive 0
    ((Layout.ofCircuit circuit).order.map fun id => spanOf served (.values id)) table.numValues
  params : ∀ pool, Span.Consecutive 0
    ((Sharing.owners circuit (pool.nodes circuit)).map fun owner => spanOf served (.params owner))
    (table.numParams pool)
  flows : ∀ pool, Span.Consecutive 0
    (((pool.nodes circuit).flatMap (Request.flowPurposes circuit)).map (spanOf served))
    (table.numFlows pool)
  metadata : ∀ layer, Span.Consecutive 0
    (((Pool.inputs layer).nodes circuit).map fun id => spanOf served (.metadata id))
    (table.sizesOf layer).metadata
  widths : ∀ request ∈ Request.all circuit (Layout.ofCircuit circuit),
    (spanOf served request.purpose).stop =
        (spanOf served request.purpose).start + request.width ∧
      (spanOf served request.purpose).stop < padding

variable {circuit : Circuit} {table : SlotTable} {served : List (Purpose × Span)}
  {id owner : NodeId} {pool : Pool} {layer : Nat} {allocator : Allocator}

section Served

open Request

variable (given : serve .empty (all circuit (Layout.ofCircuit circuit)) = .ok (served, allocator))
include given

theorem served_values : Span.Consecutive 0
    ((Layout.ofCircuit circuit).order.map fun id => spanOf served (.values id))
    (allocator.used .nodeValues) := by
  rw [← askedIn_values]
  exact serve_consecutive (purposes_nodup circuit) given .nodeValues

theorem served_params (wellFormed : circuit.WellFormed) (pool : Pool) : Span.Consecutive 0
    ((Sharing.owners circuit (pool.nodes circuit)).map fun owner => spanOf served (.params owner))
    (allocator.used pool.params) := by
  rw [← askedIn_params wellFormed]
  exact serve_consecutive (purposes_nodup circuit) given pool.params

theorem served_flows (pool : Pool) : Span.Consecutive 0
    (((pool.nodes circuit).flatMap (flowPurposes circuit)).map (spanOf served))
    (allocator.used pool.flows) := by
  rw [← askedIn_flows]
  exact serve_consecutive (purposes_nodup circuit) given pool.flows

theorem served_metadata (layer : Nat) : Span.Consecutive 0
    (((Pool.inputs layer).nodes circuit).map fun id => spanOf served (.metadata id))
    (allocator.used (.inputMetadata layer)) := by
  rw [← askedIn_metadata]
  exact serve_consecutive (purposes_nodup circuit) given (.inputMetadata layer)

theorem sizesOf_eq (wellFormed : circuit.WellFormed)
    (recorded : table.inputSizes = (List.range (Layout.ofCircuit circuit).inputs.length).map
      fun layer => ⟨allocator.used (.inputParams layer), allocator.used (.inputFlows layer),
        allocator.used (.inputMetadata layer)⟩) (layer : Nat) :
    table.sizesOf layer = ⟨allocator.used (.inputParams layer), allocator.used (.inputFlows layer),
      allocator.used (.inputMetadata layer)⟩ := by
  rw [sizesOf, recorded]
  cases found : (Layout.ofCircuit circuit).inputs[layer]? with
  | some group =>
      have present := (List.getElem?_eq_some_iff.mp found).1
      simp [List.getD_eq_getElem?_getD, present]
  | none =>
      -- A layer that does not exist has asked for nothing.
      have none := Pool.nodes_inputs_of_none found
      have params := served_params given wellFormed (.inputs layer)
      have flows := served_flows given (.inputs layer)
      have metadata := served_metadata given layer
      rw [none] at params flows metadata
      have noParams : 0 = allocator.used (.inputParams layer) := params.nil_eq
      have noFlows : 0 = allocator.used (.inputFlows layer) := flows.nil_eq
      have noMetadata : 0 = allocator.used (.inputMetadata layer) := metadata.nil_eq
      rw [← noParams, ← noFlows, ← noMetadata]
      have beyond := List.getElem?_eq_none_iff.mp found
      simp [List.getD_eq_getElem?_getD, Nat.not_lt.mpr beyond]

end Served

theorem tiesOf_eq
    (sums : table.sumTies = ties circuit circuit.sharing served (Pool.sums.nodes circuit))
    (inputs : table.inputTies = (Layout.ofCircuit circuit).inputs.map fun group =>
      ties circuit circuit.sharing served group.nodes) (pool : Pool) :
    table.tiesOf pool = ties circuit circuit.sharing served (pool.nodes circuit) := by
  cases pool with
  | sums => exact sums
  | inputs layer =>
      rw [tiesOf, inputs, List.getD_eq_getElem?_getD, List.getElem?_map]
      cases found : (Layout.ofCircuit circuit).inputs[layer]? with
      | none => rw [Pool.nodes_inputs_of_none found]; rfl
      | some group => rw [Pool.nodes_inputs found]; rfl

theorem exists_filled (wellFormed : circuit.WellFormed)
    (success : ofLayout circuit (Layout.ofCircuit circuit) = .ok table) :
    ∃ served, Filled circuit served table := by
  obtain ⟨⟨served, allocator⟩, given, finished⟩ := bind_eq_ok.mp success
  have table_eq := pure_eq_ok.mp finished
  have sizes (layer : Nat) : table.sizesOf layer = _ :=
    sizesOf_eq given wellFormed (by rw [← table_eq]) layer
  subst table_eq
  refine ⟨served, ?_⟩
  constructor
  case nodes_eq =>
    dsimp only
    rw [Ascending.ofList_eq circuit.reachable_ascending fun id => Layout.mem_order wellFormed]
  case ties_eq => exact tiesOf_eq (by rw [Pool.nodes_sums]) rfl
  case values => exact served_values given
  case params =>
    intro pool
    cases pool with
    | sums => exact served_params given wellFormed .sums
    | inputs layer =>
        rw [numParams, sizes]
        exact served_params given wellFormed (.inputs layer)
  case flows =>
    intro pool
    cases pool with
    | sums => exact served_flows given .sums
    | inputs layer =>
        rw [numFlows, sizes]
        exact served_flows given (.inputs layer)
  case metadata =>
    intro layer
    rw [sizes]
    exact served_metadata given layer
  case widths =>
    intro request member
    exact Request.serve_width (Request.purposes_nodup circuit) given member

namespace Filled

theorem get_of_reachable (filled : Filled circuit served table)
    (reachable : id ∈ circuit.reachable) :
    table.get? id =
      some (nodeSlots circuit (Layout.ofCircuit circuit) circuit.sharing served id) := by
  rw [get?, filled.nodes_eq]
  exact List.lookup_graph _ reachable

theorem reachable_of_get (filled : Filled circuit served table) {slots : NodeSlots}
    (found : table.get? id = some slots) : id ∈ circuit.reachable := by
  rw [get?, filled.nodes_eq] at found
  obtain ⟨before, after, split, -⟩ := List.lookup_eq_some_iff.mp found
  have member : (id, slots) ∈ before ++ (id, slots) :: after :=
    List.mem_append_right _ List.mem_cons_self
  rw [← split] at member
  obtain ⟨other, reachable, same⟩ := List.mem_map.mp member
  cases same
  exact reachable

theorem valuesAt_eq (filled : Filled circuit served table) (reachable : id ∈ circuit.reachable) :
    table.valuesAt id = spanOf served (.values id) := by
  rw [valuesAt, filled.get_of_reachable reachable]
  unfold nodeSlots
  dsimp only
  cases (circuit.node id).kind <;> rfl

theorem reported (wellFormed : circuit.WellFormed) (filled : Filled circuit served table)
    (member : id ∈ pool.nodes circuit) :
    ∃ slots, table.get? id = some slots ∧
      slots.params = some (spanOf served (.params (circuit.owner id))) ∧
      slots.flows = some (flowsOf circuit.sharing served (circuit.owner id) id) := by
  obtain ⟨reachable, found⟩ := (Pool.mem_nodes wellFormed).mp member
  refine ⟨_, filled.get_of_reachable reachable, ?_⟩
  unfold nodeSlots
  cases kind : (circuit.node id).kind with
  | input dist => exact ⟨rfl, rfl⟩
  | product => rw [Pool.of_product kind] at found; cases found
  | sum => exact ⟨rfl, rfl⟩

theorem paramsAt_eq (wellFormed : circuit.WellFormed) (filled : Filled circuit served table)
    (member : id ∈ pool.nodes circuit) :
    table.paramsAt id = spanOf served (.params (circuit.owner id)) := by
  obtain ⟨slots, found, params, -⟩ := filled.reported wellFormed member
  rw [paramsAt, found, Option.bind_some, params, Option.getD_some]

theorem flowsAt_eq (wellFormed : circuit.WellFormed) (filled : Filled circuit served table)
    (member : id ∈ pool.nodes circuit) :
    table.flowsAt id = flowsOf circuit.sharing served (circuit.owner id) id := by
  obtain ⟨slots, found, -, flows⟩ := filled.reported wellFormed member
  rw [flowsAt, found, Option.bind_some, flows, Option.getD_some]

theorem metadataAt_eq (filled : Filled circuit served table) (reachable : id ∈ circuit.reachable)
    {dist : Distribution} (kind : (circuit.node id).kind = .input dist) :
    table.metadataAt id = spanOf served (.metadata id) := by
  rw [metadataAt, filled.get_of_reachable reachable, nodeSlots, kind]
  rfl

end Filled

end SlotTable
end CircuitPlan
