import Mathlib.Algebra.GroupWithZero.Nat
import CircuitPlan.Proofs.Slot.Flows

namespace CircuitPlan

namespace Request

variable {allocator : Allocator} {requests : List Request}

def total (requests : List Request) (space : Space) : Nat :=
  ((requests.filter fun request => request.space = space).map (·.width)).sum

theorem total_cons (request : Request) (requests : List Request) (space : Space) :
    total (request :: requests) space =
      (if request.space = space then request.width else 0) + total requests space := by
  by_cases own : request.space = space <;> simp [total, own]

theorem used_add_total {request : Request} {span : Span} {between : Allocator}
    (given : allocator.allocate request.space request.node request.width = .ok (span, between))
    (space : Space) : between.used space + total requests space =
      allocator.used space + total (request :: requests) space := by
  obtain ⟨-, -, rfl⟩ := Allocator.allocate_eq_ok.mp given
  rw [total_cons]
  by_cases own : request.space = space
  · subst own
    simp [Nat.add_assoc]
  · simp [own, Ne.symm own]

theorem serve_fits {result : List (Purpose × Span) × Allocator}
    (room : ∀ space, allocator.used space < padding)
    (success : serve allocator requests = .ok result) (space : Space) :
    allocator.used space + total requests space < padding := by
  induction requests generalizing allocator result with
  | nil => exact room space
  | cons request rest ih =>
      obtain ⟨span, between, servedRest, given, success, -⟩ := serve_cons_eq_ok.mp success
      rw [← used_add_total given]
      refine ih ?_ success
      obtain ⟨fits, -, rfl⟩ := Allocator.allocate_eq_ok.mp given
      intro other
      rw [Allocator.used_advance]
      split
      · exact fits
      · exact room other

theorem serve_overflow {overflow : Overflow} (failed : serve allocator requests = .error overflow) :
    padding ≤ allocator.used overflow.space + total requests overflow.space := by
  induction requests generalizing allocator with
  | nil => cases failed
  | cons request rest ih =>
      rw [serve] at failed
      rcases bind_eq_error.mp failed with given | ⟨⟨span, between⟩, given, failed⟩
      · obtain ⟨same, full⟩ := Allocator.allocate_eq_error given
        rw [same, total_cons, if_pos rfl]
        omega
      · rw [← used_add_total given]
        rcases bind_eq_error.mp failed with later | ⟨_, -, finished⟩
        · exact ih later
        · cases finished

end Request

variable {circuit : Circuit} {id : NodeId}

def Circuit.metadataWidth (circuit : Circuit) (id : NodeId) : Nat :=
  ((circuit.node id).kind.dist?).elim 0 (·.metadata.length)

namespace Pool

def paramDemand (circuit : Circuit) (pool : Pool) : Nat :=
  ((Sharing.owners circuit (pool.nodes circuit)).map circuit.paramWidth).sum

/-- One block of flows for each node vector, and one for each unreachable owner with several
users. -/
def flowDemand (circuit : Circuit) (pool : Pool) : Nat :=
  ((pool.nodes circuit).map circuit.flowWidth).sum +
    ((pool.spares circuit).map circuit.flowWidth).sum

end Pool

def Circuit.demand (circuit : Circuit) : Space → Nat
  | .nodeValues => (circuit.reachable.map fun id => (circuit.node id).numNodes).sum
  | .sumParams => Pool.sums.paramDemand circuit
  | .sumFlows => Pool.sums.flowDemand circuit
  | .inputParams layer => (Pool.inputs layer).paramDemand circuit
  | .inputFlows layer => (Pool.inputs layer).flowDemand circuit
  | .inputMetadata layer => (((Pool.inputs layer).nodes circuit).map circuit.metadataWidth).sum

namespace Request

def widthOf (circuit : Circuit) : Purpose → Nat
  | .values id => (circuit.node id).numNodes
  | .metadata id => circuit.metadataWidth id
  | .params owner => circuit.paramWidth owner
  | .target owner => circuit.flowWidth owner
  | .flows id => circuit.flowWidth id

variable (wellFormed : circuit.WellFormed)
include wellFormed

theorem width_eq {request : Request} (member : request ∈ all circuit (Layout.ofCircuit circuit)) :
    request.width = widthOf circuit request.purpose := by
  rw [all_eq, List.mem_flatMap] at member
  obtain ⟨id, inOrder, member⟩ := member
  have owns := wellFormed.owns ((Layout.mem_order wellFormed).mp inOrder)
  rcases List.mem_cons.mp member with rfl | member
  · rfl
  rcases List.mem_append.mp member with metadata | params
  · unfold ofMetadata at metadata
    split at metadata
    case h_1 dist layer kind found =>
      rw [List.mem_singleton.mp metadata, widthOf, Circuit.metadataWidth, kind]
      rfl
    case h_2 => cases metadata
  · unfold ofParams forParams at params
    split at params
    case h_1 pool found =>
      rcases List.mem_append.mp params with first | own
      · split at first
        case isTrue =>
          rcases List.mem_cons.mp first with rfl | second
          · exact owns.paramWidth_eq.symm
          · rw [List.mem_singleton.mp second]
            exact owns.flowWidth_eq.symm
        case isFalse => cases first
      · split at own
        case isTrue => cases own
        case isFalse =>
          rw [List.mem_singleton.mp own]
          rfl
    case h_2 => cases params

theorem total_eq (space : Space) : total (all circuit (Layout.ofCircuit circuit)) space =
    (askedIn (all circuit (Layout.ofCircuit circuit)) (widthOf circuit) space).sum := by
  rw [total, askedIn]
  apply congrArg List.sum
  apply List.map_congr_left
  intro request member
  exact width_eq wellFormed (List.mem_of_mem_filter member)

theorem widthOf_flowPurpose {pool : Pool} (member : id ∈ pool.nodes circuit) :
    widthOf circuit (flowPurpose circuit id) = circuit.flowWidth id := by
  unfold flowPurpose
  split
  · exact (wellFormed.owns ((Pool.mem_nodes wellFormed).mp member).1).flowWidth_eq
  · rfl

theorem total_params (pool : Pool) :
    total (all circuit (Layout.ofCircuit circuit)) pool.params = pool.paramDemand circuit := by
  rw [total_eq wellFormed, askedIn_params wellFormed]
  rfl

theorem total_flows (pool : Pool) :
    total (all circuit (Layout.ofCircuit circuit)) pool.flows = pool.flowDemand circuit := by
  have own : ((pool.nodes circuit).map (flowPurpose circuit)).map (widthOf circuit) =
      (pool.nodes circuit).map circuit.flowWidth := by
    rw [List.map_map]
    apply List.map_congr_left
    intro id member
    rw [Function.comp_apply, widthOf_flowPurpose wellFormed member]
  have perm := (flowPurposes_perm wellFormed pool).map (widthOf circuit)
  rw [total_eq wellFormed, askedIn_flows, ← perm.sum_nat, List.map_append, List.sum_append, own,
    List.map_map]
  rfl

theorem total_all (space : Space) :
    total (all circuit (Layout.ofCircuit circuit)) space = circuit.demand space := by
  cases space with
  | nodeValues =>
      rw [total_eq wellFormed, askedIn_values]
      exact ((Layout.order_perm wellFormed).map _).sum_nat
  | sumParams => exact total_params wellFormed .sums
  | sumFlows => exact total_flows wellFormed .sums
  | inputParams layer => exact total_params wellFormed (.inputs layer)
  | inputFlows layer => exact total_flows wellFormed (.inputs layer)
  | inputMetadata layer =>
      rw [total_eq wellFormed, askedIn_metadata]
      rfl

end Request

namespace SlotTable

theorem ofLayout_fits {table : SlotTable} (wellFormed : circuit.WellFormed)
    (success : ofLayout circuit (Layout.ofCircuit circuit) = .ok table) (space : Space) :
    circuit.demand space < padding := by
  obtain ⟨result, given, -⟩ := bind_eq_ok.mp success
  have positive : 0 < padding := by decide
  have fits := Request.serve_fits (fun _ => positive) given space
  rw [Request.total_all wellFormed] at fits
  exact Nat.lt_of_le_of_lt (Nat.le_add_left _ _) fits

theorem ofLayout_overflow {overflow : Overflow} (wellFormed : circuit.WellFormed)
    (failed : ofLayout circuit (Layout.ofCircuit circuit) = .error overflow) :
    padding ≤ circuit.demand overflow.space := by
  rw [← Request.total_all wellFormed]
  rcases bind_eq_error.mp failed with given | ⟨_, -, finished⟩
  · exact Nat.le_trans (Request.serve_overflow given) (Nat.le_of_eq (Nat.zero_add _))
  · cases finished

end SlotTable
end CircuitPlan
