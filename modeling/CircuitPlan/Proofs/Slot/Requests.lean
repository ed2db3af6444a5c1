import CircuitPlan.Proofs.Slot.Pool

namespace CircuitPlan

namespace Request

def ofParams (circuit : Circuit) (id : NodeId) : List Request :=
  match Pool.of? circuit id with
  | some pool =>
      forParams circuit.sharing (circuit.owner id) id pool.params pool.flows
        (circuit.paramWidth id) (circuit.flowWidth id)
  | none => []

def ofMetadata (circuit : Circuit) (id : NodeId) : List Request :=
  match (circuit.node id).kind, Pool.of? circuit id with
  | .input dist, some (.inputs layer) =>
      [⟨.metadata id, .inputMetadata layer, id, dist.metadata.length⟩]
  | _, _ => []

def ofNode (circuit : Circuit) (id : NodeId) : List Request :=
  ⟨.values id, .nodeValues, id, (circuit.node id).numNodes⟩ ::
    (ofMetadata circuit id ++ ofParams circuit id)

variable {circuit : Circuit} {id : NodeId} {pool : Pool} {layer : Nat} {group : InputGroup}

theorem forInput_eq (found : (Layout.ofCircuit circuit).inputs[layer]? = some group)
    (inside : id ∈ group.nodes) :
    forInput circuit circuit.sharing layer id = ofNode circuit id := by
  have tag := Layout.tag_of_mem_inputs (List.mem_of_getElem? found) inside
  obtain ⟨dist, kind⟩ := Node.tag_eq_input.mp tag
  simp [forInput, ofNode, ofMetadata, ofParams, kind, Pool.of_input found inside,
    Circuit.paramWidth, Circuit.flowWidth, Pool.params, Pool.flows]

theorem forInner_eq (inner : (circuit.node id).tag ≠ .input) :
    forInner circuit circuit.sharing id = ofNode circuit id := by
  cases kind : (circuit.node id).kind with
  | input dist => exact absurd (Node.tag_eq_input.mpr ⟨dist, kind⟩) inner
  | product =>
      simp [forInner, ofNode, ofMetadata, ofParams, kind, Pool.of_product kind,
        Node.tag_eq_product.mpr kind]
  | sum =>
      simp [forInner, ofNode, ofMetadata, ofParams, kind, Pool.of_sum kind,
        Node.tag_eq_sum.mpr kind, Circuit.paramWidth, Circuit.flowWidth, Pool.params, Pool.flows]

theorem all_eq (circuit : Circuit) :
    all circuit (Layout.ofCircuit circuit) =
      (Layout.ofCircuit circuit).order.flatMap (ofNode circuit) := by
  rw [all, Layout.order, List.flatMap_append, List.flatMap_assoc, List.flatMap_assoc]
  apply congrArg₂ (· ++ ·)
  · have positions : (Layout.ofCircuit circuit).inputs =
        (Layout.ofCircuit circuit).inputs.zipIdx.map (·.1) := by simp
    conv_rhs => rw [positions, List.flatMap_map]
    apply List.flatMap_congr
    rintro ⟨group, layer⟩ member
    apply List.flatMap_congr
    intro id inside
    exact forInput_eq (List.mem_zipIdx_iff_getElem?.mp member) inside
  · apply List.flatMap_congr
    intro group member
    apply List.flatMap_congr
    intro id inside
    exact forInner_eq (Layout.tag_of_mem_inner member inside)

def asker (circuit : Circuit) : Purpose → NodeId
  | .values id => id
  | .metadata id => id
  | .flows id => id
  | .params owner => ((circuit.users owner).head?).getD 0
  | .target owner => ((circuit.users owner).head?).getD 0

theorem isFirst_iff {owner : NodeId} :
    circuit.sharing.isFirst owner id = true ↔ (circuit.users owner).head? = some id := by
  rw [Sharing.isFirst, Circuit.members_eq_users, beq_iff_eq]

theorem asker_eq {request : Request} (member : request ∈ ofNode circuit id) :
    asker circuit request.purpose = id := by
  unfold ofNode at member
  rcases List.mem_cons.mp member with rfl | member
  · rfl
  rcases List.mem_append.mp member with metadata | params
  · unfold ofMetadata at metadata
    split at metadata
    · rw [List.mem_singleton.mp metadata]
      rfl
    · simp at metadata
  · unfold ofParams forParams at params
    split at params
    · rcases List.mem_append.mp params with first | own
      · split at first
        · rename_i isFirst
          have head := isFirst_iff.mp isFirst
          simp only [List.mem_cons, List.not_mem_nil, or_false] at first
          rcases first with rfl | rfl <;> simp [asker, head]
        · simp at first
      · split at own
        · simp at own
        · rw [List.mem_singleton.mp own]
          rfl
    · simp at params

theorem ofNode_purposes_nodup (circuit : Circuit) (id : NodeId) :
    ((ofNode circuit id).map (·.purpose)).Nodup := by
  unfold ofNode ofMetadata ofParams forParams
  split <;> split <;> (try split) <;> (try split) <;> simp

theorem purposes_nodup (circuit : Circuit) :
    ((all circuit (Layout.ofCircuit circuit)).map (·.purpose)).Nodup := by
  rw [all_eq, List.map_flatMap, List.nodup_flatMap]
  constructor
  · intro id _
    exact ofNode_purposes_nodup circuit id
  · refine (Layout.order_nodup circuit).imp ?_
    intro first second different purpose inFirst inSecond
    obtain ⟨request, member, rfl⟩ := List.mem_map.mp inFirst
    obtain ⟨other, otherMember, same⟩ := List.mem_map.mp inSecond
    apply different
    rw [← asker_eq member, ← asker_eq otherMember, same]

end Request
end CircuitPlan
