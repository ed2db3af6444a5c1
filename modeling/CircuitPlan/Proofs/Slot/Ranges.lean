import CircuitPlan.Proofs.Slot.Requests

namespace CircuitPlan

variable {circuit : Circuit} {id owner : NodeId} {pool : Pool} {layer : Nat}

namespace Pool

theorem tag_ne_product (wellFormed : circuit.WellFormed) (member : id ∈ pool.nodes circuit) :
    (circuit.node id).tag ≠ .product := by
  obtain ⟨reachable, found⟩ := (mem_nodes wellFormed).mp member
  rw [ne_eq, ← of_eq_none reachable, found]
  exact Option.some_ne_none pool

theorem mem_nodes_of_owner_eq (wellFormed : circuit.WellFormed) (member : id ∈ pool.nodes circuit)
    {other : NodeId} (reachable : other ∈ circuit.reachable)
    (same : circuit.owner other = circuit.owner id) : other ∈ pool.nodes circuit := by
  obtain ⟨idReachable, found⟩ := (mem_nodes wellFormed).mp member
  have owns := wellFormed.owns idReachable
  have otherOwns := wellFormed.owns reachable
  rw [same] at otherOwns
  rw [mem_nodes wellFormed, ← found]
  exact ⟨reachable, of_congr reachable idReachable (otherOwns.tag_eq.symm.trans owns.tag_eq)
    (otherOwns.signature_eq.symm.trans owns.signature_eq)⟩

theorem users_eq_order (wellFormed : circuit.WellFormed) (member : id ∈ pool.nodes circuit) :
    circuit.users (circuit.owner id) =
      (Layout.ofCircuit circuit).order.filter fun other =>
        circuit.owner other == circuit.owner id := by
  rw [Circuit.users]
  apply List.filter_congr
  intro other inOrder
  by_cases same : circuit.owner other = circuit.owner id
  · have reachable := (Layout.mem_order wellFormed).mp inOrder
    have parameterized := tag_ne_product wellFormed
      (mem_nodes_of_owner_eq wellFormed member reachable same)
    simp [parameterized]
  · simp [same]

theorem users_eq (wellFormed : circuit.WellFormed) (member : id ∈ pool.nodes circuit) :
    circuit.users (circuit.owner id) =
      (pool.nodes circuit).filter fun other => circuit.owner other == circuit.owner id := by
  rw [users_eq_order wellFormed member, nodes, List.filter_filter]
  apply List.filter_congr
  intro other inOrder
  by_cases same : circuit.owner other = circuit.owner id
  · have reachable := (Layout.mem_order wellFormed).mp inOrder
    have together := ((mem_nodes wellFormed).mp
      (mem_nodes_of_owner_eq wellFormed member reachable same)).2
    simp [same, together]
  · simp [same]

theorem mem_users_self (wellFormed : circuit.WellFormed) (member : id ∈ pool.nodes circuit) :
    id ∈ circuit.users (circuit.owner id) := by
  rw [users_eq wellFormed member]
  exact List.mem_filter.mpr ⟨member, beq_self_eq_true _⟩

theorem mem_owners : owner ∈ Sharing.owners circuit (pool.nodes circuit) ↔
    ∃ id ∈ pool.nodes circuit, circuit.owner id = owner := by
  rw [Sharing.owners, List.mem_eraseDups, List.mem_map]

theorem of_mem_users (wellFormed : circuit.WellFormed)
    (used : owner ∈ Sharing.owners circuit (pool.nodes circuit))
    (uses : id ∈ circuit.users owner) : id ∈ pool.nodes circuit ∧ circuit.owner id = owner := by
  obtain ⟨first, member, rfl⟩ := mem_owners.mp used
  rw [users_eq wellFormed member] at uses
  obtain ⟨inPool, same⟩ := List.mem_filter.mp uses
  exact ⟨inPool, beq_iff_eq.mp same⟩

theorem firsts_owners (wellFormed : circuit.WellFormed) (pool : Pool) :
    ((pool.nodes circuit).filter fun id =>
        circuit.sharing.isFirst (circuit.owner id) id).map circuit.owner =
      Sharing.owners circuit (pool.nodes circuit) := by
  rw [Sharing.owners, ← map_firsts circuit.owner (nodes_nodup circuit pool)]
  apply congrArg (List.map circuit.owner)
  apply List.filter_congr
  intro id member
  rw [Sharing.isFirst, Circuit.members_eq_users, users_eq wellFormed member]

end Pool

namespace Request

variable {α : Type} {f : Purpose → α}

theorem askedIn_all (circuit : Circuit) (space : Space) :
    askedIn (all circuit (Layout.ofCircuit circuit)) f space =
      (Layout.ofCircuit circuit).order.flatMap fun id => askedIn (ofNode circuit id) f space := by
  simp [askedIn, all_eq, List.filter_flatMap, List.map_flatMap]

theorem askedIn_ofMetadata (circuit : Circuit) (id : NodeId) (layer : Nat) :
    askedIn (ofMetadata circuit id) f (.inputMetadata layer) =
      if Pool.of? circuit id = some (.inputs layer) then [f (.metadata id)] else [] := by
  unfold ofMetadata
  cases found : Pool.of? circuit id with
  | none => simp
  | some pool =>
      cases pool with
      | sums => simp
      | inputs own =>
          obtain ⟨group, present, inside⟩ := Pool.exists_of_eq_inputs found
          have tag := Layout.tag_of_mem_inputs (List.mem_of_getElem? present) inside
          obtain ⟨dist, kind⟩ := Node.tag_eq_input.mp tag
          rw [kind]
          simp

theorem askedIn_ofMetadata_eq_nil {space : Space} (other : ∀ layer, .inputMetadata layer ≠ space) :
    askedIn (ofMetadata circuit id) f space = [] := by
  unfold ofMetadata
  split
  · rw [askedIn_cons, if_neg (other _), askedIn_nil]
  · rfl

theorem askedIn_ofParams (circuit : Circuit) (id : NodeId) (pool : Pool) :
    askedIn (ofParams circuit id) f pool.params =
      if Pool.of? circuit id = some pool then
        (if circuit.sharing.isFirst (circuit.owner id) id then [f (.params (circuit.owner id))]
        else [])
      else [] := by
  unfold ofParams forParams
  cases Pool.of? circuit id with
  | none => simp
  | some other =>
      dsimp only
      by_cases same : other = pool
      · subst same
        split <;> split <;> simp
      · split <;> split <;> simp [same]

/-- The purposes of the flows that are asked for on behalf of a node vector: the target when it
comes first for its owner, and flows of its own unless it uses the target. -/
def flowPurposes (circuit : Circuit) (id : NodeId) : List Purpose :=
  (if circuit.sharing.isFirst (circuit.owner id) id then [.target (circuit.owner id)] else []) ++
    (if circuit.sharing.usesTarget (circuit.owner id) id then [] else [.flows id])

theorem askedIn_ofParams_flows (circuit : Circuit) (id : NodeId) (pool : Pool) :
    askedIn (ofParams circuit id) f pool.flows =
      if Pool.of? circuit id = some pool then (flowPurposes circuit id).map f else [] := by
  unfold ofParams forParams flowPurposes
  cases Pool.of? circuit id with
  | none => simp
  | some other =>
      dsimp only
      by_cases same : other = pool
      · subst same
        split <;> split <;> simp
      · split <;> split <;> simp [same]

theorem askedIn_ofParams_eq_nil {space : Space}
    (other : ∀ pool : Pool, pool.params ≠ space ∧ pool.flows ≠ space) :
    askedIn (ofParams circuit id) f space = [] := by
  unfold ofParams forParams
  split
  · split <;> split <;> simp [other]
  · rfl

theorem askedIn_values (circuit : Circuit) :
    askedIn (all circuit (Layout.ofCircuit circuit)) f .nodeValues =
      (Layout.ofCircuit circuit).order.map fun id => f (.values id) := by
  rw [askedIn_all, List.map_eq_flatMap]
  apply List.flatMap_congr
  intro id _
  rw [ofNode, askedIn_cons, if_pos rfl, askedIn_append, askedIn_ofMetadata_eq_nil (by simp),
    askedIn_ofParams_eq_nil fun pool =>
      ⟨(Pool.values_ne_params pool).symm, (Pool.values_ne_flows pool).symm⟩]
  rfl

theorem askedIn_metadata (circuit : Circuit) (layer : Nat) :
    askedIn (all circuit (Layout.ofCircuit circuit)) f (.inputMetadata layer) =
      ((Pool.inputs layer).nodes circuit).map fun id => f (.metadata id) := by
  rw [askedIn_all, Pool.nodes, List.map_eq_flatMap, ← flatMap_ite_nil]
  apply List.flatMap_congr
  intro id _
  rw [ofNode, askedIn_cons, if_neg (by simp), askedIn_append, askedIn_ofMetadata,
    askedIn_ofParams_eq_nil fun pool =>
      ⟨(Pool.metadata_ne_params pool layer).symm, (Pool.metadata_ne_flows pool layer).symm⟩,
    List.append_nil]

theorem askedIn_params (wellFormed : circuit.WellFormed) (pool : Pool) :
    askedIn (all circuit (Layout.ofCircuit circuit)) f pool.params =
      (Sharing.owners circuit (pool.nodes circuit)).map fun owner => f (.params owner) := by
  have single (id : NodeId) : askedIn (ofNode circuit id) f pool.params =
      if Pool.of? circuit id = some pool then
        (if circuit.sharing.isFirst (circuit.owner id) id then [f (.params (circuit.owner id))]
        else [])
      else [] := by
    rw [ofNode, askedIn_cons, if_neg (by simp), askedIn_append,
      askedIn_ofMetadata_eq_nil fun layer => Pool.metadata_ne_params pool layer, askedIn_ofParams]
    rfl
  rw [askedIn_all, ← Pool.firsts_owners wellFormed]
  simp only [single]
  rw [flatMap_ite_nil, flatMap_ite_nil, ← Pool.nodes, List.map_map, List.map_eq_flatMap]
  simp

theorem askedIn_flows (circuit : Circuit) (pool : Pool) :
    askedIn (all circuit (Layout.ofCircuit circuit)) f pool.flows =
      ((pool.nodes circuit).flatMap (flowPurposes circuit)).map f := by
  have single (id : NodeId) : askedIn (ofNode circuit id) f pool.flows =
      if Pool.of? circuit id = some pool then (flowPurposes circuit id).map f else [] := by
    rw [ofNode, askedIn_cons, if_neg (by simp), askedIn_append,
      askedIn_ofMetadata_eq_nil fun layer => Pool.metadata_ne_flows pool layer,
      askedIn_ofParams_flows]
    rfl
  rw [askedIn_all, List.map_flatMap]
  simp only [single]
  rw [flatMap_ite_nil, Pool.nodes]

end Request
end CircuitPlan
