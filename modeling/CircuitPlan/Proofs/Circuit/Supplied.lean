import CircuitPlan.Proofs.Circuit.Acceptance

namespace CircuitPlan

abbrev Record := Operation × Except StructuralError (Option NodeId)

def Builder.log (builder : Builder) : List Operation → List Record
  | [] => []
  | operation :: rest =>
      (operation, (operation.run builder).1) :: log (operation.run builder).2 rest

namespace Operation

def Brings (dist : Distribution) : Operation → Prop
  | addInputs _ _ own => own = dist
  | addNode node => node.kind = .input dist
  | _ => False

/-- The parameters that an operation stores with an owner, by what it answers. Those of an input
are made valid by the distribution of the owner. -/
def stores (circuit : Circuit) (owner : NodeId) (record : Record) : Option (List Float32) :=
  match record.2, record.1 with
  | .ok (some id), operation => if id = owner then operation.params else none
  | .ok none, supplyParams id params =>
      if circuit.owner id = owner then
        (circuit.node owner).kind.dist?.map fun dist => dist.normalize params
      else none
  | _, _ => none

end Operation

def Circuit.lastStored (circuit : Circuit) (log : List Record) (owner : NodeId) :
    Option (List Float32) :=
  (log.filterMap (Operation.stores circuit owner)).getLast?

namespace Arena

theorem node_append (arena : Arena) (node : Node) (id : NodeId) :
    Arena.node (arena ++ [node]) id = if arena.length = id then node else arena.node id := by
  by_cases new : arena.length = id
  · rw [if_pos new, ← new, node_append_self]
  · rw [if_neg new]
    by_cases old : id < arena.length
    · exact node_append_left old
    · have beyond : arena.length + 1 ≤ id := Nat.lt_of_le_of_ne (Nat.le_of_not_lt old) new
      rw [Arena.node, Arena.node, List.getElem?_eq_none (by simpa using beyond),
        List.getElem?_eq_none (Nat.le_of_not_lt old)]

theorem params_node_set {arena : Arena} {changed : NodeId} (bound : changed < arena.length)
    (params : Option (List Float32)) (id : NodeId) :
    (Arena.node (arena.set changed { arena.node changed with params }) id).params =
      if changed = id then params else (arena.node id).params := by
  by_cases same : changed = id
  · subst same
    rw [if_pos rfl, Arena.node, List.getElem?_set_self bound]
    rfl
  · rw [if_neg same, Arena.node, List.getElem?_set_ne same]
    rfl

theorem lt_length_of_input {arena : Arena} {id : NodeId} {dist : Distribution}
    (kind : (arena.node id).kind = .input dist) : id < arena.length := by
  by_contra beyond
  rw [Arena.node, List.getElem?_eq_none (Nat.le_of_not_lt beyond)] at kind
  cases kind

end Arena

namespace Builder

variable {builder after : Builder} {operation : Operation}
  {answer : Except StructuralError (Option NodeId)} {id owner : NodeId} {circuit : Circuit}

theorem run_cases (builder : Builder) (operation : Operation) :
    (∃ error, operation.run builder = (.error error, builder)) ∨
    (∃ node : Node, node.params = operation.params ∧ node.kind = operation.kind builder ∧
      operation.run builder =
        (.ok (some builder.next), { builder with arena := builder.arena ++ [node] })) ∨
    ∃ target params dist, operation = .supplyParams target params ∧
      target < builder.arena.length ∧
      (builder.arena.node (builder.owner target)).kind = .input dist ∧
      operation.run builder = (.ok none, { builder with
        arena := builder.arena.set (builder.owner target)
          { builder.arena.node (builder.owner target) with
            params := some (dist.normalize params) } }) := by
  by_cases adds : operation.Adds
  · rcases run_of_adds builder adds with failed | ⟨node, ⟨params, kind⟩, -, ran⟩
    · exact .inl failed
    · exact .inr (.inl ⟨node, params, kind, ran⟩)
  · have step := step_run builder operation
    generalize operation.run builder = result at step
    obtain ⟨answer, after⟩ := result
    cases step with
    | failed _ error => exact .inl ⟨error, rfl⟩
    | added adding node checked => exact absurd adding adds
    | @supplied target bound dist kind params count =>
        exact .inr (.inr ⟨target, params, dist, rfl, bound, kind, rfl⟩)

theorem Step.bare (step : Step builder operation answer after) (bound : id < builder.arena.length) :
    id < after.arena.length ∧ (after.arena.node id).bare = (builder.arena.node id).bare := by
  cases step with
  | failed error => exact ⟨bound, rfl⟩
  | added adds node checked =>
      rw [List.length_append, Arena.node_append_left bound]
      exact ⟨Nat.lt_add_right _ bound, rfl⟩
  | supplied inside kind count =>
      rw [List.length_set]
      exact ⟨bound, Arena.bare_node_set _ _ _ _⟩

def KeptIn (builder : Builder) (circuit : Circuit) : Prop :=
  ∀ id < builder.arena.length, (circuit.node id).bare = (builder.arena.node id).bare

theorem params_run (kept : (operation.run builder).2.KeptIn circuit) (owner : NodeId) :
    ((operation.run builder).2.arena.node owner).params =
      (Operation.stores circuit owner (operation, (operation.run builder).1)).or
        (builder.arena.node owner).params := by
  rcases run_cases builder operation with
    ⟨error, ran⟩ | ⟨node, params, -, ran⟩ | ⟨target, params, dist, rfl, bound, kind, ran⟩
  · rw [ran]
    rfl
  · rw [ran]
    change _ = Option.or (if builder.arena.length = owner then operation.params else none) _
    rw [Arena.node_append]
    by_cases new : builder.arena.length = owner
    · have fresh : (builder.arena.node owner).params = none := by
        rw [Arena.node, List.getElem?_eq_none (Nat.le_of_eq new)]
        rfl
      rw [if_pos new, if_pos new, fresh, Option.or_none, params]
    · rw [if_neg new, if_neg new, Option.none_or]
  · rw [ran] at kept ⊢
    have reached (other : NodeId) (inside : other < builder.arena.length) :
        (circuit.node other).bare = (builder.arena.node other).bare := by
      have bare := kept other (by rw [List.length_set]; exact inside)
      exact bare.trans (Arena.bare_node_set _ _ _ _)
    have changed := Arena.lt_length_of_input kind
    -- What is tied, and to which owner, no longer changes.
    have owns : circuit.owner target = builder.owner target :=
      Node.congr_bare (fun node => node.tiedTo.getD target) (reached target bound) fun _ => rfl
    have kinds : (circuit.node (builder.owner target)).kind = .input dist :=
      (Node.congr_bare Node.kind (reached _ changed) fun _ => rfl).trans kind
    change _ = Option.or (if circuit.owner target = owner then
      (circuit.node owner).kind.dist?.map fun dist => dist.normalize params else none) _
    rw [Arena.params_node_set changed, owns]
    by_cases same : builder.owner target = owner
    · rw [if_pos same, if_pos same, ← same, kinds]
      rfl
    · rw [if_neg same, if_neg same, Option.none_or]

theorem input_run {dist : Distribution}
    (found : ((operation.run builder).2.arena.node id).kind = .input dist) :
    operation.Brings dist ∨ ∃ earlier, (builder.arena.node earlier).kind = .input dist := by
  rcases run_cases builder operation with
    ⟨error, ran⟩ | ⟨node, -, kind, ran⟩ | ⟨target, params, own, rfl, -, -, ran⟩
  · rw [ran] at found
    exact .inr ⟨id, found⟩
  · rw [ran] at found
    dsimp only at found
    rw [Arena.node_append] at found
    by_cases new : builder.arena.length = id
    · rw [if_pos new, kind] at found
      cases operation with
      | addInputs scope numGroups dist => exact .inl (NodeKind.input.inj found)
      | addProduct children => cases found
      | addSum children numGroups => cases found
      | copyInputs model scope tie => exact .inr ⟨model, found⟩
      | copySum model children tie => cases found
      | addNode node => exact .inl found
      | supplyParams id params => cases found
    · rw [if_neg new] at found
      exact .inr ⟨id, found⟩
  · rw [ran] at found
    have bare := Arena.bare_node_set builder.arena (builder.owner target) id
      (some (own.normalize params))
    exact .inr ⟨id, (Node.congr_bare Node.kind bare fun _ => rfl).symm.trans found⟩

theorem bare_runAll (operations : List Operation) (bound : id < builder.arena.length) :
    ((builder.runAll operations).arena.node id).bare = (builder.arena.node id).bare := by
  induction operations generalizing builder with
  | nil => rfl
  | cons operation rest ih =>
      obtain ⟨kept, bare⟩ := (step_run builder operation).bare bound
      exact (ih kept).trans bare

theorem params_runAll (operations : List Operation)
    (holds : circuit.arena = (builder.runAll operations).arena) (owner : NodeId) :
    (circuit.node owner).params =
      (circuit.lastStored (builder.log operations) owner).or (builder.arena.node owner).params := by
  induction operations generalizing builder with
  | nil =>
      rw [Circuit.node, holds]
      rfl
  | cons operation rest ih =>
      have kept : (operation.run builder).2.KeptIn circuit := by
        intro id bound
        rw [Circuit.node, holds]
        exact bare_runAll rest bound
      rw [ih holds, params_run kept, ← Option.or_assoc]
      congr 1
      rw [Circuit.lastStored, Circuit.lastStored, log, List.filterMap_cons]
      cases Operation.stores circuit owner (operation, (operation.run builder).1) with
      | none => simp
      | some params => simp [List.getLast?_cons]

theorem input_runAll {operations : List Operation} {dist : Distribution}
    (found : ((builder.runAll operations).arena.node id).kind = .input dist) :
    (∃ operation ∈ operations, operation.Brings dist) ∨
      ∃ earlier, (builder.arena.node earlier).kind = .input dist := by
  induction operations generalizing builder with
  | nil => exact .inr ⟨id, found⟩
  | cons operation rest ih =>
      rcases ih found with ⟨later, member, brings⟩ | ⟨earlier, present⟩
      · exact .inl ⟨later, List.mem_cons_of_mem _ member, brings⟩
      · rcases input_run present with brings | before
        · exact .inl ⟨operation, List.mem_cons_self, brings⟩
        · exact .inr before

end Builder

theorem Circuit.exists_brings {groupSize : Nat} {operations : List Operation} {root : NodeId}
    {circuit : Circuit}
    (finished : ((Builder.empty groupSize).runAll operations).finish root = .ok circuit)
    {id : NodeId} {dist : Distribution} (kind : (circuit.node id).kind = .input dist) :
    ∃ operation ∈ operations, operation.Brings dist := by
  obtain ⟨-, -, rfl⟩ := finish_eq_ok.mp finished
  rcases Builder.input_runAll kind with brought | ⟨earlier, present⟩
  · exact brought
  · cases present

theorem Circuit.params_eq_lastStored {groupSize : Nat} {operations : List Operation}
    {root : NodeId} {circuit : Circuit}
    (finished : ((Builder.empty groupSize).runAll operations).finish root = .ok circuit)
    (owner : NodeId) :
    (circuit.node owner).params =
      circuit.lastStored ((Builder.empty groupSize).log operations) owner := by
  obtain ⟨-, -, rfl⟩ := finish_eq_ok.mp finished
  rw [Builder.params_runAll operations rfl]
  exact Option.or_none

end CircuitPlan
