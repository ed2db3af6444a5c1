import CircuitPlan.Initial
import CircuitPlan.Proofs.Circuit.Supplied
import CircuitPlan.Proofs.Distribution
import CircuitPlan.Proofs.Layer.Inputs

namespace CircuitPlan

namespace Circuit

def draw (circuit : Circuit) (perturbation : Float32) (owner : NodeId) (source : WordSource) :
    List Float32 × WordSource :=
  match (circuit.node owner).kind.dist? with
  | some dist => dist.initial (circuit.node owner).numNodes perturbation source
  | none => ([], source)

def drawAll (circuit : Circuit) (perturbation : Float32) :
    List NodeId → WordSource → List (NodeId × List Float32) × WordSource
  | [], source => ([], source)
  | owner :: rest, source =>
      let first := circuit.draw perturbation owner source
      let later := drawAll circuit perturbation rest first.2
      ((owner, first.1) :: later.1, later.2)

def drawMissing (circuit : Circuit) (stored : NodeId → Option (List Float32))
    (perturbation : Float32) (owners : List NodeId) (source : WordSource) :
    List (NodeId × List Float32) × WordSource :=
  circuit.drawAll perturbation (owners.filter fun owner => (stored owner).isNone) source

def held (circuit : Circuit) (id : NodeId) : Option (List Float32) := (circuit.node id).params

/-- The parameters of an owner: the stored ones, or else those drawn for it. -/
def vector (stored : NodeId → Option (List Float32)) (drawn : List (NodeId × List Float32))
    (owner : NodeId) : List Float32 :=
  (stored owner).getD ((drawn.lookup owner).getD [])

variable {circuit : Circuit} {stored : NodeId → Option (List Float32)}
  {drawn : List (NodeId × List Float32)} {perturbation : Float32} {source : WordSource}
  {owners : List NodeId} {owner : NodeId}

theorem vector_of_stored {params : List Float32} (found : stored owner = some params) :
    vector stored drawn owner = params := by
  rw [vector, found, Option.getD_some]

theorem vector_cons_self (missing : stored owner = none) (params : List Float32) :
    vector stored ((owner, params) :: drawn) owner = params := by
  simp [vector, missing]

theorem vector_cons_of_ne {other : NodeId} (different : other ≠ owner) (params : List Float32) :
    vector stored ((owner, params) :: drawn) other = vector stored drawn other := by
  have unequal : (other == owner) = false := beq_false_of_ne different
  rw [vector, vector, List.lookup_cons, unequal]

theorem exists_drawn (used : owner ∈ owners) : ∃ before,
    (circuit.drawAll perturbation owners source).1.lookup owner =
      some (circuit.draw perturbation owner before).1 := by
  induction owners generalizing source with
  | nil => cases used
  | cons first rest ih =>
      rw [drawAll, List.lookup_cons]
      by_cases same : owner = first
      · subst same
        exact ⟨source, by simp⟩
      · rw [beq_false_of_ne same]
        exact ih ((List.mem_cons.mp used).resolve_left same)

end Circuit

namespace InputLayer

def runs (circuit : Circuit) (table : SlotTable) (layer : InputLayer)
    (vector : NodeId → List Float32) : List (Nat × List Float32) :=
  (Sharing.owners circuit layer.nodes).map fun owner =>
    ((table.ownerParams circuit owner).start, vector owner)

structure Initialized (circuit : Circuit) (table : SlotTable) (layer : InputLayer)
    (stored : NodeId → Option (List Float32)) (perturbation : Float32) (source : WordSource)
    (drawn : List (NodeId × List Float32)) (params : Array Float32) (after : WordSource) :
    Prop where
  draws : circuit.drawMissing stored perturbation (Sharing.owners circuit layer.nodes) source =
    (drawn, after)
  size : params.size = layer.numParameters
  rows : ∀ (index : Nat) (id : NodeId) (k : Nat),
    (circuit.places layer.nodes)[index]? = some (id, k) →
      ∃ start, layer.paramStarts[index]? = some start ∧
      ∀ j < (circuit.node id).numParameters, ∃ number, params[start + j]? = some number ∧
        (Circuit.vector stored drawn (circuit.owner id))[
          k * (circuit.node id).numParameters + j]? = some number
  writes : params = Buffer.writeAll (Array.replicate layer.numParameters 0)
    (layer.runs circuit table (Circuit.vector stored drawn))
  once : ((layer.runs circuit table (Circuit.vector stored drawn)).flatMap fun run =>
    List.range' run.1 run.2.length) = List.range layer.numParameters

def writeOwner (circuit : Circuit) (table : SlotTable) (perturbation : Float32)
    (state : Array Float32 × WordSource) (id : NodeId) :
    Except Fault (Array Float32 × WordSource) := do
  let span ← (← table.get id).params.elim (.error (.noSlots id)) .ok
  let own := ownerParams (circuit.node (circuit.owner id)) perturbation state.2
  return (Buffer.write state.1 span.start own.1, own.2)

variable {circuit : Circuit} {table : SlotTable} {served : List (Purpose × Span)}
  {group : InputGroup} {layer : InputLayer} {index : Nat} {id : NodeId} {k : Nat}

theorem initialParams_eq (layer : InputLayer) (circuit : Circuit) (table : SlotTable)
    (perturbation : Float32) (source : WordSource) :
    layer.initialParams circuit table perturbation source =
      (firstOfOwners circuit layer.nodes).foldlM (writeOwner circuit table perturbation)
        (Array.replicate layer.numParameters 0, source) := rfl

theorem ownerParams_of_held {owner : NodeId} {params : List Float32}
    (found : circuit.held owner = some params) (perturbation : Float32) (source : WordSource) :
    ownerParams (circuit.node owner) perturbation source = (params, source) := by
  rw [ownerParams, ← Circuit.held, found]

theorem ownerParams_of_none {owner : NodeId} (missing : circuit.held owner = none)
    (perturbation : Float32) (source : WordSource) :
    ownerParams (circuit.node owner) perturbation source =
      circuit.draw perturbation owner source := by
  rw [ownerParams, ← Circuit.held, missing, Circuit.draw]
  cases (circuit.node owner).kind <;> rfl

namespace Made

variable (wellFormed : circuit.WellFormed) (filled : table.Filled circuit served)
  (made : Made circuit table group layer)
include wellFormed filled made

theorem writeOwner_eq (inside : id ∈ layer.nodes) (perturbation : Float32)
    (state : Array Float32 × WordSource) :
    writeOwner circuit table perturbation state id =
      let own := ownerParams (circuit.node (circuit.owner id)) perturbation state.2
      .ok (Buffer.write state.1 (table.ownerParams circuit (circuit.owner id)).start own.1,
        own.2) := by
  obtain ⟨slots, found, -, params, -⟩ := made.reported wellFormed filled inside
  rw [writeOwner, SlotTable.get_eq_ok.mpr found, ok_bind, params]
  rfl

theorem foldlM_writeOwner {ids : List NodeId} (inside : ∀ id ∈ ids, id ∈ layer.nodes)
    (distinct : (ids.map circuit.owner).Nodup) (perturbation : Float32) (params : Array Float32)
    (source : WordSource) :
    let drawn := circuit.drawMissing circuit.held perturbation (ids.map circuit.owner) source
    ids.foldlM (writeOwner circuit table perturbation) (params, source) =
      .ok (Buffer.writeAll params ((ids.map circuit.owner).map fun owner =>
        ((table.ownerParams circuit owner).start, Circuit.vector circuit.held drawn.1 owner)),
        drawn.2) := by
  unfold Circuit.drawMissing
  induction ids generalizing params source with
  | nil => rfl
  | cons id rest ih =>
      obtain ⟨fresh, distinctRest⟩ := List.nodup_cons.mp distinct
      have later (params : Array Float32) (source : WordSource) :=
        ih (fun other member => inside other (List.mem_cons_of_mem _ member)) distinctRest params
          source
      dsimp only at later ⊢
      rw [List.foldlM_cons, made.writeOwner_eq wellFormed filled (inside id List.mem_cons_self),
        ok_bind, later, List.map_cons, List.map_cons, Buffer.writeAll_cons]
      cases found : circuit.held (circuit.owner id) with
      | some supplied =>
          rw [ownerParams_of_held found, Circuit.vector_of_stored found,
            List.filter_cons_of_neg (by simp [found])]
      | none =>
          -- What the first owner draws does not change what the later ones look up.
          have others (drawn : List (NodeId × List Float32)) (own : List Float32) :
              ((rest.map circuit.owner).map fun owner => ((table.ownerParams circuit owner).start,
                Circuit.vector circuit.held ((circuit.owner id, own) :: drawn) owner)) =
              (rest.map circuit.owner).map fun owner =>
                ((table.ownerParams circuit owner).start,
                  Circuit.vector circuit.held drawn owner) := by
            apply List.map_congr_left
            intro owner member
            have different : owner ≠ circuit.owner id := fun same => fresh (same ▸ member)
            rw [Circuit.vector_cons_of_ne different]
          rw [ownerParams_of_none found, List.filter_cons_of_pos (by simp [found]), Circuit.drawAll]
          dsimp only
          rw [Circuit.vector_cons_self found, others]

/-! ## The vector of an owner -/

theorem paramWidth_owner (inside : id ∈ layer.nodes) :
    circuit.paramWidth (circuit.owner id) = (table.paramsAt id).size := by
  obtain ⟨reachable, dist, kind⟩ := made.kind_of_mem inside
  rw [(wellFormed.owns reachable).paramWidth_eq, Circuit.paramWidth, kind, Span.size,
    made.params_width wellFormed filled inside, Nat.add_sub_cancel_left, Node.numParameters_eq kind]

omit wellFormed filled made in
theorem owner_input (wellFormed : circuit.WellFormed) (reachable : id ∈ circuit.reachable)
    {dist : Distribution} (kind : (circuit.node id).kind = .input dist) :
    ∃ origin, (circuit.node (circuit.owner id)).kind = .input origin :=
  Node.tag_eq_input.mp
    ((wellFormed.owns reachable).tag_eq.trans (Node.tag_eq_input.mpr ⟨dist, kind⟩))

theorem length_vector
    (fits : ∀ id < circuit.arena.length, (circuit.node id).ParamsFit)
    (drawsFit : ∀ id dist, (circuit.node id).kind = .input dist → dist.DrawsFit)
    (perturbation : Float32) (source : WordSource) (inside : id ∈ layer.nodes) :
    (Circuit.vector circuit.held (circuit.drawMissing circuit.held perturbation
      (Sharing.owners circuit layer.nodes) source).1 (circuit.owner id)).length =
      (table.paramsAt id).size := by
  obtain ⟨reachable, dist, kind⟩ := made.kind_of_mem inside
  obtain ⟨origin, originKind⟩ := owner_input wellFormed reachable kind
  rw [← made.paramWidth_owner wellFormed filled inside, Circuit.paramWidth, originKind]
  dsimp only
  cases found : circuit.held (circuit.owner id) with
  | some supplied =>
      obtain ⟨-, other, same, length⟩ :=
        fits _ (Arena.lt_length_of_input originKind) supplied found
      rw [originKind, NodeKind.input.injEq] at same
      rw [Circuit.vector_of_stored found, length, same]
  | none =>
      have draws : circuit.owner id ∈ (Sharing.owners circuit layer.nodes).filter fun owner =>
          (circuit.held owner).isNone := by
        rw [List.mem_filter, Sharing.owners, List.mem_eraseDups]
        exact ⟨List.mem_map_of_mem inside, by rw [found]; rfl⟩
      obtain ⟨before, drawn⟩ := Circuit.exists_drawn draws
      rw [Circuit.vector, found, Option.getD_none, Circuit.drawMissing, drawn, Option.getD_some,
        Circuit.draw, originKind]
      exact drawsFit _ origin originKind _ _ _

theorem column_inside (inside : id ∈ layer.nodes) (bound : k < (circuit.node id).numNodes)
    {j : Nat} (column : j < (circuit.node id).numParameters) :
    k * (circuit.node id).numParameters + j < (table.paramsAt id).size := by
  rw [Span.size, made.params_width wellFormed filled inside, Nat.add_sub_cancel_left]
  calc k * (circuit.node id).numParameters + j
      < k * (circuit.node id).numParameters + (circuit.node id).numParameters :=
        Nat.add_lt_add_left column _
    _ = (k + 1) * (circuit.node id).numParameters := (Nat.succ_mul _ _).symm
    _ ≤ (circuit.node id).numNodes * (circuit.node id).numParameters :=
        Nat.mul_le_mul_right _ bound

/-! ## The writes of all owners -/

theorem runs_eq (vector : NodeId → List Float32) :
    layer.runs circuit table vector = (firstOfOwners circuit layer.nodes).map fun id =>
      ((table.paramsAt id).start, vector (circuit.owner id)) := by
  rw [runs, ← made.owners_firsts, List.map_map]
  apply made.firsts_congr
  intro id inside
  rw [← filled.ownerParams_eq wellFormed inside]
  rfl

section Runs

variable {vector : NodeId → List Float32}
  (lengths : ∀ id ∈ layer.nodes, (vector (circuit.owner id)).length = (table.paramsAt id).size)
include lengths

theorem runs_once : ((layer.runs circuit table vector).flatMap fun run =>
    List.range' run.1 run.2.length) = List.range layer.numParameters := by
  have offsets := (made.params_chain wellFormed filled).offsets_eq
  rw [Nat.sub_zero, ← List.range_eq_range'] at offsets
  rw [made.runs_eq wellFormed filled, List.flatMap_map, ← offsets]
  apply List.flatMap_congr
  intro id first
  rw [lengths id (mem_of_first first), List.range'_eq_map_range]

theorem runs_clear : (layer.runs circuit table vector).Pairwise Buffer.Clear := by
  have ordered := List.pairwise_map.mp (made.params_chain wellFormed filled).ordered
  rw [made.runs_eq wellFormed filled, List.pairwise_map]
  refine ordered.imp_of_mem ?_
  intro left right leftFirst _ before
  have width := made.params_width wellFormed filled (mem_of_first leftFirst)
  apply Or.inl
  dsimp only
  rw [lengths left (mem_of_first leftFirst), Span.size]
  omega

theorem writeAll_row (inside : id ∈ layer.nodes) {place : Nat}
    (within : place < (table.paramsAt id).size) :
    (Buffer.writeAll (Array.replicate layer.numParameters 0)
        (layer.runs circuit table vector))[(table.paramsAt id).start + place]? =
      (vector (circuit.owner id))[place]? := by
  have pooled := inside
  rw [← made.pool_nodes] at pooled
  have width := filled.params_width wellFormed pooled
  have isRun : ((table.paramsAt id).start, vector (circuit.owner id)) ∈
      layer.runs circuit table vector := by
    rw [runs, List.mem_map]
    refine ⟨circuit.owner id, ?_, by rw [filled.ownerParams_eq wellFormed pooled]⟩
    rw [Sharing.owners, List.mem_eraseDups]
    exact List.mem_map_of_mem inside
  have size : layer.numParameters = table.numParams (.inputs layer.index) :=
    congrArg (·.numParameters) made.layer_eq
  apply Buffer.getElem?_writeAll_of_clear (made.runs_clear wellFormed filled lengths) isRun
  · rw [lengths id inside]
    exact within
  · rw [Span.size] at within
    rw [Array.size_replicate, size]
    dsimp only
    omega

end Runs

theorem initialized (fits : ∀ id < circuit.arena.length, (circuit.node id).ParamsFit)
    (drawsFit : ∀ id dist, (circuit.node id).kind = .input dist → dist.DrawsFit)
    (perturbation : Float32) (source : WordSource) :
    ∃ params after drawn,
      layer.initialParams circuit table perturbation source = .ok (params, after) ∧
        layer.Initialized circuit table circuit.held perturbation source drawn params after := by
  let drawn := circuit.drawMissing circuit.held perturbation (Sharing.owners circuit layer.nodes)
    source
  let vector := Circuit.vector circuit.held drawn.1
  have lengths (id : NodeId) (inside : id ∈ layer.nodes) :
      (vector (circuit.owner id)).length = (table.paramsAt id).size :=
    made.length_vector wellFormed filled fits drawsFit perturbation source inside
  have distinct : ((firstOfOwners circuit layer.nodes).map circuit.owner).Nodup := by
    rw [made.owners_firsts]
    exact nodup_eraseDups _
  have success := made.foldlM_writeOwner wellFormed filled (fun id first => mem_of_first first)
    distinct perturbation (Array.replicate layer.numParameters 0) source
  rw [← initialParams_eq, made.owners_firsts] at success
  refine ⟨_, drawn.2, drawn.1, success, ?_⟩
  constructor
  case draws => rfl
  case size => rw [Buffer.size_writeAll, Array.size_replicate]
  case rows =>
    intro index id k found
    obtain ⟨inside, bound⟩ := Circuit.mem_places.mp (List.mem_of_getElem? found)
    refine ⟨_, by rw [made.paramStarts_eq, List.getElem?_map, found]; rfl, ?_⟩
    intro j column
    have within := made.column_inside wellFormed filled inside bound column
    have row := made.writeAll_row wellFormed filled lengths inside within
    have present := within
    rw [← lengths id inside] at present
    rw [Nat.add_assoc]
    exact ⟨_, row.trans (List.getElem?_eq_getElem present), List.getElem?_eq_getElem present⟩
  case writes => rfl
  case once => exact made.runs_once wellFormed filled lengths

end Made

theorem initialParams_lastStored {groupSize : Nat} {operations : List Operation} {root : NodeId}
    {options : Options} {plan : Plan}
    (finished : ((Builder.empty groupSize).runAll operations).finish root = .ok circuit)
    (compiled : Plan.ofCircuit circuit options = .ok plan)
    (drawsFit : ∀ operation ∈ operations, ∀ dist, operation.Brings dist →
      dist.Standard ∨ dist.DrawsFit)
    (member : layer ∈ plan.inputLayers) (perturbation : Float32) (source : WordSource) :
    ∃ params after drawn,
      layer.initialParams circuit plan.slots perturbation source = .ok (params, after) ∧
        layer.Initialized circuit plan.slots
          (circuit.lastStored ((Builder.empty groupSize).log operations)) perturbation source drawn
          params after := by
  have accepted : circuit.Accepted := .built operations finished
  have made := Plan.ofCircuit_made compiled
  obtain ⟨served, filled⟩ := SlotTable.exists_filled accepted.wellFormed made.slots
  obtain ⟨index, found⟩ := List.getElem?_of_mem member
  obtain ⟨-, group, layerMade⟩ := made.exists_inputLayer filled found
  have stored : circuit.held = circuit.lastStored ((Builder.empty groupSize).log operations) :=
    funext fun owner => Circuit.params_eq_lastStored finished owner
  have fits (id : NodeId) (dist : Distribution) (kind : (circuit.node id).kind = .input dist) :
      dist.DrawsFit := by
    obtain ⟨operation, among, brings⟩ := Circuit.exists_brings finished kind
    exact (drawsFit operation among dist brings).elim (·.drawsFit) fun fits => fits
  rw [← stored]
  exact layerMade.initialized accepted.wellFormed filled
    (Arena.passes_iff.mp accepted.passes.2.2).2 fits perturbation source

def suppliedToCopy : List Operation :=
  [.addInputs (.ofList [0]) 1 (.categorical 2), .copyInputs 0 (some (.ofList [1])) true,
    .addInputs (.ofList [2]) 1 (.categorical 2), .addProduct [0, 1, 2], .addSum [3] 1,
    .supplyParams 1 [1, 3]]

theorem suppliedToCopy_initialParams :
    let source : WordSource := ⟨fun index => .ofNat index, 0⟩
    ∃ circuit plan layer,
      ((Builder.empty 1).runAll suppliedToCopy).finish 4 = .ok circuit ∧
      Plan.ofCircuit circuit {} = .ok plan ∧ plan.inputLayers = [layer] ∧
      layer.paramStarts = [0, 0, 2] ∧ ∃ params after drawn,
        layer.initialParams circuit plan.slots 2 source = .ok (params, after) ∧
          layer.Initialized circuit plan.slots
            (circuit.lastStored ((Builder.empty 1).log suppliedToCopy)) 2 source drawn params
            after := by
  have passes : (((Builder.empty 1).runAll suppliedToCopy).finish 4).toOption.any (fun circuit =>
      (Plan.ofCircuit circuit {}).toOption.any fun plan =>
        decide (plan.inputLayers.map (·.paramStarts) = [[0, 0, 2]])) = true := by decide +kernel
  obtain ⟨circuit, finished, planned⟩ := exists_ok_of_any passes
  obtain ⟨plan, compiled, columns⟩ := exists_ok_of_any planned
  obtain ⟨layer, layers, starts⟩ := List.map_eq_singleton_iff.mp (of_decide_eq_true columns)
  have drawsFit : ∀ operation ∈ suppliedToCopy, ∀ dist, operation.Brings dist →
      dist.Standard ∨ dist.DrawsFit := by
    intro operation among dist brings
    apply Or.inl
    simp only [suppliedToCopy, List.mem_cons, List.not_mem_nil, or_false] at among
    rcases among with rfl | rfl | rfl | rfl | rfl | rfl <;> cases brings
    all_goals exact .categorical 2
  have member : layer ∈ plan.inputLayers := by
    rw [layers]
    exact List.mem_singleton_self layer
  exact ⟨circuit, plan, layer, finished, compiled, layers, starts,
    initialParams_lastStored finished compiled drawsFit member 2 _⟩

end InputLayer
end CircuitPlan
