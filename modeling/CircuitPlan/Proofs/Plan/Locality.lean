import CircuitPlan.Plan
import CircuitPlan.Proofs.Circuit.Agreement
import CircuitPlan.Proofs.Layout.Order

namespace CircuitPlan

variable {first second : Circuit} {id : NodeId}

/-! ## Layers -/

namespace Layout

theorem level_plain (depths : List Nat) (node : Node) :
    level depths node.plain = level depths node := by
  obtain ⟨kind, _⟩ := node
  cases kind <;> rfl

theorem layerKind_plain (node : Node) : node.plain.layerKind? = node.layerKind? := by
  obtain ⟨kind, _⟩ := node
  cases kind <;> rfl

theorem dist_plain {γ : Type} {answer : Distribution → γ}
    (blind : ∀ dist : Distribution, answer dist.plain = answer dist) (node : Node) :
    node.plain.kind.dist?.map answer = node.kind.dist?.map answer := by
  obtain ⟨kind, _⟩ := node
  cases kind <;> simp [Node.plain, NodeKind.plain, NodeKind.dist?, blind]

section View

variable (view : first.SameView second) (firstFormed : first.WellFormed)
  (secondFormed : second.WellFormed)
include view firstFormed secondFormed

theorem depth_congr (reachable : id ∈ first.reachable) : depth first id = depth second id := by
  induction id using Nat.strongRecOn with
  | _ id ih =>
      have secondReachable := view.reachable_eq ▸ reachable
      rw [depth_eq_level firstFormed reachable, depth_eq_level secondFormed secondReachable,
        view.congr (level (depths first.arena)) reachable (level_plain _)]
      apply level_congr
      intro child isChild
      rw [← view.children_eq reachable] at isChild
      exact ih child ((firstFormed.admits reachable).children_earlier child isChild)
        (firstFormed.child_reachable reachable isChild)

theorem ofCircuit_congr : ofCircuit first = ofCircuit second := by
  have depthMap : (first.reachable.map fun id => (depths first.arena).getD id 0) =
      first.reachable.map fun id => (depths second.arena).getD id 0 :=
    List.map_congr_left fun id reachable => depth_congr view firstFormed secondFormed reachable
  have inner (below : Nat) (kind : LayerKind) :
      innerGroup first (depths first.arena) first.reachable below kind =
        innerGroup second (depths second.arena) first.reachable below kind := by
    unfold innerGroup
    congr 1
    apply List.filter_congr
    intro id reachable
    have same : (depths first.arena).getD id 0 = (depths second.arena).getD id 0 :=
      depth_congr view firstFormed secondFormed reachable
    rw [same, view.congr Node.layerKind? reachable layerKind_plain]
  have inputs : inputGroups first first.reachable = inputGroups second first.reachable := by
    have signed : (first.reachable.filterMap fun id =>
          (first.node id).kind.dist?.map fun dist => (dist.signature, id)) =
        first.reachable.filterMap fun id =>
          (second.node id).kind.dist?.map fun dist => (dist.signature, id) := by
      apply List.filterMap_congr
      intro id reachable
      exact view.congr (fun node => node.kind.dist?.map fun dist => (dist.signature, id)) reachable
        (dist_plain fun _ => rfl)
    rw [inputGroups, inputGroups, signed]
  have groups : innerGroup first (depths first.arena) first.reachable =
      innerGroup second (depths second.arena) first.reachable :=
    funext fun below => funext fun kind => inner below kind
  unfold ofCircuit
  dsimp only
  rw [← view.reachable_eq, depthMap, inputs, groups]

end View

end Layout

/-! ## Slots -/

section Order

variable {layout : Layout} (inside : ∀ id ∈ layout.order, id ∈ first.reachable)
include inside

theorem Layout.reachable_of_inputs {group : InputGroup} (member : group ∈ layout.inputs)
    (isNode : id ∈ group.nodes) : id ∈ first.reachable :=
  inside id (List.mem_append_left _ (List.mem_flatMap.mpr ⟨group, member, isNode⟩))

theorem Layout.reachable_of_inner {group : InnerGroup} (member : group ∈ layout.inner)
    (isNode : id ∈ group.nodes) : id ∈ first.reachable :=
  inside id (List.mem_append_right _ (List.mem_flatMap.mpr ⟨group, member, isNode⟩))

end Order

section Slots

variable (view : first.SameView second)
include view

theorem Sharing.ofOrder_congr {nodes : List NodeId} (inside : ∀ id ∈ nodes, id ∈ first.reachable) :
    ofOrder first nodes = ofOrder second nodes := by
  have kept : (nodes.filter fun id => (first.node id).tag ≠ .product) =
      nodes.filter fun id => (second.node id).tag ≠ .product := by
    apply List.filter_congr
    intro id member
    rw [view.tag_eq (inside id member)]
  rw [ofOrder, ofOrder, ← kept]
  congr 1
  apply List.map_congr_left
  intro id member
  rw [view.owner_eq (inside id (List.mem_of_mem_filter member))]

theorem Sharing.owners_congr {nodes : List NodeId} (inside : ∀ id ∈ nodes, id ∈ first.reachable) :
    owners first nodes = owners second nodes := by
  rw [owners, owners, List.map_congr_left fun id member => view.owner_eq (inside id member)]

theorem Request.forInput_congr (sharing : Sharing) (layer : Nat)
    (reachable : id ∈ first.reachable) :
    forInput first sharing layer id = forInput second sharing layer id := by
  have kinds := view.kinds_alike reachable
  rw [forInput, forInput, ← view.owner_eq reachable, ← view.numNodes_eq reachable]
  generalize (first.node id).kind = left, (second.node id).kind = right at kinds
  cases kinds with
  | input dists =>
      dsimp only
      rw [dists.metadata_eq, dists.numParameters_eq, dists.numFlows_eq]
  | product => rfl
  | sum => rfl

theorem Request.forInner_congr (wellFormed : first.WellFormed) (sharing : Sharing)
    (reachable : id ∈ first.reachable) :
    forInner first sharing id = forInner second sharing id := by
  have numGroups := view.congr Node.numGroups reachable fun _ => rfl
  have groupSize := view.congr Node.groupSize reachable fun _ => rfl
  rw [forInner, forInner, view.numNodes_eq reachable, numGroups, groupSize,
    view.fanIn_eq wellFormed reachable, view.tag_eq reachable, view.owner_eq reachable]

theorem SlotTable.nodeSlots_congr (layout : Layout) (sharing : Sharing)
    (served : List (Purpose × Span)) (reachable : id ∈ first.reachable) :
    nodeSlots first layout sharing served id = nodeSlots second layout sharing served id := by
  have kinds := view.kinds_alike reachable
  rw [nodeSlots, nodeSlots, ← view.owner_eq reachable]
  generalize (first.node id).kind = left, (second.node id).kind = right at kinds
  cases kinds <;> rfl

variable {layout : Layout} (inside : ∀ id ∈ layout.order, id ∈ first.reachable)
include inside

theorem Request.all_congr (wellFormed : first.WellFormed) :
    all first layout = all second layout := by
  rw [all, all, Sharing.ofOrder_congr view inside]
  apply congrArg₂ (· ++ ·)
  · apply List.flatMap_congr
    rintro ⟨group, layer⟩ member
    apply List.flatMap_congr
    intro id isNode
    exact forInput_congr view _ layer
      (Layout.reachable_of_inputs inside (List.fst_mem_of_mem_zipIdx member) isNode)
  · apply List.flatMap_congr
    intro group member
    apply List.flatMap_congr
    intro id isNode
    exact forInner_congr view wellFormed _ (Layout.reachable_of_inner inside member isNode)

theorem SlotTable.ofLayout_congr (wellFormed : first.WellFormed) :
    ofLayout first layout = ofLayout second layout := by
  have ties (sharing : Sharing) (served : List (Purpose × Span)) (nodes : List NodeId)
      (reachable : ∀ id ∈ nodes, id ∈ first.reachable) :
      ties first sharing served nodes = ties second sharing served nodes := by
    rw [SlotTable.ties, SlotTable.ties, Sharing.owners_congr view reachable]
  rw [ofLayout, ofLayout, Sharing.ofOrder_congr view inside,
    Request.all_congr view inside wellFormed]
  dsimp only
  congr 1
  funext ⟨served, allocator⟩
  dsimp only
  congr 2
  · apply List.map_congr_left
    intro id member
    rw [nodeSlots_congr view layout _ served (inside id (Ascending.mem_ofList.mp member))]
  · apply ties
    intro id member
    obtain ⟨group, isGroup, isNode⟩ := List.mem_flatMap.mp member
    exact Layout.reachable_of_inner inside (List.mem_of_mem_filter isGroup) isNode
  · apply List.map_congr_left
    intro group member
    exact ties _ _ _ fun id isNode => Layout.reachable_of_inputs inside member isNode

end Slots

/-! ## Layers made from the slots -/

section Made

variable (view : first.SameView second)
include view

theorem InputLayer.scalars_congr (table : SlotTable) (firsts : List NodeId)
    (reachable : id ∈ first.reachable) :
    scalars first table firsts id = scalars second table firsts id := by
  have kinds := view.kinds_alike reachable
  have scopes := view.congr (·.scope) reachable fun _ => rfl
  rw [scalars, scalars]
  rw [scopes, view.numNodes_eq reachable]
  generalize (first.node id).kind = left, (second.node id).kind = right at kinds
  cases kinds with
  | input dists =>
      apply bind_congr_ok
      intro slots _
      cases slots.params <;> cases slots.flows <;> cases slots.metadata <;>
        simp [NodeKind.dist?, dists.numParameters_eq, dists.numFlows_eq]
  | product => rfl
  | sum => rfl

theorem InputLayer.ofGroup_congr (table : SlotTable) (index : Nat) {group : InputGroup}
    (inside : ∀ id ∈ group.nodes, id ∈ first.reachable) (reduction : Reduction) :
    ofGroup first table index group reduction = ofGroup second table index group reduction := by
  have firsts : firstOfOwners first group.nodes = firstOfOwners second group.nodes := by
    rw [firstOfOwners, firstOfOwners, Sharing.ofOrder_congr view inside]
    apply List.filter_congr
    intro id member
    rw [view.owner_eq (inside id member)]
  have answers {γ : Type} (answer : Distribution → γ)
      (blind : ∀ dist : Distribution, answer dist.plain = answer dist) :
      (group.nodes.filterMap fun id => (first.node id).kind.dist?).map answer =
        (group.nodes.filterMap fun id => (second.node id).kind.dist?).map answer := by
    rw [List.map_filterMap, List.map_filterMap]
    apply List.filterMap_congr
    intro id member
    exact view.congr (fun node => node.kind.dist?.map answer) (inside id member)
      (Layout.dist_plain blind)
  have entries : group.nodes.mapM (scalars first table (firstOfOwners second group.nodes)) =
      group.nodes.mapM (scalars second table (firstOfOwners second group.nodes)) :=
    mapM_congr fun id member => scalars_congr view table _ (inside id member)
  have numVars := answers (·.numVars) fun _ => rfl
  have metadata := congrArg List.flatten (answers (·.metadata) fun _ => rfl)
  rw [← List.flatMap_def, ← List.flatMap_def] at metadata
  rw [ofGroup, ofGroup]
  dsimp only
  rw [firsts, entries, numVars, metadata]

theorem Row.ofNode_congr (wellFormed : first.WellFormed) (table : SlotTable) (kind : LayerKind)
    (reachable : id ∈ first.reachable) :
    ofNode first table kind id = ofNode second table kind id := by
  have counts : ((first.node id).children.map fun child => (first.node child).numNodes) =
      (first.node id).children.map fun child => (second.node child).numNodes := by
    apply List.map_congr_left
    intro child isChild
    exact view.numNodes_eq (wellFormed.child_reachable reachable isChild)
  have numGroups := view.congr Node.numGroups reachable fun _ => rfl
  rw [ofNode, ofNode]
  dsimp only
  rw [counts, view.children_eq reachable, numGroups, view.groupSize_eq]

theorem InnerLayer.ofGroup_congr (wellFormed : first.WellFormed) (table : SlotTable)
    (tolerance : Float32) (cap : Option Nat) {group : InnerGroup}
    (inside : ∀ id ∈ group.nodes, id ∈ first.reachable) :
    ofGroup first table tolerance cap group = ofGroup second table tolerance cap group := by
  have rows : group.nodes.mapM (Row.ofNode first table group.kind) =
      group.nodes.mapM (Row.ofNode second table group.kind) :=
    mapM_congr fun id member => Row.ofNode_congr view wellFormed table _ (inside id member)
  rw [ofGroup, ofGroup, rows, view.groupSize_eq]

end Made

/-! ## Plans -/

namespace Plan

theorem ofCircuit_congr (view : first.SameView second) (firstFormed : first.WellFormed)
    (secondFormed : second.WellFormed) (options : Options) :
    ofCircuit first options = ofCircuit second options := by
  have layout := Layout.ofCircuit_congr view firstFormed secondFormed
  have inside : ∀ id ∈ (Layout.ofCircuit second).order, id ∈ first.reachable := by
    intro id member
    rw [← layout] at member
    exact (Layout.mem_order firstFormed).mp member
  have slots := SlotTable.ofLayout_congr view inside firstFormed
  have inputs (table : SlotTable) : ((Layout.ofCircuit second).inputs.zipIdx.mapM fun entry =>
        inputLayer first options table entry.2 entry.1) =
      (Layout.ofCircuit second).inputs.zipIdx.mapM fun entry =>
        inputLayer second options table entry.2 entry.1 := by
    apply mapM_congr
    rintro ⟨group, index⟩ member
    have reachable : ∀ id ∈ group.nodes, id ∈ first.reachable := fun id isNode =>
      Layout.reachable_of_inputs inside (List.fst_mem_of_mem_zipIdx member) isNode
    rw [inputLayer, inputLayer]
    simp only [InputLayer.ofGroup_congr view table index reachable]
  have inner (table : SlotTable) : (Layout.ofCircuit second).inner.mapM
        (InnerLayer.ofGroup first table options.tolerance.value options.maxPartitions) =
      (Layout.ofCircuit second).inner.mapM
        (InnerLayer.ofGroup second table options.tolerance.value options.maxPartitions) :=
    mapM_congr fun group member => InnerLayer.ofGroup_congr view firstFormed table _ _
      fun id isNode => Layout.reachable_of_inner inside member isNode
  rw [ofCircuit, ofCircuit]
  dsimp only
  rw [layout, slots, view.groupSize_eq, view.root_eq]
  simp only [inputs, inner]

theorem ofCircuit_local (firstAccepted : first.Accepted) (secondAccepted : second.Accepted)
    (agrees : first.Agrees second) (options : Options) :
    ofCircuit first options = ofCircuit second options :=
  ofCircuit_congr (agrees.sameView firstAccepted.wellFormed secondAccepted.wellFormed)
    firstAccepted.wellFormed secondAccepted.wellFormed options

def copied (supplied : Option (List Float32)) (later : Arena) : Circuit :=
  let input (var : Nat) (tiedTo : Option NodeId) (params : Option (List Float32)) : Node :=
    { kind := .input (.categorical 2), scope := .ofList [var], numGroups := 1, groupSize := 2
      children := [], tiedTo, params }
  let inner (kind : NodeKind) (children : List NodeId) : Node :=
    { kind, scope := .ofList [0, 1], numGroups := 1, groupSize := 2, children }
  ⟨2, [input 0 none supplied, input 0 (some 0) none, input 1 none supplied,
    inner .product [1, 2], inner .sum [3], input 3 (some 0) none] ++ later, 4⟩

theorem copied_local :
    let first := copied none []
    let second := copied (some [1, 3, 1, 1]) [{ first.node 1 with tiedTo := none }]
    first.reachable = [1, 2, 3, 4] ∧ first.Agrees second ∧ (∃ plan, ofCircuit first {} = .ok plan) ∧
      ofCircuit first {} = ofCircuit second {} := by
  intro first second
  have passes : (Circuit.ofArena 2 first.arena 4).isOk = true := by decide +kernel
  have secondPasses : (Circuit.ofArena 2 second.arena 4).isOk = true := by decide +kernel
  have reachable : first.reachable = [1, 2, 3, 4] := by decide +kernel
  have same (node : Node) (params : Option (List Float32)) : node.Alike { node with params } := by
    refine ⟨?_, rfl, rfl, rfl, rfl⟩
    cases node.kind with
    | input dist => exact .input ⟨rfl, rfl, rfl, rfl, rfl⟩
    | product => exact .product
    | sum => exact .sum
  have agrees : first.Agrees second := by
    refine ⟨rfl, rfl, ?_⟩
    rw [reachable]
    simp only [List.forall_mem_cons, List.not_mem_nil, false_imp_iff, implies_true, and_true]
    exact ⟨⟨_, _, rfl, rfl, same _ none⟩, ⟨_, _, rfl, rfl, same _ (some [1, 3, 1, 1])⟩,
      ⟨_, _, rfl, rfl, same _ none⟩, ⟨_, _, rfl, rfl, same _ none⟩⟩
  have planned : (ofCircuit first {}).isOk = true := by decide +kernel
  exact ⟨reachable, agrees, exists_of_isOk planned,
    ofCircuit_local (Circuit.accepted_of_isOk passes) (Circuit.accepted_of_isOk secondPasses)
      agrees {}⟩

end Plan
end CircuitPlan
