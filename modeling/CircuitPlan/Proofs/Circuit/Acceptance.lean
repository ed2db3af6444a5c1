import CircuitPlan.Circuit.Builder
import CircuitPlan.Distribution.Families
import CircuitPlan.Proofs.Circuit.Rules

/-!
# Accepted circuits

A circuit is accepted when its arena passes all checks at once or when it was built operation by
operation. Either way every node vector of its arena satisfies the structural rules, which is all
that planning relies on.
-/

namespace CircuitPlan

theorem Node.withParams_of_input {node : Node} {dist : Distribution}
    (kind : node.kind = .input dist) (params : List Float32) :
    node.withParams params = { node with params := some (dist.normalize params) } := by
  unfold Node.withParams
  rw [kind]

namespace Arena

def Sound (arena : Arena) (groupSize : Nat) : Prop :=
  ∀ id < arena.length, arena.Admits groupSize id (arena.node id)

theorem node_append_left {arena : Arena} {node : Node} {id : NodeId} (bound : id < arena.length) :
    Arena.node (arena ++ [node]) id = arena.node id := by
  unfold Arena.node
  rw [List.getElem?_append_left bound]

theorem node_append_self (arena : Arena) (node : Node) :
    Arena.node (arena ++ [node]) arena.length = node := by
  simp [Arena.node]

theorem bare_node_set (arena : Arena) (changed id : NodeId) (params : Option (List Float32)) :
    (Arena.node (arena.set changed { arena.node changed with params }) id).bare =
      (arena.node id).bare := by
  unfold Arena.node
  by_cases same : changed = id
  · subst same
    by_cases bound : changed < arena.length
    · rw [List.getElem?_set_self bound, List.getElem?_eq_getElem bound]
      rfl
    · rw [List.set_eq_of_length_le (Nat.le_of_not_lt bound)]
  · rw [List.getElem?_set_ne same]

/-! ## Rules under a change of the arena -/

section Change

variable {arena other : Arena}

theorem fanIn_congr {node : Node}
    (same : ∀ child ∈ node.children, (arena.node child).bare = (other.node child).bare) :
    arena.fanIn node = other.fanIn node := by
  unfold fanIn
  congr 1
  apply List.map_congr_left
  intro child member
  exact Node.congr_bare Node.numNodes (same child member) fun _ => rfl

theorem covered_congr {children : List NodeId}
    (same : ∀ child ∈ children, (arena.node child).bare = (other.node child).bare) :
    arena.covered children = other.covered children := by
  unfold covered
  apply List.foldl_ext
  intro scope child member
  rw [Node.congr_bare Node.scope (same child member) fun _ => rfl]

theorem KindRules.congr {node : Node} (rules : arena.KindRules node)
    (same : ∀ child ∈ node.children, (arena.node child).bare = (other.node child).bare) :
    other.KindRules node := by
  have tag (child : NodeId) (member : child ∈ node.children) :
      (arena.node child).tag = (other.node child).tag :=
    Node.congr_bare Node.tag (same child member) fun _ => rfl
  have scope (child : NodeId) (member : child ∈ node.children) :
      (arena.node child).scope = (other.node child).scope :=
    Node.congr_bare Node.scope (same child member) fun _ => rfl
  unfold KindRules at rules ⊢
  cases kind : node.kind with
  | input dist => simpa only [kind] using rules
  | product =>
      simp only [kind] at rules ⊢
      obtain ⟨nonempty, each, apart, covered⟩ := rules
      refine ⟨nonempty, ?_, ?_, (covered_congr same).symm.trans covered⟩
      · intro child member
        rw [← tag child member,
          ← Node.congr_bare Node.numGroups (same child member) fun _ => rfl]
        exact each child member
      · refine apart.imp_of_mem ?_
        intro left right leftMember rightMember disjoint
        rw [← scope left leftMember, ← scope right rightMember]
        exact disjoint
  | sum =>
      simp only [kind] at rules ⊢
      obtain ⟨nonempty, each, distinct⟩ := rules
      refine ⟨nonempty, ?_, distinct⟩
      intro child member
      rw [← tag child member, ← scope child member]
      exact each child member

theorem SameShapes.congr {origin origin' node : Node} (shapes : arena.SameShapes origin node)
    (alike : origin.bare = origin'.bare)
    (originSame : ∀ child ∈ origin.children, (arena.node child).bare = (other.node child).bare)
    (nodeSame : ∀ child ∈ node.children, (arena.node child).bare = (other.node child).bare) :
    other.SameShapes origin' node := by
  have kind : origin.kind = origin'.kind :=
    Node.congr_bare Node.kind alike fun _ => rfl
  have fanIn : other.fanIn origin' = arena.fanIn origin := by
    rw [fanIn_congr originSame]
    unfold Arena.fanIn
    rw [Node.congr_bare Node.children alike fun _ => rfl]
  unfold SameShapes at shapes ⊢
  rw [← kind, ← fanIn_congr nodeSame, fanIn]
  exact shapes

/-- The rules look only at earlier node vectors, which have to keep their order themselves because
the fan-in of a tie source is read off its children. -/
theorem Admits.congr {groupSize : Nat} {id : NodeId} {node : Node}
    (admitted : arena.Admits groupSize id node)
    (same : ∀ earlier < id, (arena.node earlier).bare = (other.node earlier).bare)
    (ordered : ∀ earlier < id, ∀ child ∈ (arena.node earlier).children, child < earlier) :
    other.Admits groupSize id node where
  groupSize_eq := admitted.groupSize_eq
  numGroups_pos := admitted.numGroups_pos
  scope_free := admitted.scope_free
  children_earlier := admitted.children_earlier
  kind_rules := admitted.kind_rules.congr fun child member =>
    same child (admitted.children_earlier child member)
  tie_rules := by
    intro source tied
    obtain ⟨earlier, untied, groupSize, numGroups, shapes⟩ := admitted.tie_rules source tied
    have alike := same source earlier
    refine ⟨earlier, ?_, ?_, ?_, ?_⟩
    · exact (Node.congr_bare Node.tiedTo alike fun _ => rfl).symm.trans untied
    · exact (Node.congr_bare Node.groupSize alike fun _ => rfl).symm.trans groupSize
    · exact (Node.congr_bare Node.numGroups alike fun _ => rfl).symm.trans numGroups
    · apply shapes.congr alike
      · intro child member
        exact same child (Nat.lt_trans (ordered source earlier child member) earlier)
      · intro child member
        exact same child (admitted.children_earlier child member)

theorem Admits.withParams {groupSize : Nat} {id : NodeId} {node : Node}
    (admitted : arena.Admits groupSize id node) (params : Option (List Float32)) :
    arena.Admits groupSize id { node with params } where
  groupSize_eq := admitted.groupSize_eq
  numGroups_pos := admitted.numGroups_pos
  scope_free := admitted.scope_free
  children_earlier := admitted.children_earlier
  kind_rules := admitted.kind_rules
  tie_rules source tied := by
    obtain ⟨earlier, untied, groupSize, numGroups, shapes⟩ := admitted.tie_rules source tied
    exact ⟨earlier, untied, groupSize, numGroups, shapes⟩

end Change

theorem forall_append {arena : Arena} {node : Node} (rule : NodeId → Node → Prop)
    (kept : ∀ id < arena.length, rule id (arena.node id)) (added : rule arena.length node) :
    ∀ id < (arena ++ [node]).length, rule id (Arena.node (arena ++ [node]) id) := by
  intro id bound
  rw [List.length_append, List.length_singleton] at bound
  by_cases old : id < arena.length
  · rw [node_append_left old]
    exact kept id old
  · obtain rfl : id = arena.length := by omega
    rw [node_append_self]
    exact added

theorem Sound.append {arena : Arena} {groupSize : Nat} {node : Node}
    (sound : arena.Sound groupSize)
    (admitted : Admits (arena ++ [node]) groupSize arena.length node) :
    Sound (arena ++ [node]) groupSize := by
  refine forall_append (Admits (arena ++ [node]) groupSize) (fun id old => ?_) admitted
  apply (sound id old).congr
  · intro earlier before
    rw [node_append_left (Nat.lt_trans before old)]
  · intro earlier before
    exact (sound earlier (Nat.lt_trans before old)).children_earlier

theorem Sound.replaceParams {arena : Arena} {groupSize : Nat} (sound : arena.Sound groupSize)
    (changed : NodeId) (params : Option (List Float32)) :
    Sound (arena.set changed { arena.node changed with params }) groupSize := by
  intro id bound
  rw [List.length_set] at bound
  have admitted : Admits (arena.set changed { arena.node changed with params }) groupSize id
      (arena.node id) := by
    apply (sound id bound).congr
    · intro earlier _
      exact (bare_node_set arena changed earlier params).symm
    · intro earlier before
      exact (sound earlier (Nat.lt_trans before bound)).children_earlier
  unfold Arena.node
  by_cases same : changed = id
  · subst same
    rw [List.getElem?_set_self bound]
    exact admitted.withParams params
  · rw [List.getElem?_set_ne same]
    exact admitted

theorem owner_untied {arena : Arena} {groupSize : Nat} (sound : arena.Sound groupSize)
    {id : NodeId} (bound : id < arena.length) :
    (arena.node ((arena.node id).tiedTo.getD id)).tiedTo = none := by
  cases tied : (arena.node id).tiedTo with
  | none => exact tied
  | some source => exact ((sound id bound).tie_rules source tied).untied

/-! ## Arenas that pass all checks -/

def Passes (arena : Arena) (groupSize : Nat) : Prop :=
  ∀ id < arena.length, arena.checkNode groupSize id (arena.node id) = .ok ()

theorem checkNode_eq_ok {arena : Arena} {groupSize : Nat} {id : NodeId} {node : Node}
    (bound : id < arena.length) :
    arena.checkNode groupSize id node = .ok () ↔
      arena.Admits groupSize id node ∧ node.ParamsFit := by
  rw [checkNode, mapError_eq_ok, checkRules_eq_ok bound]

theorem passes_iff {arena : Arena} {groupSize : Nat} :
    arena.Passes groupSize ↔
      arena.Sound groupSize ∧ ∀ id < arena.length, (arena.node id).ParamsFit := by
  unfold Passes Sound
  rw [← forall₂_and]
  exact forall₂_congr fun id bound => checkNode_eq_ok bound

theorem Passes.append {arena : Arena} {groupSize : Nat} {node : Node}
    (passes : arena.Passes groupSize)
    (checked : checkNode (arena ++ [node]) groupSize arena.length node = .ok ()) :
    Passes (arena ++ [node]) groupSize := by
  rw [passes_iff] at passes ⊢
  rw [checkNode_eq_ok (by simp)] at checked
  exact ⟨passes.1.append checked.1,
    forall_append (fun _ => Node.ParamsFit) passes.2 checked.2⟩

theorem Passes.replaceParams {arena : Arena} {groupSize : Nat} (passes : arena.Passes groupSize)
    {changed : NodeId} {params : Option (List Float32)}
    (fit : Node.ParamsFit { arena.node changed with params }) :
    Passes (arena.set changed { arena.node changed with params }) groupSize := by
  rw [passes_iff] at passes ⊢
  refine ⟨passes.1.replaceParams changed params, ?_⟩
  intro id bound
  rw [List.length_set] at bound
  unfold Arena.node
  by_cases same : changed = id
  · subst same
    rw [List.getElem?_set_self bound]
    exact fit
  · rw [List.getElem?_set_ne same]
    exact passes.2 id bound

end Arena

/-! ## Operations of a builder -/

namespace Operation

def Adds : Operation → Prop
  | supplyParams _ _ => False
  | _ => True

def params : Operation → Option (List Float32)
  | addNode node => node.params
  | _ => none

def kind (builder : Builder) : Operation → NodeKind
  | addInputs _ _ dist => .input dist
  | addProduct _ => .product
  | addSum _ _ => .sum
  | copyInputs id _ _ => (builder.arena.node id).kind
  | copySum _ _ _ => .sum
  | addNode node => node.kind
  | supplyParams _ _ => .product

end Operation

namespace Builder

def owner (builder : Builder) (id : NodeId) : NodeId := (builder.arena.node id).tiedTo.getD id

/-- What an operation does to a builder, by what it answers. It fails and changes nothing, it adds
one node vector that passes all checks in the arena it is added to, or it replaces the parameters
of one input and leaves all else in place. -/
inductive Step (builder : Builder) :
    Operation → Except StructuralError (Option NodeId) → Builder → Prop
  | failed (operation : Operation) (error : StructuralError) :
      Step builder operation (.error error) builder
  | added {operation : Operation} (adds : operation.Adds) (node : Node)
      (checked : Arena.checkNode (builder.arena ++ [node]) builder.groupSize builder.next node =
        .ok ()) :
      Step builder operation (.ok (some builder.next))
        { builder with arena := builder.arena ++ [node] }
  | supplied {id : NodeId} (bound : id < builder.arena.length) {dist : Distribution}
      (kind : (builder.arena.node (builder.owner id)).kind = .input dist) {params : List Float32}
      (count : params.length =
        (builder.arena.node (builder.owner id)).numNodes * dist.numParameters) :
      Step builder (.supplyParams id params) (.ok none) { builder with
        arena := builder.arena.set (builder.owner id)
          { builder.arena.node (builder.owner id) with params := some (dist.normalize params) } }

variable {builder after : Builder} {id : NodeId} {node : Node} {operation : Operation}
  {draft : Builder → Except StructuralError Node} {holds : Node → Prop}

@[simp] theorem pop_push (builder : Builder) (node : Node) : (builder.push node).pop = builder := by
  rw [pop, push, List.dropLast_concat]

def check (builder : Builder) (node : Node) : Except StructuralError Unit := do
  require (builder.groupSize ≠ 0) .zeroGroupSize
  Arena.checkNode (builder.arena ++ [node]) builder.groupSize builder.next node

theorem check_eq_ok : builder.check node = .ok () ↔ 0 < builder.groupSize ∧
    Arena.checkNode (builder.arena ++ [node]) builder.groupSize builder.next node = .ok () := by
  rw [check, unit_bind_eq_ok, require_eq_ok, Nat.pos_iff_ne_zero]

theorem run_addNode (builder : Builder) (node : Node) :
    (addNode node).run builder =
      match builder.check node with
      | .ok () => .ok builder.next (builder.push node)
      | .error error => .error error builder := by
  by_cases zero : builder.groupSize = 0
  · simp [addNode, check, zero, require_neg]
  · have checked : builder.check node =
        (builder.push node).arena.checkNode (builder.push node).groupSize builder.next node := by
      rw [check, require_pos zero]
      rfl
    simp only [checked, addNode, EStateM.run_bind, EStateM.run_get, require_pos zero,
      run_ofExcept_ok, EStateM.run_modify]
    cases (builder.push node).arena.checkNode (builder.push node).groupSize builder.next node with
    | ok passed => rfl
    | error error =>
        change EStateM.Result.error error (builder.push node).pop = _
        rw [pop_push]

theorem run_addDraft (builder : Builder) (draft : Builder → Except StructuralError Node) :
    (addDraft draft).run builder =
      match draft builder with
      | .ok node => (addNode node).run builder
      | .error error => .error error builder := by
  simp only [addDraft, EStateM.run_bind, EStateM.run_get]
  cases draft builder <;> rfl

theorem addNode_eq_ok : (addNode node).run builder = .ok id after ↔
    builder.check node = .ok () ∧ id = builder.next ∧ after = builder.push node := by
  rw [run_addNode]
  cases builder.check node with
  | ok passed => simp [eq_comm]
  | error error => simp

theorem addNode_eq_error {error : StructuralError} : (addNode node).run builder =
    .error error after ↔ builder.check node = .error error ∧ after = builder := by
  rw [run_addNode]
  cases builder.check node with
  | ok passed => simp
  | error error => simp [eq_comm]

theorem addDraft_eq_ok : (addDraft draft).run builder = .ok id after ↔
    ∃ node, draft builder = .ok node ∧ (addNode node).run builder = .ok id after := by
  rw [run_addDraft]
  cases draft builder <;> simp

/-- A call fails and leaves the builder as it was, or it adds a node vector that passes its
checks. -/
def Adds (builder : Builder) (call : Edit NodeId) (holds : Node → Prop) : Prop :=
  (∃ error, call.run builder = .error error builder) ∨
  ∃ node, holds node ∧ builder.check node = .ok () ∧
    call.run builder = .ok builder.next (builder.push node)

theorem adds_addNode (own : holds node) : builder.Adds (addNode node) holds := by
  cases checked : builder.check node with
  | ok passed => exact .inr ⟨node, own, checked, by rw [run_addNode, checked]⟩
  | error error => exact .inl ⟨error, by rw [run_addNode, checked]⟩

theorem adds_addDraft (drawn : ∀ node, draft builder = .ok node → holds node) :
    builder.Adds (addDraft draft) holds := by
  unfold Adds
  rw [run_addDraft]
  cases success : draft builder with
  | ok node => exact adds_addNode (drawn node success)
  | error error => exact .inl ⟨error, rfl⟩

theorem draftProduct_bare {children : List NodeId}
    (drawn : draftProduct children builder = .ok node) :
    node.params = none ∧ node.kind = .product := by
  cases children with
  | nil => simp [draftProduct] at drawn
  | cons first rest =>
      simp only [draftProduct, bind_eq_ok, pure_eq_ok] at drawn
      obtain ⟨_, -, _, -, rfl⟩ := drawn
      exact ⟨rfl, rfl⟩

theorem draftSum_bare {children : List NodeId} {numGroups : Nat}
    (drawn : draftSum children numGroups builder = .ok node) :
    node.params = none ∧ node.kind = .sum := by
  cases children with
  | nil => simp [draftSum] at drawn
  | cons first rest =>
      simp only [draftSum, bind_eq_ok, pure_eq_ok] at drawn
      obtain ⟨_, -, rfl⟩ := drawn
      exact ⟨rfl, rfl⟩

theorem draftInputsCopy_bare {model : NodeId} {scope : Option Scope} {tie : Bool}
    (drawn : draftInputsCopy model scope tie builder = .ok node) :
    node.params = none ∧ node.kind = (builder.arena.node model).kind := by
  simp only [draftInputsCopy, existing, bind_eq_ok, elim_eq_ok] at drawn
  obtain ⟨copied, found, drawn⟩ := drawn
  have same : builder.arena.node model = copied := by
    rw [Arena.node, show builder.arena[model]? = some copied from found]
    rfl
  split at drawn
  · rename_i dist kind
    obtain rfl := pure_eq_ok.mp drawn
    exact ⟨rfl, by rw [same, kind]⟩
  · cases drawn

theorem draftSumCopy_bare {model : NodeId} {children : Option (List NodeId)} {tie : Bool}
    (drawn : draftSumCopy model children tie builder = .ok node) :
    node.params = none ∧ node.kind = .sum := by
  simp only [draftSumCopy, bind_eq_ok] at drawn
  obtain ⟨_, -, _, -, drawn⟩ := drawn
  split at drawn
  all_goals
    rw [bind_eq_ok] at drawn
    obtain ⟨_, -, drawn⟩ := drawn
    obtain rfl := pure_eq_ok.mp drawn
    exact ⟨rfl, rfl⟩

theorem step_supplyParams (builder : Builder) (id : NodeId) (params : List Float32) :
    (∃ error, (supplyParams id params).run builder = .error error builder) ∨
    ∃ after, (supplyParams id params).run builder = .ok () after ∧
      Step builder (.supplyParams id params) (.ok none) after := by
  unfold supplyParams
  rw [EStateM.run_bind, EStateM.run_get]
  dsimp only
  cases found : builder.node? id with
  | none => exact .inl ⟨_, rfl⟩
  | some target =>
      have bound : id < builder.arena.length := (List.getElem?_eq_some_iff.mp found).1
      have same : target.tiedTo.getD id = builder.owner id := by
        rw [owner, Arena.node, show builder.arena[id]? = some target from found]
        rfl
      rw [Option.elim_some, EStateM.run_bind, run_ofExcept_ok]
      dsimp only
      rw [same]
      split
      case h_1 dist kind =>
        rw [EStateM.run_bind]
        by_cases count : params.length =
            (builder.arena.node (builder.owner id)).numNodes * dist.numParameters
        · rw [require_pos count, Node.withParams_of_input kind]
          exact .inr ⟨_, rfl, .supplied bound kind count⟩
        · rw [require_neg count]
          exact .inl ⟨_, rfl⟩
      case h_2 => exact .inl ⟨_, rfl⟩

theorem edit_of_adds (builder : Builder) (adds : operation.Adds) :
    ∃ call, operation.edit = (return some (← call)) ∧ builder.Adds call fun node =>
      node.params = operation.params ∧ node.kind = operation.kind builder := by
  cases operation with
  | addInputs scope numGroups dist =>
      exact ⟨_, rfl, adds_addDraft fun node drawn => by cases drawn; exact ⟨rfl, rfl⟩⟩
  | addProduct children => exact ⟨_, rfl, adds_addDraft fun node => draftProduct_bare⟩
  | addSum children numGroups => exact ⟨_, rfl, adds_addDraft fun node => draftSum_bare⟩
  | copyInputs model scope tie => exact ⟨_, rfl, adds_addDraft fun node => draftInputsCopy_bare⟩
  | copySum model children tie => exact ⟨_, rfl, adds_addDraft fun node => draftSumCopy_bare⟩
  | addNode node => exact ⟨_, rfl, adds_addNode ⟨rfl, rfl⟩⟩
  | supplyParams target params => exact adds.elim

theorem run_of_adds (builder : Builder) (adds : operation.Adds) :
    (∃ error, operation.run builder = (.error error, builder)) ∨
    ∃ node, (node.params = operation.params ∧ node.kind = operation.kind builder) ∧
      builder.check node = .ok () ∧
      operation.run builder = (.ok (some builder.next), builder.push node) := by
  obtain ⟨call, same, outcome⟩ := edit_of_adds builder adds
  unfold Operation.run
  rw [same, EStateM.run_bind]
  rcases outcome with ⟨error, failed⟩ | ⟨node, drawn, checked, added⟩
  · exact .inl ⟨error, by rw [failed]⟩
  · refine .inr ⟨node, drawn, checked, ?_⟩
    rw [added]
    rfl

theorem step_run (builder : Builder) (operation : Operation) :
    Step builder operation (operation.run builder).1 (operation.run builder).2 := by
  by_cases adds : operation.Adds
  · rcases run_of_adds builder adds with ⟨error, ran⟩ | ⟨node, -, checked, ran⟩
    · rw [ran]
      exact .failed operation error
    · rw [ran]
      exact .added adds node (check_eq_ok.mp checked).2
  · cases operation with
    | supplyParams id params =>
        unfold Operation.run
        rw [Operation.edit, EStateM.run_bind]
        rcases step_supplyParams builder id params with ⟨error, failed⟩ | ⟨after, ran, step⟩
        · rw [failed]
          exact .failed _ error
        · rw [ran]
          exact step
    | _ => exact absurd trivial adds

variable {answer : Except StructuralError (Option NodeId)}

theorem Step.groupSize_eq (step : Step builder operation answer after) :
    after.groupSize = builder.groupSize := by
  cases step <;> rfl

theorem Step.passes (step : Step builder operation answer after)
    (passes : builder.arena.Passes builder.groupSize) :
    after.arena.Passes builder.groupSize := by
  cases step with
  | failed error => exact passes
  | added adds node checked => exact passes.append checked
  | @supplied id bound dist kind params count =>
      -- They are stored with an untied input, and making them valid keeps their number.
      apply passes.replaceParams
      intro stored same
      cases same
      refine ⟨Arena.owner_untied (Arena.passes_iff.mp passes).1 bound, dist, kind, ?_⟩
      rw [dist.length_normalize]
      exact count

theorem runAll_passes (builder : Builder) (operations : List Operation)
    (passes : builder.arena.Passes builder.groupSize) :
    (builder.runAll operations).groupSize = builder.groupSize ∧
      (builder.runAll operations).arena.Passes builder.groupSize := by
  induction operations generalizing builder with
  | nil => exact ⟨rfl, passes⟩
  | cons operation rest ih =>
      have step := step_run builder operation
      have restPasses := ih (operation.run builder).2
        (by rw [step.groupSize_eq]; exact step.passes passes)
      rw [step.groupSize_eq] at restPasses
      exact restPasses

end Builder

/-! ## Circuits -/

namespace Circuit

inductive Accepted : Circuit → Prop
  | checked {groupSize : Nat} {arena : Arena} {root : NodeId} {circuit : Circuit}
      (passed : ofArena groupSize arena root = .ok circuit) : Accepted circuit
  | built {groupSize : Nat} (operations : List Operation) {root : NodeId} {circuit : Circuit}
      (finished : ((Builder.empty groupSize).runAll operations).finish root = .ok circuit) :
      Accepted circuit

structure WellFormed (circuit : Circuit) : Prop where
  groupSize_pos : 0 < circuit.groupSize
  root_lt : circuit.root < circuit.arena.length
  sound : circuit.arena.Sound circuit.groupSize

theorem ofArena_eq_ok {groupSize : Nat} {arena : Arena} {root : NodeId} {circuit : Circuit} :
    ofArena groupSize arena root = .ok circuit ↔
      0 < groupSize ∧ root < arena.length ∧ arena.Passes groupSize ∧
        circuit = ⟨groupSize, arena, root⟩ := by
  have each : (∀ entry ∈ arena.zipIdx, arena.checkNode groupSize entry.2 entry.1 = .ok ()) ↔
      arena.Passes groupSize := by
    constructor
    · intro checks id inside
      apply checks (arena.node id, id)
      rw [List.mem_zipIdx_iff_getElem?, Arena.node, List.getElem?_eq_getElem inside]
      rfl
    · rintro passes ⟨node, id⟩ member
      have found := List.mem_zipIdx_iff_getElem?.mp member
      have same : arena.node id = node := by rw [Arena.node, found]; rfl
      have checked := passes id (List.getElem?_eq_some_iff.mp found).1
      rwa [same] at checked
  simp only [ofArena, unit_bind_eq_ok, require_eq_ok, forM_eq_ok, pure_eq_ok, each,
    Nat.pos_iff_ne_zero, eq_comm (a := circuit)]

theorem finish_eq_ok {builder : Builder} {root : NodeId} {circuit : Circuit} :
    builder.finish root = .ok circuit ↔
      0 < builder.groupSize ∧ root < builder.arena.length ∧
        circuit = ⟨builder.groupSize, builder.arena, root⟩ := by
  simp only [Builder.finish, unit_bind_eq_ok, require_eq_ok, pure_eq_ok, Nat.pos_iff_ne_zero,
    eq_comm (a := circuit)]

theorem passes_of_runAll (groupSize : Nat) (operations : List Operation) :
    ((Builder.empty groupSize).runAll operations).groupSize = groupSize ∧
      ((Builder.empty groupSize).runAll operations).arena.Passes groupSize :=
  Builder.runAll_passes (Builder.empty groupSize) operations
    (by intro id inside; simp [Builder.empty] at inside)

theorem Accepted.passes {circuit : Circuit} (accepted : circuit.Accepted) :
    0 < circuit.groupSize ∧ circuit.root < circuit.arena.length ∧
      circuit.arena.Passes circuit.groupSize := by
  cases accepted with
  | checked passed =>
      obtain ⟨positive, bound, passes, rfl⟩ := ofArena_eq_ok.mp passed
      exact ⟨positive, bound, passes⟩
  | built operations finished =>
      obtain ⟨positive, bound, rfl⟩ := finish_eq_ok.mp finished
      refine ⟨positive, bound, ?_⟩
      rw [(passes_of_runAll _ operations).1]
      exact (passes_of_runAll _ operations).2

theorem Accepted.wellFormed {circuit : Circuit} (accepted : circuit.Accepted) :
    circuit.WellFormed := by
  obtain ⟨positive, bound, passes⟩ := accepted.passes
  exact ⟨positive, bound, (Arena.passes_iff.mp passes).1⟩

theorem accepted_of_isOk {circuit : Circuit}
    (passes : (ofArena circuit.groupSize circuit.arena circuit.root).isOk = true) :
    circuit.Accepted := by
  obtain ⟨checked, success⟩ := exists_of_isOk passes
  obtain rfl := (ofArena_eq_ok.mp success).2.2.2
  exact .checked success

/-! ## A small circuit -/

def twinArena : Arena :=
  let input (var : Nat) (tiedTo : Option NodeId) : Node :=
    { kind := .input (.categorical 2), scope := .ofList [var], numGroups := 1, groupSize := 2
      children := [], tiedTo }
  let product (vars children : List Nat) : Node :=
    { kind := .product, scope := .ofList vars, numGroups := 1, groupSize := 2, children }
  let sum (vars children : List Nat) (tiedTo : Option NodeId) : Node :=
    { kind := .sum, scope := .ofList vars, numGroups := 1, groupSize := 2, children, tiedTo }
  [input 0 none, input 1 (some 0), product [0, 1] [0, 1], sum [0, 1] [2] none,
    input 2 (some 0), input 3 none, product [2, 3] [4, 5], sum [2, 3] [6] (some 3),
    product [0, 1, 2, 3] [3, 7], sum [0, 1, 2, 3] [8] none]

def twin : Circuit := ⟨2, twinArena, 9⟩

theorem twin_accepted : twin.Accepted := by
  have passes : (ofArena 2 twinArena 9).isOk = true := by decide +kernel
  exact accepted_of_isOk passes

end Circuit
end CircuitPlan
