import CircuitPlan.Circuit.Validity
import CircuitPlan.Proofs.Checked

namespace CircuitPlan

def Node.bare (node : Node) : Node := { node with params := none }

theorem Node.congr_bare {γ : Type} (field : Node → γ) {left right : Node}
    (same : left.bare = right.bare) (blind : ∀ node : Node, field node.bare = field node) :
    field left = field right := by
  rw [← blind left, same, blind right]

def Node.ParamsFit (node : Node) : Prop :=
  ∀ params, node.params = some params → node.tiedTo = none ∧
    ∃ dist, node.kind = .input dist ∧ params.length = node.numNodes * dist.numParameters

theorem Node.paramsFit_iff {node : Node} : node.ParamsFit ↔
    (∀ dist, node.kind = .input dist → ∀ params, node.params = some params →
      params.length = node.numNodes * dist.numParameters) ∧
    (node.params = none ∨ node.tag = .input) ∧
    ∀ source, node.tiedTo = some source → node.params = none := by
  unfold ParamsFit Node.tag
  cases node.params with
  | none => simp
  | some params => cases node.kind <;> cases node.tiedTo <;> simp [NodeKind.tag]

namespace Arena

def SameShapes (arena : Arena) (origin node : Node) : Prop :=
  match origin.kind, node.kind with
  | .input source, .input dist =>
      source.signature = dist.signature ∧ source.numParameters = dist.numParameters ∧
        source.numFlows = dist.numFlows
  | .sum, .sum => arena.fanIn origin = arena.fanIn node
  | _, _ => False

structure TieRules (arena : Arena) (id : NodeId) (node : Node) (source : NodeId) : Prop where
  earlier : source < id
  untied : (arena.node source).tiedTo = none
  groupSize_eq : (arena.node source).groupSize = node.groupSize
  numGroups_eq : (arena.node source).numGroups = node.numGroups
  shapes : arena.SameShapes (arena.node source) node

def KindRules (arena : Arena) (node : Node) : Prop :=
  match node.kind with
  | .input dist => node.scope.size = dist.numVars
  | .product =>
      node.children ≠ [] ∧
      (∀ child ∈ node.children,
        (arena.node child).tag ≠ .product ∧ (arena.node child).numGroups = node.numGroups) ∧
      node.children.Pairwise (fun left right =>
        (arena.node left).scope.disjoint (arena.node right).scope = true) ∧
      arena.covered node.children = node.scope
  | .sum =>
      node.children ≠ [] ∧
      (∀ child ∈ node.children,
        (arena.node child).tag = .product ∧ (arena.node child).scope = node.scope) ∧
      node.children.Nodup

namespace KindRules

variable {arena : Arena} {node : Node} (rules : arena.KindRules node)
include rules

theorem of_input {dist : Distribution} (kind : node.kind = .input dist) :
    node.scope.size = dist.numVars := by
  simpa only [KindRules, kind] using rules

theorem of_product (kind : node.kind = .product) :
    node.children ≠ [] ∧
    (∀ child ∈ node.children,
      (arena.node child).tag ≠ .product ∧ (arena.node child).numGroups = node.numGroups) ∧
    node.children.Pairwise (fun left right =>
      (arena.node left).scope.disjoint (arena.node right).scope = true) ∧
    arena.covered node.children = node.scope := by
  simpa only [KindRules, kind] using rules

theorem of_sum (kind : node.kind = .sum) :
    node.children ≠ [] ∧
    (∀ child ∈ node.children,
      (arena.node child).tag = .product ∧ (arena.node child).scope = node.scope) ∧
    node.children.Nodup := by
  simpa only [KindRules, kind] using rules

end KindRules

/-- All rules for the node vector `node` at position `id`, apart from its supplied parameters. -/
structure Admits (arena : Arena) (groupSize : Nat) (id : NodeId) (node : Node) : Prop where
  groupSize_eq : node.groupSize = groupSize
  numGroups_pos : 0 < node.numGroups
  scope_free : padding ∉ node.scope.vars
  children_earlier : ∀ child ∈ node.children, child < id
  kind_rules : arena.KindRules node
  tie_rules : ∀ source, node.tiedTo = some source → arena.TieRules id node source

theorem checkEach_eq_ok {check : List NodeId → NodeId → Except Breach Unit}
    {alone : NodeId → Prop} {apart : NodeId → NodeId → Prop}
    (check_eq_ok : ∀ earlier child, check earlier child = .ok () ↔
      alone child ∧ ∀ other ∈ earlier, apart other child)
    (earlier children : List NodeId) :
    checkEach check earlier children = .ok () ↔
      (∀ child ∈ children, alone child) ∧
      (∀ other ∈ earlier, ∀ child ∈ children, apart other child) ∧
      children.Pairwise apart := by
  induction children generalizing earlier with
  | nil => simp [checkEach]
  | cons child rest ih =>
      rw [checkEach, unit_bind_eq_ok, check_eq_ok, ih, List.pairwise_cons]
      simp only [List.mem_append, List.mem_singleton, List.forall_mem_cons, or_imp, forall_and,
        forall_eq]
      tauto

theorem checkReference_eq_ok {arena : Arena} {id child : NodeId} (bound : id < arena.length) :
    arena.checkReference id child = .ok () ↔ child < id := by
  unfold checkReference
  rw [unit_bind_eq_ok, require_eq_ok, require_eq_ok]
  exact ⟨fun both => both.2, fun before => ⟨Nat.lt_trans before bound, before⟩⟩

theorem checkProduct_eq_ok {arena : Arena} {node : Node} (kind : node.kind = .product) :
    arena.checkProduct node = .ok () ↔ arena.KindRules node := by
  have factor (earlier : List NodeId) (child : NodeId) :
      arena.checkFactor node earlier child = .ok () ↔
        ((arena.node child).tag ≠ .product ∧ (arena.node child).numGroups = node.numGroups) ∧
        ∀ other ∈ earlier, (arena.node other).scope.disjoint (arena.node child).scope = true := by
    unfold checkFactor
    simp only [unit_bind_eq_ok, forM_eq_ok, require_eq_ok, and_assoc]
  unfold checkProduct
  simp only [unit_bind_eq_ok, require_eq_ok, KindRules, kind, checkEach_eq_ok factor]
  simp [and_assoc]

theorem checkSum_eq_ok {arena : Arena} {node : Node} (kind : node.kind = .sum) :
    arena.checkSum node = .ok () ↔ arena.KindRules node := by
  have term (earlier : List NodeId) (child : NodeId) :
      arena.checkTerm node earlier child = .ok () ↔
        ((arena.node child).tag = .product ∧ (arena.node child).scope = node.scope) ∧
        ∀ other ∈ earlier, other ≠ child := by
    unfold checkTerm
    simp only [unit_bind_eq_ok, require_eq_ok]
    constructor
    · rintro ⟨fresh, tag, scope⟩
      exact ⟨⟨tag, scope⟩, fun other member same => fresh (same ▸ member)⟩
    · rintro ⟨⟨tag, scope⟩, fresh⟩
      exact ⟨fun member => fresh child member rfl, tag, scope⟩
  unfold checkSum
  simp only [unit_bind_eq_ok, require_eq_ok, KindRules, kind, checkEach_eq_ok term]
  simp [List.Nodup]

theorem checkShapes_eq_ok {arena : Arena} {origin node : Node} :
    arena.checkShapes origin node = .ok () ↔ arena.SameShapes origin node := by
  unfold checkShapes SameShapes
  cases origin.kind <;> cases node.kind <;> simp [unit_bind_eq_ok, require_eq_ok]

theorem tag_eq_of_sameShapes {arena : Arena} {origin node : Node}
    (shapes : arena.SameShapes origin node) : origin.tag = node.tag := by
  unfold SameShapes at shapes
  unfold Node.tag
  cases first : origin.kind <;> cases second : node.kind <;> simp_all [NodeKind.tag]

theorem checkTie_eq_ok {arena : Arena} {id : NodeId} {node : Node} {source : NodeId}
    (bound : id < arena.length) :
    arena.checkTie id node source = .ok () ↔
      arena.TieRules id node source ∧ node.params = none := by
  unfold checkTie
  simp only [unit_bind_eq_ok, require_eq_ok, checkShapes_eq_ok]
  constructor
  · rintro ⟨-, -, earlier, own, untied, -, groupSize, numGroups, shapes⟩
    exact ⟨⟨earlier, untied, groupSize, numGroups, shapes⟩, own⟩
  · rintro ⟨⟨earlier, untied, groupSize, numGroups, shapes⟩, own⟩
    exact ⟨Nat.ne_of_lt earlier, Nat.lt_trans earlier bound, earlier, own, untied,
      tag_eq_of_sameShapes shapes, groupSize, numGroups, shapes⟩

theorem checkInput_eq_ok (arena : Arena) {node : Node} {dist : Distribution}
    (kind : node.kind = .input dist) :
    checkInput node dist = .ok () ↔ arena.KindRules node ∧
      ∀ params, node.params = some params → params.length = node.numNodes * dist.numParameters := by
  unfold checkInput
  simp only [unit_bind_eq_ok, require_eq_ok, KindRules, kind]
  cases node.params with
  | none => simp
  | some params => simp [require_eq_ok]

theorem checkKind_eq_ok {arena : Arena} {node : Node} :
    arena.checkKind node = .ok () ↔ arena.KindRules node ∧
      ∀ dist, node.kind = .input dist → ∀ params, node.params = some params →
        params.length = node.numNodes * dist.numParameters := by
  unfold checkKind
  cases same : node.kind with
  | input dist => simp [checkInput_eq_ok arena same]
  | product => simp [checkProduct_eq_ok same]
  | sum => simp [checkSum_eq_ok same]

theorem checkRules_eq_ok {arena : Arena} {groupSize : Nat} {id : NodeId} {node : Node}
    (bound : id < arena.length) :
    arena.checkRules groupSize id node = .ok () ↔
      arena.Admits groupSize id node ∧ node.ParamsFit := by
  unfold checkRules
  simp only [unit_bind_eq_ok, require_eq_ok, forM_eq_ok, checkReference_eq_ok bound,
    checkKind_eq_ok, Node.paramsFit_iff]
  constructor
  · rintro ⟨size, groups, free, earlier, ⟨rules, counts⟩, inputs, checked⟩
    have ties : ∀ source, node.tiedTo = some source →
        arena.TieRules id node source ∧ node.params = none := by
      intro source tied
      rw [tied] at checked
      simpa [checkTie_eq_ok bound] using checked
    exact ⟨⟨size, Nat.pos_of_ne_zero groups, free, earlier, rules,
      fun source tied => (ties source tied).1⟩, counts, inputs,
      fun source tied => (ties source tied).2⟩
  · rintro ⟨⟨size, groups, free, earlier, rules, ties⟩, counts, inputs, own⟩
    refine ⟨size, Nat.ne_of_gt groups, free, earlier, ⟨rules, counts⟩, inputs, ?_⟩
    cases tied : node.tiedTo with
    | none => rfl
    | some source => simp [checkTie_eq_ok bound, ties source tied, own source tied]

end Arena
end CircuitPlan
