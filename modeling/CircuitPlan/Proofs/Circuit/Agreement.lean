import CircuitPlan.Proofs.Circuit.Reachability

namespace CircuitPlan

/-- Distributions that answer alike, however they draw parameters and make them valid. -/
structure Distribution.Alike (left right : Distribution) : Prop where
  signature_eq : left.signature = right.signature
  numVars_eq : left.numVars = right.numVars
  numParameters_eq : left.numParameters = right.numParameters
  numFlows_eq : left.numFlows = right.numFlows
  metadata_eq : left.metadata = right.metadata

inductive NodeKind.Alike : NodeKind → NodeKind → Prop
  | input {left right : Distribution} (dists : left.Alike right) :
      Alike (.input left) (.input right)
  | product : Alike .product .product
  | sum : Alike .sum .sum

structure Node.Alike (left right : Node) : Prop where
  kinds : left.kind.Alike right.kind
  scope_eq : left.scope = right.scope
  numGroups_eq : left.numGroups = right.numGroups
  children_eq : left.children = right.children
  tiedTo_eq : left.tiedTo = right.tiedTo

def Distribution.plain (dist : Distribution) : Distribution :=
  { dist with
    initial := fun _ _ source => ([], source)
    normalize := id
    length_normalize := fun _ => rfl }

def NodeKind.plain : NodeKind → NodeKind
  | input dist => input dist.plain
  | product => product
  | sum => sum

def Node.plain (node : Node) : Node := { node with kind := node.kind.plain, params := none }

theorem Distribution.Alike.plain_eq {left right : Distribution} (alike : left.Alike right) :
    left.plain = right.plain := by
  obtain ⟨signature, numVars, numParameters, numFlows, metadata⟩ := alike
  simp only [Distribution.plain, signature, numVars, numParameters, numFlows, metadata]

theorem NodeKind.Alike.plain_eq {left right : NodeKind} (alike : left.Alike right) :
    left.plain = right.plain := by
  cases alike with
  | input dists => rw [plain, plain, dists.plain_eq]
  | product => rfl
  | sum => rfl

theorem Distribution.alike_of_plain {left right : Distribution} (same : left.plain = right.plain) :
    left.Alike right where
  signature_eq := congrArg (·.signature) same
  numVars_eq := congrArg (·.numVars) same
  numParameters_eq := congrArg (·.numParameters) same
  numFlows_eq := congrArg (·.numFlows) same
  metadata_eq := congrArg (·.metadata) same

theorem NodeKind.alike_of_plain {left right : NodeKind} (same : left.plain = right.plain) :
    left.Alike right := by
  cases left with
  | input dist =>
      cases right with
      | input other => exact .input (Distribution.alike_of_plain (NodeKind.input.inj same))
      | product => cases same
      | sum => cases same
  | product =>
      cases right with
      | input other => cases same
      | product => exact .product
      | sum => cases same
  | sum =>
      cases right with
      | input other => cases same
      | product => cases same
      | sum => exact .sum

theorem Node.Alike.plain_eq {left right : Node} (alike : left.Alike right)
    (groupSize : left.groupSize = right.groupSize) : left.plain = right.plain := by
  obtain ⟨kinds, scope, numGroups, children, tiedTo⟩ := alike
  simp only [Node.plain, kinds.plain_eq, scope, numGroups, children, tiedTo, groupSize]

theorem Node.tag_plain (node : Node) : node.plain.tag = node.tag := by
  obtain ⟨kind, _⟩ := node
  cases kind <;> rfl

theorem Node.congr_plain {γ : Type} (field : Node → γ) {left right : Node}
    (same : left.plain = right.plain) (blind : ∀ node : Node, field node.plain = field node) :
    field left = field right := by
  rw [← blind left, same, blind right]

namespace Circuit

theorem reachableBelow_congr {arena other : Arena} {bound : Nat} {frontier : List NodeId}
    (same : ∀ id ∈ reachableBelow arena bound frontier,
      (arena.node id).children = (other.node id).children) :
    reachableBelow arena bound frontier = reachableBelow other bound frontier := by
  induction bound generalizing frontier with
  | zero => rfl
  | succ last ih =>
      rw [reachableBelow, reachableBelow]
      by_cases present : last ∈ frontier
      · have expanded : reachableBelow arena (last + 1) frontier =
            reachableBelow arena last ((arena.node last).children ++ frontier) ++ [last] := by
          rw [reachableBelow, if_pos present]
        rw [expanded] at same
        rw [if_pos present, if_pos present,
          ← same last (List.mem_append_right _ (List.mem_singleton_self last)),
          ih fun id member => same id (List.mem_append_left _ member)]
      · have skipped : reachableBelow arena (last + 1) frontier =
            reachableBelow arena last frontier := by
          rw [reachableBelow, if_neg present]
        rw [skipped] at same
        rw [if_neg present, if_neg present, ih same]

/-- Every node vector that the first circuit reaches is stored in the second one under the same id
and looks alike there. -/
structure Agrees (first second : Circuit) : Prop where
  groupSize_eq : first.groupSize = second.groupSize
  root_eq : first.root = second.root
  stored : ∀ id ∈ first.reachable, ∃ left right, first.arena[id]? = some left ∧
    second.arena[id]? = some right ∧ left.Alike right

structure SameView (first second : Circuit) : Prop where
  groupSize_eq : first.groupSize = second.groupSize
  root_eq : first.root = second.root
  plain_eq : ∀ id ∈ first.reachable, (first.node id).plain = (second.node id).plain

variable {first second : Circuit} {id : NodeId}

theorem Agrees.sameView (agrees : first.Agrees second) (firstFormed : first.WellFormed)
    (secondFormed : second.WellFormed) : first.SameView second where
  groupSize_eq := agrees.groupSize_eq
  root_eq := agrees.root_eq
  plain_eq id reachable := by
    obtain ⟨left, right, foundLeft, foundRight, alike⟩ := agrees.stored id reachable
    have isLeft : first.node id = left := by rw [Circuit.node, Arena.node, foundLeft]; rfl
    have isRight : second.node id = right := by rw [Circuit.node, Arena.node, foundRight]; rfl
    have inside : id < second.arena.length := (List.getElem?_eq_some_iff.mp foundRight).1
    have firstSize : (first.node id).groupSize = first.groupSize :=
      (firstFormed.admits reachable).groupSize_eq
    have secondSize : (second.node id).groupSize = second.groupSize :=
      (secondFormed.sound id inside).groupSize_eq
    rw [isLeft] at firstSize ⊢
    rw [isRight] at secondSize ⊢
    apply alike.plain_eq
    rw [firstSize, secondSize, agrees.groupSize_eq]

namespace SameView

variable (view : first.SameView second)
include view

theorem congr {γ : Type} (field : Node → γ) (reachable : id ∈ first.reachable)
    (blind : ∀ node : Node, field node.plain = field node) :
    field (first.node id) = field (second.node id) :=
  Node.congr_plain field (view.plain_eq id reachable) blind

theorem kinds_alike (reachable : id ∈ first.reachable) :
    (first.node id).kind.Alike (second.node id).kind :=
  NodeKind.alike_of_plain (congrArg Node.kind (view.plain_eq id reachable))

theorem numNodes_eq (reachable : id ∈ first.reachable) :
    (first.node id).numNodes = (second.node id).numNodes :=
  view.congr Node.numNodes reachable fun _ => rfl

theorem children_eq (reachable : id ∈ first.reachable) :
    (first.node id).children = (second.node id).children :=
  view.congr Node.children reachable fun _ => rfl

theorem owner_eq (reachable : id ∈ first.reachable) : first.owner id = second.owner id :=
  view.congr (fun node => node.tiedTo.getD id) reachable fun _ => rfl

theorem tag_eq (reachable : id ∈ first.reachable) : (first.node id).tag = (second.node id).tag :=
  view.congr Node.tag reachable Node.tag_plain

theorem reachable_eq : first.reachable = second.reachable := by
  rw [reachable, reachable, ← view.root_eq]
  exact reachableBelow_congr fun id reachable => view.children_eq reachable

theorem fanIn_eq (wellFormed : first.WellFormed) (reachable : id ∈ first.reachable) :
    first.arena.fanIn (first.node id) = second.arena.fanIn (second.node id) := by
  rw [Arena.fanIn, Arena.fanIn, ← view.children_eq reachable]
  congr 1
  apply List.map_congr_left
  intro child isChild
  exact view.numNodes_eq (wellFormed.child_reachable reachable isChild)

end SameView

end Circuit
end CircuitPlan
