import CircuitPlan.Circuit

/-!
# Layers

Reachable node vectors are put into layers that run one after the other. Inputs have depth 0. A
product lies one level above its deepest child and a sum on the level of its deepest child, so that
each product layer feeds the sum layer of the same depth.
-/

namespace CircuitPlan

inductive LayerKind
  | product
  | sum
deriving DecidableEq

def LayerKind.text : LayerKind → String
  | product => "Product"
  | sum => "Sum"

def Node.layerKind? (node : Node) : Option LayerKind :=
  match node.kind with
  | .input _ => none
  | .product => some .product
  | .sum => some .sum

structure InputGroup where
  signature : String
  nodes : List NodeId
deriving DecidableEq

structure InnerGroup where
  kind : LayerKind
  depth : Nat
  nodes : List NodeId
deriving DecidableEq

structure Layout where
  inputs : List InputGroup
  /-- Products and sums of depth 1, then those of depth 2 and so on, without empty layers. -/
  inner : List InnerGroup
deriving DecidableEq

namespace Layout

def level (depths : List Nat) (node : Node) : Nat :=
  let deepest := (node.children.map fun child => depths.getD child 0).foldl max 0
  match node.kind with
  | .input _ => 0
  | .product => 1 + deepest
  | .sum => deepest

def depths (arena : Arena) : List Nat :=
  arena.foldl (fun depths node => depths ++ [level depths node]) []

/-- Input layers in the order in which their signatures first appear. -/
def inputGroups (circuit : Circuit) (reachable : List NodeId) : List InputGroup :=
  let signed := reachable.filterMap fun id =>
    (circuit.node id).kind.dist?.map fun dist => (dist.signature, id)
  (signed.map (·.1)).eraseDups.map fun signature =>
    ⟨signature, (signed.filter fun entry => entry.1 == signature).map (·.2)⟩

def innerGroup (circuit : Circuit) (depths : List Nat) (reachable : List NodeId)
    (depth : Nat) (kind : LayerKind) : InnerGroup :=
  ⟨kind, depth, reachable.filter fun id =>
    depths.getD id 0 == depth && (circuit.node id).layerKind? == some kind⟩

def ofCircuit (circuit : Circuit) : Layout :=
  let reachable := circuit.reachable
  let depths := depths circuit.arena
  let deepest := (reachable.map fun id => depths.getD id 0).foldl max 0
  let inner := (List.range deepest).flatMap fun below =>
    [LayerKind.product, .sum].map (innerGroup circuit depths reachable (below + 1))
  { inputs := inputGroups circuit reachable
    inner := inner.filter fun group => !group.nodes.isEmpty }

def order (layout : Layout) : List NodeId :=
  layout.inputs.flatMap (·.nodes) ++ layout.inner.flatMap (·.nodes)

end Layout
end CircuitPlan
