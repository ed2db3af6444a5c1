import CircuitPlan.Distribution
import CircuitPlan.Scope

/-!
# Node vectors

A node vector holds some groups of scalar nodes, all of one kind, over one scope and with the same
children. Node vectors live in an arena and are known by their position.

Positions stand for words of 32 bits and sizes for words of 64 bits, but neither is bounded here: an
arena is taken to hold fewer than `2 ^ 32` node vectors, and the scalar nodes and parameters of each
of them, and the scalar nodes of its children, to be fewer than `2 ^ 64`.
-/

namespace CircuitPlan

abbrev NodeId := Nat

inductive NodeKind
  | input (dist : Distribution)
  | product
  | sum

inductive Tag
  | input
  | product
  | sum
deriving DecidableEq

def Tag.text : Tag → String
  | input => "input"
  | product => "product"
  | sum => "sum"

def NodeKind.tag : NodeKind → Tag
  | input _ => .input
  | product => .product
  | sum => .sum

def NodeKind.dist? : NodeKind → Option Distribution
  | input dist => some dist
  | _ => none

structure Node where
  kind : NodeKind
  scope : Scope
  numGroups : Nat
  groupSize : Nat
  children : List NodeId
  /-- The node vector whose parameters this one uses in place of its own. -/
  tiedTo : Option NodeId := none
  params : Option (List Float32) := none

namespace Node

/-- Stands for a node vector that is not in the arena. -/
def absent : Node :=
  { kind := .product, scope := .empty, numGroups := 0, groupSize := 0, children := [] }

def tag (node : Node) : Tag := node.kind.tag

def numNodes (node : Node) : Nat := node.numGroups * node.groupSize

def isTied (node : Node) : Bool := node.tiedTo.isSome

def withParams (node : Node) (params : List Float32) : Node :=
  match node.kind with
  | .input dist => { node with params := some (dist.normalize params) }
  | _ => { node with params := some params }

end Node

abbrev Arena := List Node

def Arena.node (arena : Arena) (id : NodeId) : Node := (arena[id]?).getD .absent

def Arena.fanIn (arena : Arena) (node : Node) : Nat :=
  (node.children.map fun child => (arena.node child).numNodes).foldl (· + ·) 0

end CircuitPlan
