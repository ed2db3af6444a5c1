import CircuitPlan.Circuit.Validity

/-!
# Circuits

An arena of node vectors with a root. The children of a node vector come before it, so positions
in ascending order visit children before parents.
-/

namespace CircuitPlan

structure Circuit where
  groupSize : Nat
  arena : Arena
  root : NodeId

namespace Circuit

def ofArena (groupSize : Nat) (arena : Arena) (root : NodeId) :
    Except StructuralError Circuit := do
  require (groupSize ≠ 0) .zeroGroupSize
  require (root < arena.length) (.unknownRoot root)
  arena.zipIdx.forM fun (node, id) => arena.checkNode groupSize id node
  return ⟨groupSize, arena, root⟩

def node (circuit : Circuit) (id : NodeId) : Node := circuit.arena.node id

/-- Positions below `bound` that the frontier leads to, in ascending order. The frontier holds what
the positions from `bound` on refer to. -/
def reachableBelow (arena : Arena) : (bound : Nat) → (frontier : List NodeId) → List NodeId
  | 0, _ => []
  | id + 1, frontier =>
      if id ∈ frontier then reachableBelow arena id ((arena.node id).children ++ frontier) ++ [id]
      else reachableBelow arena id frontier

def reachable (circuit : Circuit) : List NodeId :=
  reachableBelow circuit.arena (circuit.root + 1) [circuit.root]

/-- Adds a parent to those of a child, in a list of children in ascending order. The last parent
of a child is not added again. -/
def addParent (parent child : NodeId) : List (NodeId × List NodeId) → List (NodeId × List NodeId)
  | [] => [(child, [parent])]
  | entry :: rest =>
      if child < entry.1 then (child, [parent]) :: entry :: rest
      else if child = entry.1 then
        (if entry.2.getLast? = some parent then entry else (entry.1, entry.2 ++ [parent])) :: rest
      else entry :: addParent parent child rest

def parents (circuit : Circuit) : List (NodeId × List NodeId) :=
  circuit.reachable.foldl (fun index parent =>
    (circuit.node parent).children.foldl (fun index child => addParent parent child index) index) []

def owner (circuit : Circuit) (id : NodeId) : NodeId := ((circuit.node id).tiedTo).getD id

def suppliedParams (circuit : Circuit) (id : NodeId) : Option (List Float32) :=
  (circuit.node (circuit.owner id)).params

end Circuit
end CircuitPlan
