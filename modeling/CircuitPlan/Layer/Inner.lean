import CircuitPlan.Grouping
import CircuitPlan.Slot.Table
import CircuitPlan.Layer.Widths

/-!
# Product and sum layers

A row stands for one group of a node vector. A product row reads the matching group of every
child, a sum row every scalar node of its children, each with the parameters of the edge. Rows are
put into partitions by their length. The reverse index of a partition lists the rows that read
each child group.
-/

namespace CircuitPlan

structure Partition where
  width : Nat
  starts : List Nat
  reads : PaddedMatrix
  /-- Sums only: the parameter offset of each entry of `reads`. -/
  params : Option PaddedMatrix
  /-- The value offsets of the child groups read by some row, in ascending order. -/
  children : List Nat
  parents : PaddedMatrix
  parentParams : Option PaddedMatrix
deriving DecidableEq

structure InnerLayer where
  kind : LayerKind
  depth : Nat
  groupSize : Nat
  nodes : List NodeId
  partitions : List Partition
  numNodes : Nat
  numEdges : Nat
deriving DecidableEq

structure Row where
  start : Nat
  reads : List Nat
  params : List Nat
  /-- The child groups that the row reads, each with the parameter offset of its first scalar
  node. -/
  edges : List (Nat × Nat)
deriving DecidableEq

namespace Row

def ofProduct (groupSize start : Nat) (children : List Nat) (group : Nat) : Row :=
  let reads := children.map (· + group * groupSize)
  { start := start + group * groupSize, reads, params := [], edges := reads.map (·, 0) }

/-- The scalar nodes of some children, given by the start and the number of their values. A mark
tells the first scalar node of each child group. -/
def scalars (groupSize : Nat) (children : List (Nat × Nat)) : List (Nat × Bool) :=
  children.flatMap fun (start, count) =>
    (List.range count).map fun k => (start + k, k % groupSize == 0)

def ofSum (groupSize start paramStart : Nat) (children : List (Nat × Nat)) (group : Nat) : Row :=
  let scalars := scalars groupSize children
  let base := paramStart + group * scalars.length * groupSize
  let params := (List.range scalars.length).map fun j => base + j * groupSize
  { start := start + group * groupSize
    reads := scalars.map (·.1)
    params
    edges := ((scalars.zip params).filter fun entry => entry.1.2).map fun entry =>
      (entry.1.1, entry.2) }

def ofNode (circuit : Circuit) (table : SlotTable) (kind : LayerKind) (id : NodeId) :
    Except Fault (List Row) := do
  let node := circuit.node id
  let slots ← table.get id
  let children ← node.children.mapM table.get
  let starts := children.map (·.values.start)
  let groups := List.range node.numGroups
  match kind with
  | .product => return groups.map (ofProduct circuit.groupSize slots.values.start starts)
  | .sum =>
      let params ← slots.params.elim (.error (.noSlots id)) .ok
      let counts := node.children.map fun child => (circuit.node child).numNodes
      return groups.map
        (ofSum circuit.groupSize slots.values.start params.start (starts.zip counts))

end Row

namespace Partition

def ofRows (kind : LayerKind) (width : Nat) (rows : List Row) : Except Fault Partition := do
  let reverse := groupByKey (rows.flatMap fun row =>
    row.edges.map fun (child, param) => (child, (row.start, param)))
  let maxParents := (reverse.map (·.2.length)).foldl max 0
  let parents := reverse.map fun entry => entry.2.map (·.1)
  let parentParams := reverse.map fun entry => entry.2.map (·.2)
  let sumOnly (rows : List (List Nat)) (cols : Nat) : Except Fault (Option PaddedMatrix) :=
    match kind with
    | .product => .ok none
    | .sum => (PaddedMatrix.ofRows rows cols).map some
  return {
    width
    starts := rows.map (·.start)
    reads := ← PaddedMatrix.ofRows (rows.map (·.reads)) width
    params := ← sumOnly (rows.map (·.params)) width
    children := reverse.map (·.1)
    parents := ← PaddedMatrix.ofRows parents maxParents
    parentParams := ← sumOnly parentParams maxParents }

end Partition

namespace InnerLayer

def ofGroup (circuit : Circuit) (table : SlotTable) (tolerance : Float32) (cap : Option Nat)
    (group : InnerGroup) : Except Fault InnerLayer := do
  let rows := (← group.nodes.mapM (Row.ofNode circuit table group.kind)).flatten
  let fanIns := rows.map (·.reads.length)
  let widths ← Widths.choose fanIns tolerance cap
  let places ← fanIns.mapM (Widths.place widths)
  let partitions ← widths.zipIdx.mapM fun (width, index) =>
    Partition.ofRows group.kind width
      (((rows.zip places).filter fun entry => entry.2 == index).map (·.1))
  return {
    kind := group.kind
    depth := group.depth
    groupSize := circuit.groupSize
    nodes := group.nodes
    partitions
    numNodes := rows.length * circuit.groupSize
    numEdges := fanIns.foldl (· + ·) 0 * circuit.groupSize }

end InnerLayer
end CircuitPlan
