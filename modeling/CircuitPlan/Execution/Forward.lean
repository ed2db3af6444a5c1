import CircuitPlan.Plan
import CircuitPlan.Execution

/-!
# Forward evaluation

Evaluates inner layers in the logarithmic domain. The rows of a partition are all computed from
the buffer before the partition, and are then written.
-/

namespace CircuitPlan

namespace Partition

variable {F : Type} [Arithmetic F]

def childSpan (kind : LayerKind) (groupSize : Nat) : Nat :=
  match kind with
  | .product => groupSize
  | .sum => 1

def entries (matrix : PaddedMatrix) : List Nat := matrix.data.filter (· != padding)

/-- Checks every offset of a partition: the rows, the entries of the forward index and, for sums,
the entries of the parameter index. The span of a group is kept in 32 bits. -/
def check (partition : Partition) (kind : LayerKind) (groupSize numValues numParams : Nat) :
    Except ExecutionError Unit := do
  let span := groupSize % UInt32.size
  partition.starts.forM (checkBounds .nodeValue numValues span)
  (entries partition.reads).forM (checkBounds .nodeValue numValues (childSpan kind span))
  match kind, partition.params with
  | .product, _ => .ok ()
  | .sum, none => .error .noParamIndex
  | .sum, some index => (entries index).forM (checkBounds .sumParameter numParams span)

def productLanes (values : Array F) (groupSize : Nat) (reads : List Nat) :
    Except Fault (List F) :=
  reads.foldlM (fun lanes offset => do
    return List.zipWith Arithmetic.add lanes (← Buffer.readRun values offset groupSize))
    (List.replicate groupSize Arithmetic.zero)

def sumLane (values params : Array F) (edges : List (Nat × Nat)) (lane : Nat) :
    Except Fault F := do
  let terms ← edges.mapM fun (child, start) => do
    let param ← Buffer.read params (start + lane)
    let value ← Buffer.read values child
    return Arithmetic.add (Arithmetic.log param) value
  return Arithmetic.logSumExp terms

/-- The values of one row. The valid entries of a sum row are paired with the whole row of
parameter offsets. -/
def evaluateRow (partition : Partition) (kind : LayerKind) (groupSize : Nat)
    (values params : Array F) (index : Nat) : Except Fault (List F) := do
  let reads := (← partition.reads.readRow index).takeWhile (· != padding)
  match kind, partition.params with
  | .product, _ => productLanes values groupSize reads
  | .sum, none => return List.replicate groupSize Arithmetic.negInfinity
  | .sum, some paramIndex => do
      let edges := reads.zip (← paramIndex.readRow index)
      (List.range groupSize).mapM (sumLane values params edges)

def evaluate (partition : Partition) (kind : LayerKind) (groupSize : Nat)
    (values params : Array F) : Except Fault (List (Nat × List F)) :=
  partition.starts.zipIdx.mapM fun (start, index) => do
    return (start, ← partition.evaluateRow kind groupSize values params index)

end Partition

namespace Execution

variable {F : Type} [Arithmetic F]

def runPartitions (kind : LayerKind) (groupSize : Nat) (params : Array F) :
    List Partition → Array F → Except Fault (Outcome F)
  | [], values => .ok ⟨values, none⟩
  | partition :: rest, values =>
      match partition.check kind groupSize values.size params.size with
      | .error error => .ok ⟨values, some error⟩
      | .ok () => do
          let rows ← partition.evaluate kind groupSize values params
          runPartitions kind groupSize params rest (← Buffer.scatter values rows)

def forwardLayer (values params : Array F) (layer : InnerLayer) : Except Fault (Outcome F) :=
  runPartitions layer.kind layer.groupSize params layer.partitions values

def runLayers (params : Array F) : List InnerLayer → Array F → Except Fault (Outcome F)
  | [], values => .ok ⟨values, none⟩
  | layer :: rest, values => do
      let outcome ← forwardLayer values params layer
      match outcome.error with
      | some _ => return outcome
      | none => runLayers params rest outcome.buffer

/-- Evaluates a plan whose input values are in place. Both buffers have to be long
enough; the values are looked at first. -/
def forward (plan : Plan) (values params : Array F) : Except Fault (Outcome F) :=
  let lengths := do
    checkLength .nodeValue plan.slots.numValues values.size
    checkLength .sumParameter plan.slots.numSumParams params.size
  match lengths with
  | .error error => .ok ⟨values, some error⟩
  | .ok () => runLayers params plan.innerLayers values

end Execution
end CircuitPlan
