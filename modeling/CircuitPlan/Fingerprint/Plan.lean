import CircuitPlan.Plan
import CircuitPlan.Fingerprint
import CircuitPlan.Fingerprint.Encoding

/-!
# Fingerprints of plans

The byte encoding of everything a plan is made of. Numbers of nodes, offsets and
variables take four bytes, sizes and counts eight.
-/

namespace CircuitPlan.Encoding

def join (parts : List Bytes) : Bytes := each id parts

def words (xs : List Nat) : Bytes := sequence word xs

def scope (scope : Scope) : Bytes := words scope.vars

def span (span : Span) : Bytes := both (word span.start) (word span.stop)

def space : Space → Bytes
  | .nodeValues => word 0
  | .sumParams => word 1
  | .sumFlows => word 2
  | .inputParams layer => both (word 3) (long layer)
  | .inputFlows layer => both (word 4) (long layer)
  | .inputMetadata layer => both (word 5) (long layer)

def matrix (matrix : PaddedMatrix) : Bytes :=
  join [long matrix.rows, long matrix.cols, words matrix.data]

def reductionOptions (options : ReductionOptions) : Bytes :=
  both (long options.blockSize) (long options.maxTied)

def options (options : Options) : Bytes :=
  join [single options.tolerance, optional long options.maxPartitions,
    reductionOptions options.reduction]

def bucket (bucket : Bucket) : Bytes :=
  join [long bucket.cardinality, long bucket.tileWidth, words bucket.sources,
    words bucket.targets, words bucket.widths, words bucket.numReplicas,
    matrix bucket.replicas]

def reduction (reduction : Reduction) : Bytes := sequence bucket reduction.buckets

def tieGroup (set : TieGroup) : Bytes :=
  join [word set.source, span set.params, span set.target, words set.members,
    words set.flowStarts]

def nodeSlots (slots : NodeSlots) : Bytes :=
  join [span slots.values, optional span slots.params, optional span slots.flows,
    optional span slots.metadata, optional long slots.inputLayer]

def inputSizes (sizes : InputSizes) : Bytes :=
  join [long sizes.params, long sizes.flows, long sizes.metadata]

def table (table : SlotTable) : Bytes :=
  join [sequence (fun entry => both (word entry.1) (nodeSlots entry.2)) table.nodes,
    long table.numValues, long table.numSumParams, long table.numSumFlows,
    sequence inputSizes table.inputSizes, sequence tieGroup table.sumTies,
    sequence (sequence tieGroup) table.inputTies]

def inputLayer (layer : InputLayer) : Bytes :=
  join [long layer.index, text layer.signature, words layer.nodes, span layer.values,
    matrix layer.vars, words layer.paramStarts, words layer.flowStarts, words layer.metadataStarts,
    words layer.sources, sequence single layer.metadata, long layer.numParameters,
    long layer.numFlows, reduction layer.reduction]

def partition (partition : Partition) : Bytes :=
  join [long partition.width, words partition.starts, matrix partition.reads,
    optional matrix partition.params, words partition.children, matrix partition.parents,
    optional matrix partition.parentParams]

def layerKind : LayerKind → Bytes
  | .product => word 0
  | .sum => word 1

def innerLayer (layer : InnerLayer) : Bytes :=
  join [layerKind layer.kind, long layer.depth, long layer.groupSize, words layer.nodes,
    sequence partition layer.partitions, long layer.numNodes, long layer.numEdges]

def plan (plan : Plan) : Bytes :=
  join [long plan.groupSize, word plan.root, table plan.slots,
    sequence inputLayer plan.inputLayers, sequence innerLayer plan.innerLayers,
    reduction plan.sumReduction, options plan.options]

end CircuitPlan.Encoding

namespace CircuitPlan

def Fingerprint.ofEncoding (bytes : Encoding.Bytes) : Option UInt64 := bytes.map Fingerprint.ofBytes

def Plan.fingerprint (plan : Plan) : Option UInt64 :=
  Fingerprint.ofEncoding (Encoding.plan plan)

end CircuitPlan
