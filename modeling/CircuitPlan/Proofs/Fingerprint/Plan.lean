import Mathlib.Tactic.MkIffOfInductiveProp
import CircuitPlan.Proofs.Circuit.Acceptance
import CircuitPlan.Proofs.Fingerprint.Encoding

namespace CircuitPlan

open Encoding

@[mk_iff]
structure Span.Storable (span : Span) : Prop where
  start : IsWord span.start
  stop : IsWord span.stop

theorem Encoding.lossless_span : Lossless span Span.Storable :=
  (lossless_word.field Span.start <| lossless_word.of_project Span.stop).lossless
    Span.storable_iff (by rintro ⟨⟩ ⟨⟩; simp)

@[mk_iff]
structure NodeSlots.Storable (slots : NodeSlots) : Prop where
  values : slots.values.Storable
  params : ∀ span ∈ slots.params, span.Storable
  flows : ∀ span ∈ slots.flows, span.Storable
  metadata : ∀ span ∈ slots.metadata, span.Storable
  inputLayer : ∀ index ∈ slots.inputLayer, IsLong index

theorem Encoding.lossless_nodeSlots : Lossless nodeSlots NodeSlots.Storable :=
  (lossless_span.field NodeSlots.values <|
    (lossless_optional lossless_span).field NodeSlots.params <|
    (lossless_optional lossless_span).field NodeSlots.flows <|
    (lossless_optional lossless_span).field NodeSlots.metadata <|
    (lossless_optional lossless_long).last NodeSlots.inputLayer).lossless
    NodeSlots.storable_iff (by rintro ⟨⟩ ⟨⟩; simp)

@[mk_iff]
structure InputSizes.Storable (sizes : InputSizes) : Prop where
  params : IsLong sizes.params
  flows : IsLong sizes.flows
  metadata : IsLong sizes.metadata

theorem Encoding.lossless_inputSizes : Lossless inputSizes InputSizes.Storable :=
  (lossless_long.field InputSizes.params <| lossless_long.field InputSizes.flows <|
    lossless_long.last InputSizes.metadata).lossless
    InputSizes.storable_iff (by rintro ⟨⟩ ⟨⟩; simp)

@[mk_iff]
structure TieGroup.Storable (set : TieGroup) : Prop where
  source : IsWord set.source
  params : set.params.Storable
  target : set.target.Storable
  members : Counted IsWord set.members
  flowStarts : Counted IsWord set.flowStarts

theorem Encoding.lossless_tieGroup : Lossless tieGroup TieGroup.Storable :=
  (lossless_word.field TieGroup.source <| lossless_span.field TieGroup.params <|
    lossless_span.field TieGroup.target <| lossless_words.field TieGroup.members <|
    lossless_words.last TieGroup.flowStarts).lossless
    TieGroup.storable_iff (by rintro ⟨⟩ ⟨⟩; simp)

@[mk_iff]
structure SlotTable.Storable (table : SlotTable) : Prop where
  nodes : Counted (fun entry => IsWord entry.1 ∧ entry.2.Storable) table.nodes
  numValues : IsLong table.numValues
  numSumParams : IsLong table.numSumParams
  numSumFlows : IsLong table.numSumFlows
  inputSizes : Counted InputSizes.Storable table.inputSizes
  sumTies : Counted TieGroup.Storable table.sumTies
  inputTies : Counted (Counted TieGroup.Storable) table.inputTies

theorem Encoding.lossless_entry :
    Lossless (fun entry : NodeId × NodeSlots => both (word entry.1) (nodeSlots entry.2))
      fun entry => IsWord entry.1 ∧ entry.2.Storable :=
  (lossless_word.field Prod.fst <| lossless_nodeSlots.of_project Prod.snd).lossless
    (fun _ => Iff.rfl) fun _ _ => id

theorem Encoding.lossless_table : Lossless table SlotTable.Storable :=
  ((lossless_sequence lossless_entry).field SlotTable.nodes <|
    lossless_long.field SlotTable.numValues <| lossless_long.field SlotTable.numSumParams <|
    lossless_long.field SlotTable.numSumFlows <|
    (lossless_sequence lossless_inputSizes).field SlotTable.inputSizes <|
    (lossless_sequence lossless_tieGroup).field SlotTable.sumTies <|
    (lossless_sequence (lossless_sequence lossless_tieGroup)).last SlotTable.inputTies).lossless
    SlotTable.storable_iff (by rintro ⟨⟩ ⟨⟩; simp)

@[mk_iff]
structure PaddedMatrix.Storable (matrix : PaddedMatrix) : Prop where
  rows : IsLong matrix.rows
  cols : IsLong matrix.cols
  data : Counted IsWord matrix.data

theorem Encoding.lossless_matrix : Lossless matrix PaddedMatrix.Storable :=
  (lossless_long.field PaddedMatrix.rows <| lossless_long.field PaddedMatrix.cols <|
    lossless_words.last PaddedMatrix.data).lossless
    PaddedMatrix.storable_iff (by rintro ⟨⟩ ⟨⟩; simp)

@[mk_iff]
structure Bucket.Storable (bucket : Bucket) : Prop where
  cardinality : IsLong bucket.cardinality
  tileWidth : IsLong bucket.tileWidth
  sources : Counted IsWord bucket.sources
  targets : Counted IsWord bucket.targets
  widths : Counted IsWord bucket.widths
  numReplicas : Counted IsWord bucket.numReplicas
  replicas : bucket.replicas.Storable

theorem Encoding.lossless_bucket : Lossless bucket Bucket.Storable :=
  (lossless_long.field Bucket.cardinality <| lossless_long.field Bucket.tileWidth <|
    lossless_words.field Bucket.sources <| lossless_words.field Bucket.targets <|
    lossless_words.field Bucket.widths <| lossless_words.field Bucket.numReplicas <|
    lossless_matrix.last Bucket.replicas).lossless
    Bucket.storable_iff (by rintro ⟨⟩ ⟨⟩; simp)

@[mk_iff]
structure Reduction.Storable (reduction : Reduction) : Prop where
  buckets : Counted Bucket.Storable reduction.buckets

theorem Encoding.lossless_reduction : Lossless reduction Reduction.Storable :=
  ((lossless_sequence lossless_bucket).of_project Reduction.buckets).lossless
    Reduction.storable_iff (by rintro ⟨⟩ ⟨⟩; simp)

@[mk_iff]
structure InputLayer.Storable (layer : InputLayer) : Prop where
  index : IsLong layer.index
  signature : IsLong layer.signature.utf8ByteSize
  nodes : Counted IsWord layer.nodes
  values : layer.values.Storable
  vars : layer.vars.Storable
  paramStarts : Counted IsWord layer.paramStarts
  flowStarts : Counted IsWord layer.flowStarts
  metadataStarts : Counted IsWord layer.metadataStarts
  sources : Counted IsWord layer.sources
  metadata : Counted (fun _ => True) layer.metadata
  numParameters : IsLong layer.numParameters
  numFlows : IsLong layer.numFlows
  reduction : layer.reduction.Storable

theorem Encoding.lossless_inputLayer : Lossless inputLayer InputLayer.Storable :=
  (lossless_long.field InputLayer.index <| lossless_text.field InputLayer.signature <|
    lossless_words.field InputLayer.nodes <| lossless_span.field InputLayer.values <|
    lossless_matrix.field InputLayer.vars <| lossless_words.field InputLayer.paramStarts <|
    lossless_words.field InputLayer.flowStarts <|
    lossless_words.field InputLayer.metadataStarts <|
    lossless_words.field InputLayer.sources <|
    (lossless_sequence lossless_single).field InputLayer.metadata <|
    lossless_long.field InputLayer.numParameters <| lossless_long.field InputLayer.numFlows <|
    lossless_reduction.last InputLayer.reduction).lossless
    InputLayer.storable_iff (by rintro ⟨⟩ ⟨⟩; simp)

@[mk_iff]
structure Partition.Storable (partition : Partition) : Prop where
  width : IsLong partition.width
  starts : Counted IsWord partition.starts
  reads : partition.reads.Storable
  params : ∀ index ∈ partition.params, index.Storable
  children : Counted IsWord partition.children
  parents : partition.parents.Storable
  parentParams : ∀ index ∈ partition.parentParams, index.Storable

theorem Encoding.lossless_partition : Lossless partition Partition.Storable :=
  (lossless_long.field Partition.width <| lossless_words.field Partition.starts <|
    lossless_matrix.field Partition.reads <|
    (lossless_optional lossless_matrix).field Partition.params <|
    lossless_words.field Partition.children <| lossless_matrix.field Partition.parents <|
    (lossless_optional lossless_matrix).last Partition.parentParams).lossless
    Partition.storable_iff (by rintro ⟨⟩ ⟨⟩; simp)

theorem Encoding.lossless_layerKind : Lossless layerKind fun _ => True where
  written kind := by cases kind <;> exact iff_of_true ⟨_, rfl⟩ trivial
  determined left right x y s t first second same := by
    have tags (m n : Nat) (isFirst : word m = some x) (isSecond : word n = some y) :
        m = n ∧ s = t := lossless_word.determined m n x y s t isFirst isSecond same
    cases left <;> cases right
    case product.product => exact ⟨rfl, (tags 0 0 first second).2⟩
    case product.sum => exact absurd (tags 0 1 first second).1 (by decide)
    case sum.product => exact absurd (tags 1 0 first second).1 (by decide)
    case sum.sum => exact ⟨rfl, (tags 1 1 first second).2⟩

@[mk_iff]
structure InnerLayer.Storable (layer : InnerLayer) : Prop where
  depth : IsLong layer.depth
  groupSize : IsLong layer.groupSize
  nodes : Counted IsWord layer.nodes
  partitions : Counted Partition.Storable layer.partitions
  numNodes : IsLong layer.numNodes
  numEdges : IsLong layer.numEdges

theorem Encoding.lossless_innerLayer : Lossless innerLayer InnerLayer.Storable :=
  (lossless_layerKind.field InnerLayer.kind <| lossless_long.field InnerLayer.depth <|
    lossless_long.field InnerLayer.groupSize <| lossless_words.field InnerLayer.nodes <|
    (lossless_sequence lossless_partition).field InnerLayer.partitions <|
    lossless_long.field InnerLayer.numNodes <| lossless_long.last InnerLayer.numEdges).lossless
    (fun layer => by rw [InnerLayer.storable_iff, true_and])
    (by rintro ⟨⟩ ⟨⟩; simp)

@[mk_iff]
structure ReductionOptions.Storable (options : ReductionOptions) : Prop where
  blockSize : IsLong options.blockSize
  maxTied : IsLong options.maxTied

theorem Encoding.lossless_reductionOptions :
    Lossless reductionOptions ReductionOptions.Storable :=
  (lossless_long.field ReductionOptions.blockSize <|
    lossless_long.of_project ReductionOptions.maxTied).lossless
    ReductionOptions.storable_iff (by rintro ⟨⟩ ⟨⟩; simp)

@[mk_iff]
structure Options.Storable (options : Options) : Prop where
  maxPartitions : ∀ count ∈ options.maxPartitions, IsLong count
  reduction : options.reduction.Storable

theorem Encoding.lossless_options : Lossless options Options.Storable :=
  (lossless_single.field Options.tolerance <|
    (lossless_optional lossless_long).field Options.maxPartitions <|
    lossless_reductionOptions.last Options.reduction).lossless
    (fun options => by rw [Options.storable_iff, true_and])
    (by rintro ⟨⟩ ⟨⟩; simp)

@[mk_iff]
structure Plan.Storable (plan : Plan) : Prop where
  groupSize : IsLong plan.groupSize
  root : IsWord plan.root
  slots : plan.slots.Storable
  inputLayers : Counted InputLayer.Storable plan.inputLayers
  innerLayers : Counted InnerLayer.Storable plan.innerLayers
  sumReduction : plan.sumReduction.Storable
  options : plan.options.Storable

theorem Encoding.lossless_plan : Lossless plan Plan.Storable :=
  (lossless_long.field Plan.groupSize <| lossless_word.field Plan.root <|
    lossless_table.field Plan.slots <|
    (lossless_sequence lossless_inputLayer).field Plan.inputLayers <|
    (lossless_sequence lossless_innerLayer).field Plan.innerLayers <|
    lossless_reduction.field Plan.sumReduction <|
    lossless_options.last Plan.options).lossless
    Plan.storable_iff (by rintro ⟨⟩ ⟨⟩; simp)

/-- Whether a plan is written, and that its bytes tell it from every other one. -/
structure Plan.DeterminedByEncoding (plan : Plan) : Prop where
  written : (∃ bytes, Encoding.plan plan = some bytes) ↔ plan.Storable
  determined : ∀ (other : Plan) (bytes otherBytes rest otherRest : List UInt8),
    Encoding.plan plan = some bytes → Encoding.plan other = some otherBytes →
      bytes ++ rest = otherBytes ++ otherRest → plan = other ∧ rest = otherRest
  separated : plan.Storable → ∀ other : Plan, plan ≠ other →
    Encoding.plan plan ≠ Encoding.plan other

theorem Plan.determined_by_encoding (plan : Plan) : plan.DeterminedByEncoding where
  written := Encoding.lossless_plan.written plan
  determined := Encoding.lossless_plan.determined plan
  separated storable other different same := by
    obtain ⟨bytes, isFirst⟩ := (Encoding.lossless_plan.written plan).mpr storable
    have isSecond : Encoding.plan other = some bytes := by rwa [← same]
    obtain ⟨equal, -⟩ :=
      Encoding.lossless_plan.determined plan other bytes bytes [] [] isFirst isSecond rfl
    exact different equal

theorem Plan.twin_determined_by_encoding : ∃ plan bytes, ofCircuit Circuit.twin {} = .ok plan ∧
    Encoding.plan plan = some bytes ∧
    ∀ other otherBytes rest otherRest, Encoding.plan other = some otherBytes →
      bytes ++ rest = otherBytes ++ otherRest → plan = other ∧ rest = otherRest := by
  have passes : (ofCircuit Circuit.twin {}).toOption.any (fun plan =>
      (Encoding.plan plan).isSome) = true := by decide +kernel
  obtain ⟨plan, compiled, present⟩ := exists_ok_of_any passes
  obtain ⟨bytes, written⟩ := Option.isSome_iff_exists.mp present
  exact ⟨plan, bytes, compiled, written, fun other otherBytes rest otherRest isOther same =>
    (determined_by_encoding plan).determined other bytes otherBytes rest otherRest written isOther
      same⟩

end CircuitPlan
