import CircuitPlan.Proofs.Reduction.Loop
import CircuitPlan.Proofs.Slot.Consecutive

namespace CircuitPlan

namespace Span

variable {start stop offset : Nat} {spans : List Span}

theorem Consecutive.existsUnique_contains (chain : Consecutive start spans stop)
    (above : start ≤ offset) (below : offset < stop) :
    ∃! index : Nat, ∃ span : Span, spans[index]? = some span ∧ span.contains offset = true := by
  obtain ⟨span, member, inside⟩ := chain.exists_contains above below
  obtain ⟨index, found⟩ := List.getElem?_of_mem member
  refine ⟨index, ⟨span, found, inside⟩, ?_⟩
  rintro other ⟨otherSpan, otherFound, otherInside⟩
  rw [contains_iff] at inside otherInside
  obtain ⟨bound, rfl⟩ := List.getElem?_eq_some_iff.mp found
  obtain ⟨otherBound, rfl⟩ := List.getElem?_eq_some_iff.mp otherFound
  have ordered := List.pairwise_iff_getElem.mp chain.ordered
  rcases Nat.lt_trichotomy other index with before | same | after
  · have apart := ordered other index otherBound bound before
    omega
  · exact same
  · have apart := ordered index other bound otherBound after
    omega

end Span

def Job.padTo (cardinality : Nat) (job : Job) : Job :=
  { job with replicas := PaddedMatrix.padRow cardinality job.replicas }

namespace TieGroup

/-- The jobs of one tie group in a bucket. -/
structure Tiled (set : TieGroup) (cardinality step : Nat) (jobs : List Job) : Prop where
  consecutive : Span.Consecutive set.target.start (jobs.map Job.span)
    (set.target.start + set.width)
  covered : ∀ offset, set.target.start ≤ offset → offset < set.target.start + set.width →
    ∃! index : Nat, ∃ job : Job, jobs[index]? = some job ∧ job.span.contains offset = true
  width : ∀ job ∈ jobs, 0 < job.width ∧ job.width ≤ step
  full : ∀ index job, jobs[index]? = some job → index + 1 < jobs.length → job.width = step
  source : ∀ job ∈ jobs, job.source = set.source
  numReplicas : ∀ job ∈ jobs, job.numReplicas = set.numReplicas
  replicas : ∀ job ∈ jobs, job.replicas =
    set.flowStarts.map (· + (job.target - set.target.start)) ++
      List.replicate (cardinality - set.numReplicas) padding

section Tiles

variable {set : TieGroup} {step start index : Nat} {cut : List (Nat × Nat)} {tile : Nat × Nat}

theorem Tiling.consecutive (tiling : Tiling set.width step start cut)
    (inside : start ≤ set.width) :
    Span.Consecutive (set.target.start + start) (cut.map fun tile => (set.tileJob tile).span)
      (set.target.start + set.width) := by
  induction tiling with
  | done covered =>
      rw [Nat.le_antisymm inside covered]
      exact .nil _
  | @pass start rest left _ ih =>
      have reached : advance set.width step start ≤ set.width := by
        unfold advance
        omega
      have later := ih reached
      rw [advance, ← Nat.add_assoc] at later
      have ordered : (set.tileJob (start, min step (set.width - start))).span.start ≤
          (set.tileJob (start, min step (set.width - start))).span.stop := Nat.le_add_right _ _
      exact .cons ordered later

theorem Tiling.full {width : Nat} (tiling : Tiling width step start cut)
    (found : cut[index]? = some tile) (further : index + 1 < cut.length) : tile.2 = step := by
  induction tiling generalizing index with
  | done => cases found
  | pass left later ih =>
      cases index with
      | zero =>
          cases found
          cases later with
          | done => exact absurd further (Nat.lt_irrefl 1)
          | pass left _ =>
              -- Another tile is left, so that this one does not reach the end.
              unfold advance at left
              dsimp only
              omega
      | succ index => exact ih found (Nat.lt_of_succ_lt_succ further)

theorem Tiling.width_le {width : Nat} (tiling : Tiling width step start cut)
    (member : tile ∈ cut) : tile.2 ≤ step := by
  induction tiling with
  | done => cases member
  | pass _ _ ih =>
      cases member with
      | head => exact Nat.min_le_left _ _
      | tail _ member => exact ih member

end Tiles

variable {options : ReductionOptions} {set : TieGroup}

def block (options : ReductionOptions) (set : TieGroup) : List Job :=
  (set.tilesOf options).map fun tile => (set.tileJob tile).padTo set.cardinality

theorem step_eq (small : options.blockSize < UInt32.size) (set : TieGroup) :
    set.step options = options.tileWidth set.cardinality :=
  ReductionOptions.tileWidth_mod small set.cardinality

theorem block_tiled (small : options.blockSize < UInt32.size) (set : TieGroup) :
    set.Tiled set.cardinality (options.tileWidth set.cardinality) (set.block options) := by
  have made := tiles_eq small set
  have tiling := Tiling.of_tiles made
  rw [← step, step_eq small] at tiling
  have consecutive : Span.Consecutive set.target.start ((set.block options).map Job.span)
      (set.target.start + set.width) := by
    have chain := tiling.consecutive (Nat.zero_le _)
    rw [Nat.add_zero] at chain
    rwa [block, List.map_map]
  have of_mem {job : Job} (member : job ∈ set.block options) :
      ∃ tile ∈ set.tilesOf options, (set.tileJob tile).padTo set.cardinality = job :=
    List.mem_map.mp member
  constructor
  case consecutive => exact consecutive
  case covered =>
    intro offset above below
    have unique := consecutive.existsUnique_contains above below
    simpa [List.getElem?_map, and_assoc] using unique
  case width =>
    intro job member
    obtain ⟨tile, isTile, rfl⟩ := of_mem member
    exact ⟨tile_pos made isTile, tiling.width_le isTile⟩
  case full =>
    intro index job found further
    rw [block, List.getElem?_map, Option.map_eq_some_iff] at found
    obtain ⟨tile, isTile, rfl⟩ := found
    rw [block, List.length_map] at further
    exact tiling.full isTile further
  case source =>
    intro job member
    obtain ⟨tile, -, rfl⟩ := of_mem member
    rfl
  case numReplicas =>
    intro job member
    obtain ⟨tile, -, rfl⟩ := of_mem member
    rfl
  case replicas =>
    intro job member
    obtain ⟨tile, -, rfl⟩ := of_mem member
    have shift : (set.target.start + tile.1) - set.target.start = tile.1 :=
      Nat.add_sub_cancel_left _ _
    simp only [Job.padTo, tileJob, PaddedMatrix.padRow, List.length_map, shift]
    rfl

theorem cardinality_lt (several : 2 ≤ set.numReplicas) :
    set.cardinality < 2 * set.numReplicas := by
  have below := Nat.pow_pred_clog_lt_self Nat.one_lt_two several
  have exponent := Nat.clog_pos Nat.one_lt_two several
  rw [cardinality_eq several, ← Nat.succ_pred_eq_of_pos exponent, Nat.pow_succ]
  omega

end TieGroup

theorem values_of_groupByKey {α β : Type} {xs : List α} {key : α → Nat} {value : α → β}
    {group : Nat × List β}
    (member : group ∈ groupByKey (xs.map fun x => (key x, value x))) :
    (∃ x ∈ xs, key x = group.1) ∧ group.2 = (xs.filter fun x => key x == group.1).map value := by
  obtain ⟨present, values⟩ := mem_groupByKey.mp member
  rw [List.filter_map, List.map_map] at values
  refine ⟨?_, values⟩
  obtain ⟨entry, isEntry, same⟩ := present
  obtain ⟨x, isMember, rfl⟩ := List.mem_map.mp isEntry
  exact ⟨x, isMember, same⟩

namespace Reduction

variable {sets : List TieGroup}

def setsOf (sets : List TieGroup) (cardinality : Nat) : List TieGroup :=
  sets.filter fun set => 2 ≤ set.numReplicas ∧ set.cardinality = cardinality

theorem mem_setsOf {cardinality : Nat} {set : TieGroup} :
    set ∈ setsOf sets cardinality ↔
      set ∈ sets ∧ 2 ≤ set.numReplicas ∧ set.cardinality = cardinality := by
  rw [setsOf, List.mem_filter, decide_eq_true_iff]

theorem setsOf_eq (sets : List TieGroup) (cardinality : Nat) :
    (shared sets).filter (fun set => set.cardinality == cardinality) = setsOf sets cardinality := by
  rw [shared, List.filter_filter, setsOf]
  apply List.filter_congr
  intro set _
  rw [Bool.decide_and, Bool.and_comm]
  rfl

end Reduction

namespace Bucket

/-- A bucket has the jobs of its tie groups in the order of the list, and no others. -/
structure Exact (options : ReductionOptions) (sets : List TieGroup) (bucket : Bucket) : Prop where
  aligned : bucket.Aligned
  power : ∃ exponent, bucket.cardinality = 2 ^ exponent
  tileWidth : bucket.tileWidth = max 1 (options.blockSize / bucket.cardinality)
  occupied : Reduction.setsOf sets bucket.cardinality ≠ []
  jobs : ∃ blocks, bucket.jobs = blocks.flatten ∧
    List.Forall₂ (fun set jobs => set.Tiled bucket.cardinality bucket.tileWidth jobs)
      (Reduction.setsOf sets bucket.cardinality) blocks

variable {options : ReductionOptions} {sets : List TieGroup} {bucket : Bucket}

theorem exact_of_bucketOf (small : options.blockSize < UInt32.size)
    {group : Nat × List (List Job)}
    (isGroup : group ∈ groupByKey ((Reduction.shared sets).map (TieGroup.cut options)))
    (made : Reduction.bucketOf options group = .ok bucket) : bucket.Exact options sets := by
  obtain ⟨cardinality, lists⟩ := group
  obtain ⟨⟨set, isShared, same⟩, values⟩ := values_of_groupByKey isGroup
  obtain ⟨aligned, rfl, tileWidth⟩ := aligned_ofJobs made
  dsimp only at same values tileWidth
  have own {set : TieGroup} (member : set ∈ Reduction.setsOf sets bucket.cardinality) :
      set.cardinality = bucket.cardinality := (Reduction.mem_setsOf.mp member).2.2
  rw [Reduction.setsOf_eq] at values
  constructor
  case aligned => exact aligned
  case power =>
    have several := (Reduction.mem_shared.mp isShared).2
    exact ⟨_, same.symm.trans (TieGroup.cardinality_eq several)⟩
  case tileWidth => exact tileWidth
  case occupied =>
    obtain ⟨member, several⟩ := Reduction.mem_shared.mp isShared
    exact List.ne_nil_of_mem (Reduction.mem_setsOf.mpr ⟨member, several, same⟩)
  case jobs =>
    refine ⟨(Reduction.setsOf sets bucket.cardinality).map (TieGroup.block options), ?_, ?_⟩
    · rw [jobs_ofJobs made, values, List.map_flatten, List.map_map]
      congr 1
      apply List.map_congr_left
      intro set member
      rw [Function.comp_apply, List.map_map, TieGroup.block, own member]
      rfl
    · rw [List.forall₂_map_right_iff, List.forall₂_same]
      intro set member
      rw [tileWidth, ← own member]
      exact TieGroup.block_tiled small set

end Bucket

namespace Reduction

variable {options : ReductionOptions} {sets : List TieGroup} {reduction : Reduction}

/-- Every tie group with several replicas is cut exactly, and no other tie group is. -/
structure Exact (options : ReductionOptions) (sets : List TieGroup) (reduction : Reduction) :
    Prop where
  ascending : reduction.buckets.Pairwise fun before after => before.cardinality < after.cardinality
  cardinality : ∀ set ∈ sets, 2 ≤ set.numReplicas →
    (∃ exponent, set.cardinality = 2 ^ exponent) ∧ set.numReplicas ≤ set.cardinality ∧
      set.cardinality < 2 * set.numReplicas ∧ set.cardinality ≤ options.maxTied ∧
      ∃ bucket ∈ reduction.buckets, bucket.cardinality = set.cardinality
  buckets : ∀ bucket ∈ reduction.buckets, bucket.Exact options sets

theorem buckets_of_ofTies (small : options.blockSize < UInt32.size)
    (success : ofTies options sets = .ok reduction) :
    (groupByKey ((shared sets).map (TieGroup.cut options))).mapM (bucketOf options) =
      .ok reduction.buckets := by
  obtain ⟨cut, cutOk, bucketsOk, -⟩ := ofTies_eq_ok.mp success
  obtain rfl := cut_eq small cutOk
  exact bucketsOk

theorem cardinalities_eq (small : options.blockSize < UInt32.size)
    (success : ofTies options sets = .ok reduction) :
    reduction.buckets.map (·.cardinality) =
      Ascending.ofList ((shared sets).map (·.cardinality)) := by
  have keys := mapM_map_eq (buckets_of_ofTies small success) fun group bucket made =>
    (Bucket.aligned_ofJobs made).2.1
  rw [keys, groupByKey, List.map_map, List.map_map]
  exact List.map_id _

theorem exact_of_ofTies (small : options.blockSize < UInt32.size)
    (success : ofTies options sets = .ok reduction) : Exact options sets reduction := by
  have cardinalities := cardinalities_eq small success
  constructor
  case ascending =>
    have ordered := Ascending.ofList_ascending ((shared sets).map (·.cardinality))
    rw [← cardinalities] at ordered
    exact List.pairwise_map.mp ordered
  case cardinality =>
    intro set member several
    have isShared := mem_shared.mpr ⟨member, several⟩
    have key : set.cardinality ∈ reduction.buckets.map (·.cardinality) := by
      rw [cardinalities]
      exact Ascending.mem_ofList.mpr (List.mem_map_of_mem isShared)
    obtain ⟨bucket, isBucket, same⟩ := List.mem_map.mp key
    exact ⟨⟨_, TieGroup.cardinality_eq several⟩, TieGroup.numReplicas_le several,
      TieGroup.cardinality_lt several, cardinality_le success isShared, bucket, isBucket, same⟩
  case buckets =>
    intro bucket member
    obtain ⟨group, isGroup, made⟩ := mapM_origin (buckets_of_ofTies small success) member
    exact Bucket.exact_of_bucketOf small isGroup made

def ragged : List TieGroup :=
  [{ source := 0, params := ⟨0, 5⟩, target := ⟨0, 5⟩, members := [0, 1], flowStarts := [0, 8] },
    { source := 2, params := ⟨5, 8⟩, target := ⟨5, 8⟩, members := [2, 3, 4],
      flowStarts := [5, 13, 16] },
    { source := 5, params := ⟨8, 9⟩, target := ⟨19, 20⟩, members := [5], flowStarts := [19] }]

theorem ragged_separate : TieGroup.Separate 20 (shared ragged) := by
  constructor <;> decide

theorem ragged_exact : ∃ reduction, ofTies { blockSize := 4 } ragged = .ok reduction ∧
    Exact { blockSize := 4 } ragged reduction := by
  cases made : ofTies { blockSize := 4 } ragged with
  | ok reduction => exact ⟨reduction, rfl, exact_of_ofTies (by decide) made⟩
  | error failure =>
      obtain ⟨set, isShared, tooMany, -⟩ :=
        ofTies_failsOnly (by decide) ragged_separate (by decide) (by decide) failure made
      have few : ∀ set ∈ shared ragged, set.cardinality ≤ 2048 := by decide
      exact absurd tooMany (Nat.not_lt_of_le (few set isShared))

end Reduction
end CircuitPlan
