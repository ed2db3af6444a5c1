import CircuitPlan.Proofs.Reduction.Exact

namespace CircuitPlan

namespace TieGroup

variable {options : ReductionOptions} {set : TieGroup}

def numTiles (options : ReductionOptions) (set : TieGroup) : Nat :=
  (set.width + options.tileWidth set.cardinality - 1) / options.tileWidth set.cardinality

theorem numTiles_eq_zero : set.numTiles options = 0 ↔ set.width = 0 := by
  have positive := options.tileWidth_pos set.cardinality
  rw [numTiles, Nat.div_eq_zero_iff]
  omega

theorem length_tilesOf (small : options.blockSize < UInt32.size) (set : TieGroup) :
    (set.tilesOf options).length = set.numTiles options := by
  have made := tiles_eq small set
  rw [← step, step_eq small, tiles_of_pos _ (options.tileWidth_pos _), Option.some.injEq] at made
  rw [← made, List.length_map, List.length_range]
  rfl

end TieGroup

theorem Bucket.length_jobs (bucket : Bucket) : bucket.jobs.length = bucket.numJobs := by
  rw [jobs, List.length_map, List.length_range]

namespace Reduction

variable {options : ReductionOptions} {sets : List TieGroup} {reduction : Reduction}

theorem numJobs_eq_length (reduction : Reduction) :
    reduction.numJobs = reduction.jobs.length := by
  rw [numJobs, ← List.sum_eq_foldl, jobs, List.length_flatMap]
  simp only [Bucket.length_jobs]

theorem sum_numTiles_eq_zero : (sets.map (TieGroup.numTiles options)).sum = 0 ↔
    ∀ set ∈ sets, set.width = 0 := by
  rw [List.sum_eq_zero_iff_forall_eq_nat, List.forall_mem_map]
  simp only [TieGroup.numTiles_eq_zero]

section Made

variable (small : options.blockSize < UInt32.size) (success : ofTies options sets = .ok reduction)
include small success

theorem numJobs_eq_sum :
    reduction.numJobs = ((shared sets).map (TieGroup.numTiles options)).sum := by
  have perm := spans_perm (buckets_of_ofTies small success)
  rw [numJobs_eq_length, ← List.length_map (f := Job.span), perm.length_eq, List.length_flatMap]
  simp only [TieGroup.writes, List.length_map, TieGroup.length_tilesOf small]

theorem bucket_numJobs {bucket : Bucket} (member : bucket ∈ reduction.buckets) :
    bucket.numJobs = ((setsOf sets bucket.cardinality).map (TieGroup.numTiles options)).sum := by
  obtain ⟨⟨cardinality, lists⟩, isGroup, made⟩ :=
    mapM_origin (buckets_of_ofTies small success) member
  obtain ⟨-, values⟩ := values_of_groupByKey isGroup
  obtain ⟨-, rfl, -⟩ := Bucket.aligned_ofJobs made
  dsimp only at values
  rw [← Bucket.length_jobs, Bucket.jobs_ofJobs made, List.length_map, values, setsOf_eq,
    List.length_flatten, List.map_map]
  congr 1
  apply List.map_congr_left
  intro set _
  rw [Function.comp_apply, List.length_map, TieGroup.length_tilesOf small]

theorem exists_bucket_iff {cardinality : Nat} :
    (∃ bucket ∈ reduction.buckets, bucket.cardinality = cardinality) ↔
      ∃ set ∈ shared sets, set.cardinality = cardinality := by
  rw [← List.mem_map, cardinalities_eq small success, Ascending.mem_ofList, List.mem_map]

theorem numJobs_eq_zero_iff {bucket : Bucket} (member : bucket ∈ reduction.buckets) :
    bucket.numJobs = 0 ↔ ∀ set ∈ setsOf sets bucket.cardinality, set.width = 0 := by
  rw [bucket_numJobs small success member, sum_numTiles_eq_zero]

theorem filled_iff : (∀ bucket ∈ reduction.buckets, 0 < bucket.numJobs) ↔ ∀ set ∈ shared sets,
    ∃ other ∈ shared sets, other.cardinality = set.cardinality ∧ 0 < other.width := by
  constructor
  · intro filled set isShared
    obtain ⟨bucket, member, same⟩ := (exists_bucket_iff small success).mpr ⟨set, isShared, rfl⟩
    have someFlows := mt (numJobs_eq_zero_iff small success member).mpr
      (Nat.ne_of_gt (filled bucket member))
    push Not at someFlows
    obtain ⟨other, isOther, flows⟩ := someFlows
    obtain ⟨isMember, several, alike⟩ := mem_setsOf.mp isOther
    exact ⟨other, mem_shared.mpr ⟨isMember, several⟩, alike.trans same, Nat.pos_of_ne_zero flows⟩
  · intro flows bucket member
    obtain ⟨set, isShared, same⟩ := (exists_bucket_iff small success).mp ⟨bucket, member, rfl⟩
    obtain ⟨other, otherShared, alike, positive⟩ := flows set isShared
    obtain ⟨isMember, several⟩ := mem_shared.mp otherShared
    apply Nat.pos_of_ne_zero
    intro none
    have width := (numJobs_eq_zero_iff small success member).mp none other
      (mem_setsOf.mpr ⟨isMember, several, alike.trans same⟩)
    exact Nat.ne_of_gt positive width

theorem isEmpty_iff : reduction.isEmpty = true ↔ shared sets = [] := by
  rw [isEmpty, List.isEmpty_iff, ← List.map_eq_nil_iff (f := (·.cardinality)),
    cardinalities_eq small success, List.eq_nil_iff_forall_not_mem]
  simp only [Ascending.mem_ofList, ← List.eq_nil_iff_forall_not_mem, List.map_eq_nil_iff]

end Made

/-- How many jobs the buckets of a reduction hold. -/
structure CountsJobs (options : ReductionOptions) (sets : List TieGroup) (reduction : Reduction) :
    Prop where
  total : reduction.numJobs = ((shared sets).map (TieGroup.numTiles options)).sum
  buckets : ∀ bucket ∈ reduction.buckets, bucket.numJobs =
    ((setsOf sets bucket.cardinality).map (TieGroup.numTiles options)).sum
  blank : ∀ bucket ∈ reduction.buckets, bucket.numJobs = 0 ↔
    ∀ set ∈ setsOf sets bucket.cardinality, set.width = 0
  filled : (∀ bucket ∈ reduction.buckets, 0 < bucket.numJobs) ↔ ∀ set ∈ shared sets,
    ∃ other ∈ shared sets, other.cardinality = set.cardinality ∧ 0 < other.width
  isEmpty : reduction.isEmpty = true ↔ shared sets = []
  jobless : reduction.numJobs = 0 ↔ ∀ set ∈ shared sets, set.width = 0
  /-- Being without buckets and being without jobs are the same unless there are tie groups with
  several replicas and all of them are without flows. -/
  agree : (reduction.isEmpty = true ↔ reduction.numJobs = 0) ↔
    (shared sets = [] ∨ ∃ set ∈ shared sets, 0 < set.width)

theorem countsJobs (small : options.blockSize < UInt32.size)
    (success : ofTies options sets = .ok reduction) : CountsJobs options sets reduction := by
  have total := numJobs_eq_sum small success
  have isEmpty : reduction.isEmpty = true ↔ shared sets = [] := isEmpty_iff small success
  have jobless : reduction.numJobs = 0 ↔ ∀ set ∈ shared sets, set.width = 0 := by
    rw [total, sum_numTiles_eq_zero]
  refine ⟨total, fun _ => bucket_numJobs small success, fun _ => numJobs_eq_zero_iff small success,
    filled_iff small success, isEmpty, jobless, ?_⟩
  rw [isEmpty, jobless]
  by_cases alone : shared sets = []
  · simp [alone]
  · simp [alone, Nat.pos_iff_ne_zero]

def blankPair : TieGroup where
  source := 0
  params := ⟨0, 1⟩
  target := ⟨0, 0⟩
  members := [1, 2]
  flowStarts := [0, 0]

theorem blankPair_jobless : ∃ reduction, ofTies {} [blankPair] = .ok reduction ∧
    (∃ bucket ∈ reduction.buckets, bucket.numJobs = 0) ∧
      reduction.isEmpty = false ∧ reduction.numJobs = 0 := by
  refine ⟨⟨[⟨2, 1024, [], [], [], [], ⟨0, 2, []⟩⟩]⟩, by decide +kernel, ?_, rfl, rfl⟩
  exact ⟨_, List.mem_cons_self, rfl⟩

def sparse : List TieGroup := blankPair :: ragged.tail

theorem sparse_separate : TieGroup.Separate 20 (shared sparse) := by
  constructor <;> decide

theorem sparse_countsJobs : ∃ reduction, ofTies { blockSize := 4 } sparse = .ok reduction ∧
    CountsJobs { blockSize := 4 } sparse reduction := by
  cases made : ofTies { blockSize := 4 } sparse with
  | ok reduction => exact ⟨reduction, rfl, countsJobs (by decide) made⟩
  | error failure =>
      obtain ⟨set, isShared, tooMany, -⟩ :=
        ofTies_failsOnly (by decide) sparse_separate (by decide) (by decide) failure made
      have few : ∀ set ∈ shared sparse, set.cardinality ≤ 2048 := by decide
      exact absurd tooMany (Nat.not_lt_of_le (few set isShared))

end Reduction
end CircuitPlan
