import Mathlib.Algebra.GroupWithZero.Nat
import Mathlib.Data.Nat.Log
import CircuitPlan.Proofs.Execution.Accumulate
import CircuitPlan.Proofs.Reduction.Neighbours

namespace CircuitPlan

theorem ReductionOptions.tileWidth_pos (options : ReductionOptions) (cardinality : Nat) :
    0 < options.tileWidth cardinality :=
  Nat.lt_of_lt_of_le Nat.one_pos (Nat.le_max_left _ _)

theorem ReductionOptions.tileWidth_mod {options : ReductionOptions}
    (small : options.blockSize < UInt32.size) (cardinality : Nat) :
    options.tileWidth cardinality % UInt32.size = options.tileWidth cardinality := by
  have bound := Nat.div_le_self options.blockSize cardinality
  apply Nat.mod_eq_of_lt
  rw [tileWidth]
  simp only [UInt32.size] at small ⊢
  omega

namespace TieGroup

variable {options : ReductionOptions} {set : TieGroup}

theorem cardinality_eq (several : 2 ≤ set.numReplicas) :
    set.cardinality = 2 ^ Nat.clog 2 set.numReplicas := by
  have positive : set.numReplicas - 1 ≠ 0 := by omega
  have below := Nat.log2_self_le positive
  have above := Nat.lt_log2_self (n := set.numReplicas - 1)
  have exponent : Nat.clog 2 set.numReplicas = (set.numReplicas - 1).log2 + 1 := by
    apply Nat.le_antisymm
    · rw [Nat.clog_le_iff_le_pow Nat.one_lt_two]
      omega
    · rw [Nat.succ_le_iff, Nat.lt_clog_iff_pow_lt Nat.one_lt_two]
      omega
  rw [cardinality, exponent, Nat.one_shiftLeft]

theorem numReplicas_le (several : 2 ≤ set.numReplicas) : set.numReplicas ≤ set.cardinality := by
  rw [cardinality_eq several]
  exact Nat.le_pow_clog Nat.one_lt_two _

theorem tileWidth_pos (small : options.blockSize < UInt32.size) (cardinality : Nat) :
    0 < options.tileWidth cardinality % UInt32.size := by
  rw [ReductionOptions.tileWidth_mod small]
  exact options.tileWidth_pos cardinality

def tilesOf (options : ReductionOptions) (set : TieGroup) : List (Nat × Nat) :=
  (tiles set.width (options.tileWidth set.cardinality % UInt32.size)).getD []

theorem tiles_eq (small : options.blockSize < UInt32.size) (set : TieGroup) :
    tiles set.width (options.tileWidth set.cardinality % UInt32.size) =
      some (tilesOf options set) := by
  rw [tilesOf, tiles_of_pos set.width (tileWidth_pos small set.cardinality), Option.getD_some]

def cut (options : ReductionOptions) (set : TieGroup) : Nat × List Job :=
  (set.cardinality, (tilesOf options set).map set.tileJob)

theorem jobs_eq (small : options.blockSize < UInt32.size)
    (few : set.cardinality ≤ options.maxTied) : set.jobs options = .ok (cut options set) :=
  jobs_eq_ok.mpr ⟨few, _, tiles_eq small set, rfl⟩

def TooManyTied (options : ReductionOptions) (set : TieGroup) (failure : Failure) : Prop :=
  options.maxTied < set.cardinality ∧ failure =
    .error (.tooManyTied set.source set.numReplicas set.cardinality options.maxTied)

theorem jobs_failsOnly (small : options.blockSize < UInt32.size) :
    FailsOnly (TooManyTied options set) (set.jobs options) := by
  by_cases few : set.cardinality ≤ options.maxTied
  · rw [jobs_eq small few]
    exact .ok _ _
  · intro failure failed
    rw [jobs, require, if_neg few] at failed
    exact ⟨Nat.lt_of_not_le few, (Except.error.inj failed).symm⟩

def writes (options : ReductionOptions) (set : TieGroup) : List Span :=
  (tilesOf options set).map fun tile => (set.tileJob tile).span

theorem writes_nonempty (small : options.blockSize < UInt32.size) {span : Span}
    (member : span ∈ set.writes options) : span.start < span.stop := by
  obtain ⟨tile, isTile, rfl⟩ := List.mem_map.mp member
  exact Nat.lt_add_of_pos_right (tile_pos (tiles_eq small set) isTile)

theorem writes_apart (small : options.blockSize < UInt32.size) (set : TieGroup) :
    (set.writes options).Pairwise Span.Apart := by
  rw [writes, List.pairwise_map]
  refine (tiles_apart (tiles_eq small set)).imp ?_
  intro tile other apart
  simp only [Span.Apart, Job.span, tileJob]
  omega

theorem exists_writes_iff (small : options.blockSize < UInt32.size) {offset : Nat} :
    (∃ span ∈ set.writes options, span.contains offset = true) ↔
      set.target.contains offset = true := by
  have made := tiles_eq small set
  rw [contains_target_iff]
  constructor
  · rintro ⟨span, member, contained⟩
    obtain ⟨tile, isTile, rfl⟩ := List.mem_map.mp member
    obtain ⟨above, below⟩ := Span.contains_iff.mp contained
    have inside := tile_inside made isTile
    simp only [Job.span, tileJob] at above below
    exact ⟨offset - set.target.start, by omega, by omega⟩
  · rintro ⟨index, within, rfl⟩
    obtain ⟨tile, isTile, first, last⟩ := exists_tile made within
    refine ⟨_, List.mem_map_of_mem isTile, Span.contains_iff.mpr ?_⟩
    simp only [Job.span, tileJob]
    omega

def Clear (left right : TieGroup) : Prop := ∀ offset,
  left.target.contains offset = true → ¬ right.target.contains offset = true

theorem clear_iff (small : options.blockSize < UInt32.size) {left right : TieGroup} :
    (∀ span ∈ left.writes options, ∀ other ∈ right.writes options, span.Apart other) ↔
      left.Clear right := by
  constructor
  · intro apart offset inLeft inRight
    obtain ⟨span, member, contained⟩ := (exists_writes_iff small).mpr inLeft
    obtain ⟨other, otherMember, otherContained⟩ := (exists_writes_iff small).mpr inRight
    exact (apart span member other otherMember).not_contains contained otherContained
  · intro clear span member other otherMember
    apply (Span.apart_iff (writes_nonempty small member) (writes_nonempty small otherMember)).mpr
    intro offset contained otherContained
    exact clear offset ((exists_writes_iff small).mp ⟨span, member, contained⟩)
      ((exists_writes_iff small).mp ⟨other, otherMember, otherContained⟩)

end TieGroup

namespace Reduction

variable {options : ReductionOptions} {sets : List TieGroup} {size : Nat}

theorem cardinality_le {reduction : Reduction} (success : ofTies options sets = .ok reduction)
    {set : TieGroup} (isShared : set ∈ shared sets) : set.cardinality ≤ options.maxTied := by
  obtain ⟨cut, cutOk, -⟩ := ofTies_eq_ok.mp success
  obtain ⟨entry, -, made⟩ := mapM_result cutOk isShared
  exact (TieGroup.jobs_eq_ok.mp made).1

theorem spans_eq {groups : List (Nat × List (List Job))} {buckets : List Bucket}
    (made : List.Forall₂ (fun group bucket => bucketOf options group = .ok bucket) groups buckets) :
    (Reduction.mk buckets).jobs.map Job.span =
      (groups.flatMap (·.2)).flatten.map Job.span := by
  induction made with
  | nil => rfl
  | @cons group bucket groups buckets first made ih =>
      have own : bucket.jobs.map Job.span = group.2.flatten.map Job.span := by
        rw [Bucket.jobs_ofJobs first, List.map_map]
        rfl
      rw [jobs, List.flatMap_cons, List.map_append, own, List.flatMap_cons, List.flatten_append,
        List.map_append, ← ih]
      rfl

theorem cut_eq (small : options.blockSize < UInt32.size) {cut : List (Nat × List Job)}
    (cutOk : (shared sets).mapM (TieGroup.jobs options) = .ok cut) :
    cut = (shared sets).map (TieGroup.cut options) := by
  have same := mapM_map_eq cutOk (g := id) (h := TieGroup.cut options) (by
    intro set entry made
    have few := (TieGroup.jobs_eq_ok.mp made).1
    exact (Except.ok.inj ((TieGroup.jobs_eq small few).symm.trans made)).symm)
  rw [List.map_id] at same
  exact same

theorem tiled_of_groupByKey {group : Nat × List (List Job)}
    (member : group ∈ groupByKey ((shared sets).map (TieGroup.cut options))) {job : Job}
    (isJob : job ∈ group.2.flatten) : ∃ set ∈ shared sets, set.cardinality = group.1 ∧
      ∃ tile ∈ set.tilesOf options, job = set.tileJob tile := by
  obtain ⟨entry, inCut, sameKey, inside⟩ := exists_entry_of_groupByKey member isJob
  obtain ⟨set, isShared, rfl⟩ := List.mem_map.mp inCut
  obtain ⟨tile, isTile, rfl⟩ := List.mem_map.mp inside
  exact ⟨set, isShared, sameKey, tile, isTile, rfl⟩

theorem spans_perm {buckets : List Bucket}
    (made : (groupByKey ((shared sets).map (TieGroup.cut options))).mapM (bucketOf options) =
      .ok buckets) : ((Reduction.mk buckets).jobs.map Job.span).Perm
        ((shared sets).flatMap fun set => set.writes options) := by
  have grouped := (groupByKey_perm ((shared sets).map (TieGroup.cut options))).flatten.map Job.span
  rw [← spans_eq (mapM_eq_ok.mp made)] at grouped
  simpa [TieGroup.cut, TieGroup.writes, List.flatMap_def, Function.comp_def] using grouped

def Placed (sets : List TieGroup) : Prop :=
  ∀ set ∈ sets, ∀ start ∈ set.flowStarts, start + set.width ≤ padding

section Small

variable (small : options.blockSize < UInt32.size)
include small

theorem bucket_ok (placed : Placed (shared sets)) {cardinality : Nat} {jobs : List Job}
    (tiled : ∀ job ∈ jobs, ∃ set ∈ shared sets, set.cardinality = cardinality ∧
      ∃ tile ∈ set.tilesOf options, job = set.tileJob tile) :
    ∃ bucket, Bucket.ofJobs cardinality (options.tileWidth cardinality) jobs = .ok bucket := by
  have fits : ∀ row ∈ jobs.map (·.replicas), row.length ≤ cardinality ∧ padding ∉ row := by
    intro row member
    obtain ⟨job, isJob, rfl⟩ := List.mem_map.mp member
    obtain ⟨set, isShared, rfl, tile, isTile, rfl⟩ := tiled job isJob
    have several := (mem_shared.mp isShared).2
    have made := TieGroup.tiles_eq small set
    have inside := TieGroup.tile_inside made isTile
    have positive := TieGroup.tile_pos made isTile
    constructor
    · rw [TieGroup.tileJob, List.length_map]
      exact TieGroup.numReplicas_le several
    · intro isReplica
      obtain ⟨start, isFlow, same⟩ := List.mem_map.mp isReplica
      have bound := placed set isShared start isFlow
      omega
  obtain ⟨replicas, made⟩ := PaddedMatrix.exists_ofRows fits
  exact ⟨_, by rw [Bucket.ofJobs, made]; rfl⟩

theorem exists_buckets (placed : Placed (shared sets)) :
    ∃ buckets, (groupByKey ((shared sets).map (TieGroup.cut options))).mapM (bucketOf options) =
      .ok buckets :=
  mapM_exists fun _ member => bucket_ok small placed fun _ isJob => tiled_of_groupByKey member isJob

theorem writesApart_of_buckets {buckets : List Bucket}
    (made : (groupByKey ((shared sets).map (TieGroup.cut options))).mapM (bucketOf options) =
      .ok buckets) : ∃ answer, (Reduction.mk buckets).writesApart = .ok answer ∧
        (answer = true ↔ (shared sets).Pairwise TieGroup.Clear) := by
  refine ⟨_, writesApart_eq_ok.mpr ⟨readable_of_buckets made, rfl⟩, ?_⟩
  have nonempty : ∀ span ∈ (shared sets).flatMap fun set => set.writes options,
      span.start < span.stop := by
    intro span member
    obtain ⟨set, -, isSpan⟩ := List.mem_flatMap.mp member
    exact TieGroup.writes_nonempty small isSpan
  rw [spansApart_congr (spans_perm made), spansApart_iff nonempty, List.pairwise_flatMap,
    and_iff_right fun set _ => TieGroup.writes_apart small set]
  exact List.Pairwise.iff fun _ _ => TieGroup.clear_iff small

end Small

section Separate

variable (small : options.blockSize < UInt32.size)
  (separate : TieGroup.Separate size (shared sets))
include small separate

theorem ofTies_failsOnly (room : size ≤ padding) (distinct : (shared sets).Nodup) :
    FailsOnly (fun failure => ∃ set ∈ shared sets, set.TooManyTied options failure)
      (ofTies options sets) := by
  have placed : Placed (shared sets) := fun set isShared start isFlow =>
    Nat.le_trans (separate.flows_inside set isShared start isFlow) room
  have clear : (shared sets).Pairwise TieGroup.Clear := by
    refine distinct.imp_of_mem ?_
    intro set other isShared otherShared different offset
    exact (separate.targets_apart set isShared other otherShared different).not_contains
  apply FailsOnly.bind
  · apply FailsOnly.mapM
    intro set isShared failure failed
    exact ⟨set, isShared, TieGroup.jobs_failsOnly small failure failed⟩
  intro cut cutOk
  obtain rfl := cut_eq small cutOk
  obtain ⟨buckets, bucketsOk⟩ := exists_buckets small placed
  obtain ⟨answer, compared, isApart⟩ := writesApart_of_buckets small bucketsOk
  obtain rfl := isApart.mpr clear
  rw [bucketsOk, Except.mapError, ok_bind]
  dsimp only
  rw [compared, Except.mapError, ok_bind, require_pos rfl]
  exact .ok _ _

end Separate

end Reduction
end CircuitPlan
