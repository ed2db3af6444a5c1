import Mathlib.Data.List.Forall2
import Mathlib.Data.List.Perm.Basic
import CircuitPlan.Proofs.PaddedMatrix
import CircuitPlan.Proofs.Slot.Consecutive
import CircuitPlan.Reduction.Tiling

/-!
# Jobs of a reduction

The tiles of a flow range cover it exactly. The buckets of a reduction hold the tiles of all tie
groups with at least two replicas, each tie group in one bucket.
-/

namespace CircuitPlan

theorem mem_groupByKey {α : Type} {entries : List (Nat × α)} {group : Nat × List α} :
    group ∈ groupByKey entries ↔
      (∃ entry ∈ entries, entry.1 = group.1) ∧
        group.2 = (entries.filter fun entry => entry.1 == group.1).map (·.2) := by
  rw [groupByKey, List.mem_map]
  constructor
  · rintro ⟨key, present, rfl⟩
    rw [Ascending.mem_ofList, List.mem_map] at present
    exact ⟨present, rfl⟩
  · rintro ⟨present, values⟩
    refine ⟨group.1, Ascending.mem_ofList.mpr (List.mem_map.mpr present), ?_⟩
    rw [← values]

theorem exists_entry_of_groupByKey {α : Type} {entries : List (Nat × List α)}
    {group : Nat × List (List α)} (member : group ∈ groupByKey entries) {x : α}
    (inside : x ∈ group.2.flatten) : ∃ entry ∈ entries, entry.1 = group.1 ∧ x ∈ entry.2 := by
  obtain ⟨-, values⟩ := mem_groupByKey.mp member
  obtain ⟨list, inGroup, inside⟩ := List.mem_flatten.mp inside
  rw [values, List.mem_map] at inGroup
  obtain ⟨entry, isEntry, rfl⟩ := inGroup
  obtain ⟨isEntry, sameKey⟩ := List.mem_filter.mp isEntry
  exact ⟨entry, isEntry, eq_of_beq sameKey, inside⟩

theorem groupByKey_ascending {α : Type} (entries : List (Nat × α)) :
    (groupByKey entries).Pairwise fun before after => before.1 < after.1 :=
  List.pairwise_map.mpr (Ascending.ofList_ascending _)

theorem flatMap_filter_perm {α : Type} (entries : List (Nat × α)) {keys : List Nat}
    (distinct : keys.Nodup) :
    (keys.flatMap fun key => entries.filter fun entry => entry.1 == key).Perm
      (entries.filter fun entry => decide (entry.1 ∈ keys)) := by
  induction keys with
  | nil => simp
  | cons key keys ih =>
      obtain ⟨fresh, distinct⟩ := List.nodup_cons.mp distinct
      have own : ((entries.filter fun entry => decide (entry.1 ∈ key :: keys)).filter
          fun entry => entry.1 == key) = entries.filter fun entry => entry.1 == key := by
        rw [List.filter_filter]
        apply List.filter_congr
        intro entry _
        by_cases same : entry.1 = key <;> simp [same]
      have others : ((entries.filter fun entry => decide (entry.1 ∈ key :: keys)).filter
          fun entry => !(entry.1 == key)) =
          entries.filter fun entry => decide (entry.1 ∈ keys) := by
        rw [List.filter_filter]
        apply List.filter_congr
        intro entry _
        by_cases same : entry.1 = key
        · simp [same, fresh]
        · simp [same]
      have split := List.filter_append_perm (fun entry => entry.1 == key)
        (entries.filter fun entry => decide (entry.1 ∈ key :: keys))
      rw [own, others] at split
      rw [List.flatMap_cons]
      exact ((ih distinct).append_left _).trans split

theorem groupByKey_perm {α : Type} (entries : List (Nat × α)) :
    ((groupByKey entries).flatMap (·.2)).Perm (entries.map (·.2)) := by
  have distinct : (Ascending.ofList (entries.map (·.1))).Nodup :=
    (Ascending.ofList_ascending _).imp Nat.ne_of_lt
  have all : (entries.filter fun entry =>
      decide (entry.1 ∈ Ascending.ofList (entries.map (·.1)))) = entries := by
    rw [List.filter_eq_self]
    intro entry member
    exact decide_eq_true (Ascending.mem_ofList.mpr (List.mem_map_of_mem member))
  have perm := (flatMap_filter_perm entries distinct).map (·.2)
  rw [all, List.map_flatMap] at perm
  rw [groupByKey, List.flatMap_map]
  exact perm

namespace TieGroup

/-! ## Tiles -/

section Tiles

variable {width step : Nat} {cut : List (Nat × Nat)}

theorem lt_tileCount (positive : 0 < step) (index : Nat) :
    index < (width + step - 1) / step ↔ index * step < width := by
  rw [Nat.lt_iff_add_one_le, Nat.le_div_iff_mul_le positive, Nat.add_one_mul]
  omega

theorem mem_tiles (made : tiles width step = some cut) {tile : Nat × Nat} :
    tile ∈ cut ↔ ∃ index, index * step < width ∧
      tile = (index * step, min step (width - index * step)) := by
  unfold tiles at made
  by_cases empty : width = 0
  · rw [if_pos empty, Option.some.injEq] at made
    subst made
    simp [empty]
  · rw [if_neg empty] at made
    by_cases still : step = 0
    · simp [still] at made
    · rw [if_neg still, Option.some.injEq] at made
      subst made
      rw [List.mem_map]
      apply exists_congr
      intro index
      rw [List.mem_range, lt_tileCount (Nat.pos_of_ne_zero still), eq_comm (a := tile)]

theorem tile_inside (made : tiles width step = some cut) {tile : Nat × Nat} (member : tile ∈ cut) :
    tile.1 + tile.2 ≤ width := by
  obtain ⟨index, before, rfl⟩ := (mem_tiles made).mp member
  dsimp only
  omega

theorem tiles_of_pos (width : Nat) (positive : 0 < step) :
    tiles width step = some ((List.range ((width + step - 1) / step)).map fun index =>
      (index * step, min step (width - index * step))) := by
  unfold tiles
  split
  case isTrue empty =>
    rw [empty, Nat.zero_add, Nat.div_eq_of_lt (Nat.sub_one_lt_of_lt positive)]
    rfl
  case isFalse => exact if_neg (Nat.ne_of_gt positive)

theorem tile_pos (made : tiles width step = some cut) {tile : Nat × Nat} (member : tile ∈ cut) :
    0 < tile.2 := by
  obtain ⟨index, before, rfl⟩ := (mem_tiles made).mp member
  have positive : 0 < step := by
    apply Nat.pos_of_ne_zero
    rintro rfl
    have nonzero : width ≠ 0 := Nat.ne_of_gt (Nat.zero_lt_of_lt before)
    simp [tiles, nonzero] at made
  dsimp only
  omega

theorem tiles_apart (made : tiles width step = some cut) :
    cut.Pairwise fun before after => before.1 + before.2 ≤ after.1 := by
  unfold tiles at made
  split at made
  · cases made
    exact .nil
  · split at made
    · cases made
    · obtain rfl := Option.some.inj made
      rw [List.pairwise_map]
      refine List.pairwise_lt_range.imp ?_
      intro low high lower
      have next := Nat.mul_le_mul_right step (Nat.succ_le_of_lt lower)
      rw [Nat.succ_mul] at next
      dsimp only
      omega

theorem exists_tile (made : tiles width step = some cut) {offset : Nat} (below : offset < width) :
    ∃ tile ∈ cut, tile.1 ≤ offset ∧ offset < tile.1 + tile.2 := by
  have positive : 0 < step := by
    apply Nat.pos_of_ne_zero
    rintro rfl
    have nonzero : width ≠ 0 := Nat.ne_of_gt (Nat.zero_lt_of_lt below)
    simp [tiles, nonzero] at made
  have lower : offset / step * step ≤ offset := Nat.div_mul_le_self offset step
  have upper : offset < offset / step * step + step := Nat.lt_div_mul_add positive
  refine ⟨_, (mem_tiles made).mpr ⟨offset / step, Nat.lt_of_le_of_lt lower below, rfl⟩, lower, ?_⟩
  dsimp only
  omega

end Tiles

/-! ## Jobs of a tie group -/

variable {options : ReductionOptions} {set : TieGroup} {cut : Nat × List Job}

theorem contains_target_iff {offset : Nat} : set.target.contains offset = true ↔
    ∃ index < set.width, set.target.start + index = offset := by
  rw [Span.contains_iff, width, Span.size]
  constructor
  · rintro ⟨above, below⟩
    exact ⟨offset - set.target.start, by omega, by omega⟩
  · rintro ⟨index, within, rfl⟩
    omega

theorem jobs_eq_ok : set.jobs options = .ok cut ↔ set.cardinality ≤ options.maxTied ∧
    ∃ tiled, tiles set.width (options.tileWidth set.cardinality % UInt32.size) = some tiled ∧
      cut = (set.cardinality, tiled.map set.tileJob) := by
  rw [jobs, unit_bind_eq_ok, require_eq_ok]
  apply and_congr_right'
  cases tiles set.width (options.tileWidth set.cardinality % UInt32.size) with
  | none => simp
  | some tiled => simp [eq_comm (a := cut)]

end TieGroup

/-! ## Buckets -/

namespace Bucket

variable {cardinality tileWidth : Nat} {jobs : List Job} {bucket : Bucket}

theorem jobs_ofJobs (made : ofJobs cardinality tileWidth jobs = .ok bucket) :
    bucket.jobs = jobs.map fun job =>
      { job with replicas := PaddedMatrix.padRow cardinality job.replicas } := by
  obtain ⟨replicas, padded, finished⟩ := bind_eq_ok.mp made
  obtain rfl := pure_eq_ok.mp finished
  rw [Bucket.jobs, numJobs, List.length_map]
  apply map_range_eq
  intro index job found
  simp [Bucket.job, found, PaddedMatrix.row_eq padded found]

theorem replicas_free (made : ofJobs cardinality tileWidth jobs = .ok bucket) {job : Job}
    (member : job ∈ jobs) : padding ∉ job.replicas := by
  obtain ⟨replicas, padded, -⟩ := bind_eq_ok.mp made
  exact (PaddedMatrix.row_fits padded member).2

structure Aligned (bucket : Bucket) : Prop where
  sources : bucket.sources.length = bucket.numJobs
  widths : bucket.widths.length = bucket.numJobs
  numReplicas : bucket.numReplicas.length = bucket.numJobs
  rows : bucket.replicas.rows = bucket.numJobs
  cols : bucket.replicas.cols = bucket.cardinality
  data : bucket.replicas.data.length = bucket.numJobs * bucket.cardinality

theorem aligned_ofJobs (made : ofJobs cardinality tileWidth jobs = .ok bucket) :
    bucket.Aligned ∧ bucket.cardinality = cardinality ∧ bucket.tileWidth = tileWidth := by
  obtain ⟨replicas, padded, finished⟩ := bind_eq_ok.mp made
  obtain rfl := pure_eq_ok.mp finished
  obtain ⟨fits, rfl⟩ := PaddedMatrix.ofRows_eq_ok.mp padded
  have data := PaddedMatrix.length_flatMap_padRow fun row member => (fits row member).1
  rw [List.length_map] at data
  refine ⟨⟨?_, ?_, ?_, ?_, rfl, ?_⟩, rfl, rfl⟩ <;> simp [numJobs, data]

/-! ## Reading jobs -/

/-- No column ends before the last job. -/
structure Readable (bucket : Bucket) : Prop where
  sources : bucket.numJobs ≤ bucket.sources.length
  widths : bucket.numJobs ≤ bucket.widths.length
  numReplicas : bucket.numJobs ≤ bucket.numReplicas.length
  data : bucket.numJobs * bucket.replicas.cols ≤ bucket.replicas.data.length

theorem Aligned.readable (aligned : bucket.Aligned) : bucket.Readable where
  sources := Nat.le_of_eq aligned.sources.symm
  widths := Nat.le_of_eq aligned.widths.symm
  numReplicas := Nat.le_of_eq aligned.numReplicas.symm
  data := Nat.le_of_eq (by rw [aligned.cols, aligned.data])

theorem entry_eq_ok {α : Type} {column : List α} {index : Nat} {x : α} :
    entry column index = .ok x ↔ column[index]? = some x :=
  elim_eq_ok

theorem entry_getD {α : Type} {column : List α} {index : Nat} (inside : index < column.length)
    (x : α) : entry column index = .ok (column.getD index x) := by
  rw [entry_eq_ok, List.getD_eq_getElem?_getD, List.getElem?_eq_getElem inside, Option.getD_some]

theorem Readable.readJob_eq (readable : bucket.Readable) {index : Nat}
    (inside : index < bucket.numJobs) : bucket.readJob index = .ok (bucket.job index) := by
  have reaches : (index + 1) * bucket.replicas.cols ≤ bucket.replicas.data.length :=
    Nat.le_trans (Nat.mul_le_mul_right _ inside) readable.data
  have row : bucket.replicas.readRow index = .ok (bucket.replicas.row index) := by
    rw [PaddedMatrix.readRow, PaddedMatrix.row, PaddedMatrix.row?, if_pos reaches]
    rfl
  rw [readJob, entry_getD (Nat.lt_of_lt_of_le inside readable.sources) 0,
    entry_getD inside 0, entry_getD (Nat.lt_of_lt_of_le inside readable.widths) 0,
    entry_getD (Nat.lt_of_lt_of_le inside readable.numReplicas) 0, row]
  rfl

theorem readable_iff : bucket.Readable ↔
    ∀ index < bucket.numJobs, ∃ job, bucket.readJob index = .ok job := by
  constructor
  · exact fun readable _ inside => ⟨_, readable.readJob_eq inside⟩
  · intro reads
    by_cases none : bucket.numJobs = 0
    · constructor <;> simp [none]
    -- A column that has the last entry has all of them.
    obtain ⟨job, read⟩ := reads (bucket.numJobs - 1) (Nat.sub_one_lt none)
    simp only [readJob, bind_eq_ok, entry_eq_ok, PaddedMatrix.readRow, elim_eq_ok] at read
    obtain ⟨source, isSource, -, -, width, isWidth, count, isCount, row, isRow, -⟩ := read
    obtain ⟨sources, -⟩ := List.getElem?_eq_some_iff.mp isSource
    obtain ⟨widths, -⟩ := List.getElem?_eq_some_iff.mp isWidth
    obtain ⟨numReplicas, -⟩ := List.getElem?_eq_some_iff.mp isCount
    have data : (bucket.numJobs - 1 + 1) * bucket.replicas.cols ≤
        bucket.replicas.data.length := by
      by_contra short
      rw [PaddedMatrix.row?, if_neg short] at isRow
      cases isRow
    rw [Nat.sub_one_add_one none] at data
    exact ⟨by omega, by omega, by omega, data⟩

end Bucket

namespace Reduction

variable {options : ReductionOptions} {sets : List TieGroup} {reduction : Reduction}

/-- All jobs can be read. Otherwise there is neither a required length nor a comparison of
targets. -/
def Readable (reduction : Reduction) : Prop := ∀ bucket ∈ reduction.buckets, bucket.Readable

theorem Readable.readJobs_eq (readable : reduction.Readable) :
    reduction.readJobs = reduction.jobs.map .ok := by
  rw [readJobs, jobs, List.map_flatMap]
  apply List.flatMap_congr
  intro bucket member
  rw [Bucket.jobs, List.map_map]
  apply List.map_congr_left
  exact fun index inside => (readable bucket member).readJob_eq (List.mem_range.mp inside)

theorem readable_iff : reduction.Readable ↔
    ∀ read ∈ reduction.readJobs, ∃ job, read = .ok job := by
  rw [readJobs, List.forall_mem_flatMap]
  apply forall₂_congr
  intro bucket _
  rw [Bucket.readable_iff, List.forall_mem_map]
  simp only [List.mem_range]

theorem mapM_readJobs_eq_ok {jobs : List Job} :
    reduction.readJobs.mapM id = .ok jobs ↔ reduction.Readable ∧ reduction.jobs = jobs := by
  have whole (readable : reduction.Readable) :
      reduction.readJobs.mapM id = .ok reduction.jobs := by
    rw [readable.readJobs_eq, mapM_eq_ok, List.forall₂_map_left_iff, List.forall₂_same]
    exact fun _ _ => rfl
  constructor
  · intro read
    have readable : reduction.Readable := by
      apply readable_iff.mpr
      intro job isRead
      obtain ⟨result, -, success⟩ := mapM_result read isRead
      exact ⟨result, success⟩
    exact ⟨readable, Except.ok.inj ((whole readable).symm.trans read)⟩
  · rintro ⟨readable, rfl⟩
    exact whole readable

def shared (sets : List TieGroup) : List TieGroup := sets.filter fun set => 2 ≤ set.numReplicas

theorem mem_shared {set : TieGroup} : set ∈ shared sets ↔ set ∈ sets ∧ 2 ≤ set.numReplicas := by
  rw [shared, List.mem_filter, decide_eq_true_iff]

theorem ofTies_eq_ok : ofTies options sets = .ok reduction ↔
    ∃ cut, (shared sets).mapM (TieGroup.jobs options) = .ok cut ∧
      (groupByKey cut).mapM (bucketOf options) = .ok reduction.buckets ∧
      reduction.writesApart = .ok true := by
  rw [ofTies]
  simp only [bind_eq_ok, mapError_eq_ok, pure_eq_ok]
  constructor
  · rintro ⟨cut, cutOk, buckets, bucketsOk, answer, compared, _, apart, rfl⟩
    obtain rfl := require_eq_ok.mp apart
    exact ⟨cut, cutOk, bucketsOk, compared⟩
  · rintro ⟨cut, cutOk, bucketsOk, apart⟩
    exact ⟨cut, cutOk, reduction.buckets, bucketsOk, true, apart, (), rfl, rfl⟩

theorem readable_of_buckets {groups : List (Nat × List (List Job))} {buckets : List Bucket}
    (made : groups.mapM (bucketOf options) = .ok buckets) : (Reduction.mk buckets).Readable := by
  intro bucket member
  obtain ⟨group, -, bucketOk⟩ := mapM_origin made member
  exact (Bucket.aligned_ofJobs bucketOk).1.readable

/-- The jobs of each bucket, before they are laid out in columns. -/
structure Made (options : ReductionOptions) (sets : List TieGroup) (reduction : Reduction)
    (groups : List (Nat × List Job)) : Prop where
  ascending : groups.Pairwise fun before after => before.1 < after.1
  buckets : List.Forall₂ (fun group bucket =>
    Bucket.ofJobs group.1 (options.tileWidth group.1) group.2 = .ok bucket) groups
    reduction.buckets
  of_mem : ∀ group ∈ groups, ∀ job ∈ group.2, ∃ set ∈ shared sets, set.cardinality = group.1 ∧
    ∃ tile : Nat × Nat, tile.1 + tile.2 ≤ set.width ∧ job = set.tileJob tile
  covers : ∀ set ∈ shared sets, ∀ offset < set.width, ∃ group ∈ groups, ∃ tile : Nat × Nat,
    set.tileJob tile ∈ group.2 ∧ tile.1 ≤ offset ∧ offset < tile.1 + tile.2

theorem exists_made (success : ofTies options sets = .ok reduction) :
    ∃ groups, Made options sets reduction groups := by
  obtain ⟨cut, cutOk, bucketsOk, -⟩ := ofTies_eq_ok.mp success
  have bucketsMade := mapM_eq_ok.mp bucketsOk
  refine ⟨(groupByKey cut).map fun group => (group.1, group.2.flatten), ?_, ?_, ?_, ?_⟩
  · exact List.pairwise_map.mpr (groupByKey_ascending cut)
  · exact List.forall₂_map_left_iff.mpr bucketsMade
  · intro group member job jobMember
    obtain ⟨keyed, keyedMember, rfl⟩ := List.mem_map.mp member
    obtain ⟨entry, inCut, sameKey, inside⟩ := exists_entry_of_groupByKey keyedMember jobMember
    obtain ⟨set, isShared, cutSet⟩ := mapM_origin cutOk inCut
    obtain ⟨-, tiled, made, rfl⟩ := TieGroup.jobs_eq_ok.mp cutSet
    obtain ⟨tile, tileMember, rfl⟩ := List.mem_map.mp inside
    exact ⟨set, isShared, sameKey, tile, TieGroup.tile_inside made tileMember, rfl⟩
  · intro set isShared offset below
    obtain ⟨entry, inCut, cutSet⟩ := mapM_result cutOk isShared
    obtain ⟨-, tiled, made, rfl⟩ := TieGroup.jobs_eq_ok.mp cutSet
    obtain ⟨tile, tileMember, around⟩ := TieGroup.exists_tile made below
    have keyed : (set.cardinality, (cut.filter fun entry => entry.1 == set.cardinality).map (·.2)) ∈
        groupByKey cut := mem_groupByKey.mpr ⟨⟨_, inCut, rfl⟩, rfl⟩
    refine ⟨_, List.mem_map.mpr ⟨_, keyed, rfl⟩, tile, ?_, around⟩
    refine List.mem_flatten.mpr ⟨tiled.map set.tileJob, ?_, List.mem_map_of_mem tileMember⟩
    exact List.mem_map.mpr ⟨_, List.mem_filter.mpr ⟨inCut, beq_self_eq_true _⟩, rfl⟩

end Reduction
end CircuitPlan
