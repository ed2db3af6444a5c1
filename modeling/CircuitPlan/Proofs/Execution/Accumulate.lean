import CircuitPlan.Execution.Accumulate
import CircuitPlan.Proofs.Buffer
import CircuitPlan.Proofs.Reduction.Tiling

namespace CircuitPlan

variable {F : Type} [Arithmetic F] {flows current : Array F}

namespace Job

def result (flows : Array F) (job : Job) : Nat × List F :=
  (job.target, (List.range job.width).map (Buffer.sumAt flows job.replicas))

structure Inside (size : Nat) (job : Job) : Prop where
  target : job.target + job.width ≤ size
  replicas : ∀ start ∈ job.replicas, start + job.width ≤ size

theorem result_congr {job : Job}
    (same : ∀ start ∈ job.replicas, ∀ index < job.width,
      flows[start + index]? = current[start + index]?) :
    job.result flows = job.result current := by
  unfold result
  congr 1
  apply List.map_congr_left
  intro index inside
  exact Buffer.sumAt_congr fun start member => same start member index (List.mem_range.mp inside)

def plain (job : Job) : Job := { job with replicas := job.valid }

theorem valid_padded {job : Job} {cardinality : Nat} (free : padding ∉ job.replicas) :
    valid { job with replicas := PaddedMatrix.padRow cardinality job.replicas } = job.replicas :=
  PaddedMatrix.filter_padRow free

theorem plain_padded {job : Job} {cardinality : Nat} (free : padding ∉ job.replicas) :
    plain { job with replicas := PaddedMatrix.padRow cardinality job.replicas } = job := by
  rw [plain, valid_padded free]

theorem check_eq_ok {job : Job} {size : Nat} : job.check size = .ok () ↔ job.plain.Inside size := by
  rw [check, forM_eq_ok, List.forall_mem_cons]
  simp only [checkBounds, require_eq_ok]
  exact ⟨fun bounds => ⟨bounds.1, bounds.2⟩, fun inside => ⟨inside.target, inside.replicas⟩⟩

end Job

theorem Bucket.plain_ofJobs {cardinality tileWidth : Nat} {jobs : List Job} {bucket : Bucket}
    (made : ofJobs cardinality tileWidth jobs = .ok bucket) : bucket.jobs.map Job.plain = jobs := by
  rw [jobs_ofJobs made, List.map_map]
  conv_rhs => rw [← List.map_id jobs]
  apply List.map_congr_left
  intro job member
  exact Job.plain_padded (replicas_free made member)

namespace Execution

variable {group : Nat × List Job} {bucket : Bucket} {tileWidth : Nat}

theorem runBucket_ok (inside : ∀ job ∈ bucket.jobs, job.plain.Inside flows.size) :
    runBucket flows bucket =
      .ok (Buffer.writeAll flows ((bucket.jobs.map Job.plain).map (Job.result flows))) := by
  have sums : bucket.jobs.mapM (fun job => do return (job.target, ← job.reduce flows)) =
      (.ok (bucket.jobs.map fun job => job.plain.result flows) :
        Except Fault (List (Nat × List F))) := by
    apply mapM_ok
    intro job member
    have reduced : job.reduce flows =
        .ok ((List.range job.width).map (Buffer.sumAt flows job.valid)) :=
      Buffer.foldlM_readRun (inside job member).replicas
    rw [reduced]
    rfl
  rw [runBucket, sums, List.map_map]
  apply Buffer.scatter_ok
  rw [List.forall_mem_map]
  intro job member
  simpa [Job.result] using (inside job member).target

theorem runBucket_eq (made : Bucket.ofJobs group.1 tileWidth group.2 = .ok bucket)
    (inside : ∀ job ∈ group.2, job.Inside flows.size) :
    runBucket flows bucket = .ok (Buffer.writeAll flows (group.2.map (Job.result flows))) := by
  have plain := Bucket.plain_ofJobs made
  rw [← plain, List.forall_mem_map] at inside
  rw [runBucket_ok inside, plain]

def Ordered (groups : List (Nat × List Job)) : Prop :=
  groups.Pairwise fun before after => ∀ writer ∈ before.2, ∀ reader ∈ after.2,
    ∀ start ∈ reader.replicas, ∀ index < reader.width, ¬ writer.span.contains (start + index) = true

theorem not_covers_results {jobs : List Job} {offset : Nat}
    (outside : ∀ job ∈ jobs, ¬ job.span.contains offset = true) :
    ¬ Buffer.Covers (jobs.map (Job.result flows)) offset := by
  rintro ⟨run, member, above, below⟩
  obtain ⟨job, jobMember, rfl⟩ := List.mem_map.mp member
  simp only [Job.result, List.length_map, List.length_range] at above below
  exact outside job jobMember (Span.contains_iff.mpr ⟨above, below⟩)

theorem foldlM_runBucket {options : ReductionOptions} {groups : List (Nat × List Job)}
    {buckets : List Bucket}
    (made : List.Forall₂ (fun group bucket =>
      Bucket.ofJobs group.1 (options.tileWidth group.1) group.2 = .ok bucket) groups buckets)
    (ordered : Ordered groups) (sameSize : current.size = flows.size)
    (inside : ∀ group ∈ groups, ∀ job ∈ group.2, job.Inside flows.size)
    (fresh : ∀ group ∈ groups, ∀ job ∈ group.2, job.result current = job.result flows) :
    buckets.foldlM runBucket current =
      .ok (Buffer.writeAll current ((groups.flatMap (·.2)).map (Job.result flows))) := by
  induction made generalizing current with
  | nil => rfl
  | @cons group bucket groups buckets first made ih =>
      obtain ⟨apart, ordered⟩ := List.pairwise_cons.mp ordered
      have own : group.2.map (Job.result current) = group.2.map (Job.result flows) :=
        List.map_congr_left (fresh group List.mem_cons_self)
      rw [List.foldlM_cons, runBucket_eq first (by
        rw [sameSize]; exact inside group List.mem_cons_self), ok_bind, own, List.flatMap_cons,
        List.map_append, Buffer.writeAll_append]
      apply ih ordered
      · rw [Buffer.size_writeAll, sameSize]
      · exact fun later member => inside later (List.mem_cons_of_mem _ member)
      · -- No job of this bucket writes what a later one reads, so `fresh` still holds after it.
        intro later member job jobMember
        rw [← fresh later (List.mem_cons_of_mem _ member) job jobMember]
        apply Job.result_congr
        intro start isReplica index within
        apply Buffer.getElem?_writeAll_of_not_covers
        apply not_covers_results
        intro writer isWriter
        exact apart later member writer isWriter job jobMember start isReplica index within

theorem checkJobs_eq_ok {reads : List (Except Fault Job)} {length : Nat} :
    checkJobs length reads = .ok (.ok ()) ↔
      ∀ read ∈ reads, ∃ job, read = .ok job ∧ job.plain.Inside length := by
  induction reads with
  | nil => simp [checkJobs]
  | cons read reads ih =>
      rw [List.forall_mem_cons, checkJobs, bind_eq_ok, ← ih]
      simp only [← Job.check_eq_ok]
      constructor
      · rintro ⟨job, rfl, passed⟩
        cases checked : job.check length with
        | error error => simp [checked, pure, Except.pure] at passed
        | ok first => exact ⟨⟨job, rfl, checked⟩, by simpa [checked] using passed⟩
      · rintro ⟨⟨job, rfl, checked⟩, passed⟩
        exact ⟨job, rfl, by simpa [checked] using passed⟩

end Execution

namespace Reduction

variable {reduction : Reduction} {size : Nat}

theorem checkJobs_readJobs : Execution.checkJobs size reduction.readJobs = .ok (.ok ()) ↔
    reduction.Readable ∧ ∀ job ∈ reduction.jobs, job.plain.Inside size := by
  rw [Execution.checkJobs_eq_ok]
  constructor
  · intro passed
    have readable : reduction.Readable := by
      apply readable_iff.mpr
      intro read isRead
      obtain ⟨job, success, -⟩ := passed read isRead
      exact ⟨job, success⟩
    rw [readable.readJobs_eq, List.forall_mem_map] at passed
    refine ⟨readable, fun job isJob => ?_⟩
    obtain ⟨other, same, fits⟩ := passed job isJob
    rwa [Except.ok.inj same]
  · rintro ⟨readable, fit⟩
    rw [readable.readJobs_eq, List.forall_mem_map]
    exact fun job isJob => ⟨job, rfl, fit job isJob⟩

end Reduction

theorem Execution.accumulate_of_checked {reduction : Reduction}
    (checked : checkJobs flows.size reduction.readJobs = .ok (.ok ())) :
    accumulate reduction flows =
      do return ⟨← reduction.buckets.foldlM runBucket flows, none⟩ := by
  rw [accumulate, checked]
  rfl

/-! ## Tie groups -/

structure TieGroup.Separate (size : Nat) (sets : List TieGroup) : Prop where
  target_inside : ∀ set ∈ sets, set.target.start + set.width ≤ size
  flows_inside : ∀ set ∈ sets, ∀ start ∈ set.flowStarts, start + set.width ≤ size
  targets_apart : ∀ set ∈ sets, ∀ other ∈ sets, set ≠ other → set.target.Apart other.target
  flows_apart : ∀ set ∈ sets, ∀ other ∈ sets, set ≠ other → ∀ start ∈ other.flowStarts,
    set.target.Apart ⟨start, start + other.width⟩

namespace Reduction

variable {options : ReductionOptions} {sets : List TieGroup} {reduction : Reduction}
  {groups : List (Nat × List Job)}

theorem job_inside {size : Nat} {set : TieGroup} {tile : Nat × Nat}
    (separate : TieGroup.Separate size (shared sets)) (member : set ∈ shared sets)
    (within : tile.1 + tile.2 ≤ set.width) : (set.tileJob tile).Inside size := by
  constructor
  · have bound := separate.target_inside set member
    simp only [TieGroup.tileJob]
    omega
  · intro start isReplica
    obtain ⟨origin, isFlow, rfl⟩ := List.mem_map.mp isReplica
    have bound := separate.flows_inside set member origin isFlow
    simp only [TieGroup.tileJob]
    omega

theorem Made.ordered {size : Nat} (made : Made options sets reduction groups)
    (separate : TieGroup.Separate size (shared sets)) : Execution.Ordered groups := by
  refine made.ascending.imp_of_mem ?_
  intro before after beforeMember afterMember lower writer isWriter reader isReader start
    isReplica index within
  obtain ⟨set, isShared, key, tile, inside, rfl⟩ := made.of_mem before beforeMember writer isWriter
  obtain ⟨other, otherShared, otherKey, otherTile, otherInside, rfl⟩ :=
    made.of_mem after afterMember reader isReader
  -- A tie group has one cardinality and so lies in one bucket.
  have different : set ≠ other := by
    rintro rfl
    rw [← key, ← otherKey] at lower
    exact Nat.lt_irrefl _ lower
  obtain ⟨origin, isFlow, rfl⟩ := List.mem_map.mp isReplica
  have apart := separate.flows_apart set isShared other otherShared different origin isFlow
  simp only [TieGroup.tileJob] at within
  simp only [Span.Apart, TieGroup.width, Span.size] at apart inside otherInside
  rw [Span.contains_iff]
  simp only [Job.span, TieGroup.tileJob]
  omega

def sums (sets : List TieGroup) (flows : Array F) (offset : Nat) : F :=
  ((sets.find? fun set => set.target.contains offset).map fun set =>
    Buffer.sumAt flows set.flowStarts (offset - set.target.start)).getD Arithmetic.zero

theorem sums_eq {size : Nat} (separate : TieGroup.Separate size sets) {set : TieGroup}
    (member : set ∈ sets) {index : Nat} (inside : index < set.width) :
    sums sets flows (set.target.start + index) = Buffer.sumAt flows set.flowStarts index := by
  have contained : set.target.contains (set.target.start + index) = true :=
    TieGroup.contains_target_iff.mpr ⟨index, inside, rfl⟩
  have only (other : TieGroup) (otherMember : other ∈ sets)
      (holds : other.target.contains (set.target.start + index) = true) : set = other := by
    by_contra different
    exact Span.Apart.not_contains (separate.targets_apart set member other otherMember different)
      contained holds
  unfold sums
  cases found : sets.find? fun other : TieGroup =>
      other.target.contains (set.target.start + index) with
  | none => exact absurd contained (List.find?_eq_none.mp found set member)
  | some other =>
      have holds := List.find?_some found
      obtain rfl := only other (List.mem_of_find?_eq_some found) holds
      rw [Option.map_some, Option.getD_some, Nat.add_sub_cancel_left]

/-- The targets of some tie groups hold the sums of their flows, and nothing else has changed. -/
structure Accumulated (sets : List TieGroup) (flows after : Array F) : Prop where
  size_eq : after.size = flows.size
  summed : ∀ set ∈ sets, ∀ index < set.width, after[set.target.start + index]? =
    some (Buffer.sumAt flows set.flowStarts index)
  others : ∀ offset, (∀ set ∈ sets, ¬ set.target.contains offset = true) →
    after[offset]? = flows[offset]?

theorem Accumulated.unique {first second : Array F} (left : Accumulated sets flows first)
    (right : Accumulated sets flows second) : first = second := by
  apply Array.ext_getElem?
  intro offset
  by_cases held : ∃ set ∈ sets, set.target.contains offset = true
  · obtain ⟨set, member, contained⟩ := held
    obtain ⟨index, within, rfl⟩ := TieGroup.contains_target_iff.mp contained
    rw [left.summed set member index within, right.summed set member index within]
  · have free : ∀ set ∈ sets, ¬ set.target.contains offset = true := by
      intro set member contained
      exact held ⟨set, member, contained⟩
    rw [left.others offset free, right.others offset free]

theorem Made.of_mem_runs (made : Made options sets reduction groups) {run : Nat × List F}
    (member : run ∈ (groups.flatMap (·.2)).map (Job.result flows)) :
    ∃ set ∈ shared sets, ∃ tile, tile.1 + tile.2 ≤ set.width ∧
      run = (set.tileJob tile).result flows := by
  obtain ⟨job, jobMember, rfl⟩ := List.mem_map.mp member
  obtain ⟨group, groupMember, inGroup⟩ := List.mem_flatMap.mp jobMember
  obtain ⟨set, isShared, -, tile, inside, rfl⟩ := made.of_mem group groupMember job inGroup
  exact ⟨set, isShared, tile, inside, rfl⟩

theorem Made.agrees (made : Made options sets reduction groups)
    (separate : TieGroup.Separate flows.size (shared sets)) :
    ∀ run ∈ (groups.flatMap (·.2)).map (Job.result flows),
      Buffer.Agrees (sums (shared sets) flows) run.1 run.2 := by
  intro run member
  obtain ⟨set, isShared, tile, inside, rfl⟩ := made.of_mem_runs member
  intro index within
  simp only [Job.result, TieGroup.tileJob, List.length_map, List.length_range] at within ⊢
  rw [List.getElem?_map, List.getElem?_range within, Option.map_some, Buffer.sumAt_map_add,
    Nat.add_assoc, sums_eq separate isShared (by omega)]

theorem Made.covers_iff (made : Made options sets reduction groups) {offset : Nat} :
    Buffer.Covers ((groups.flatMap (·.2)).map (Job.result flows)) offset ↔
      ∃ set ∈ shared sets, set.target.contains offset = true := by
  constructor
  · rintro ⟨run, member, above, below⟩
    obtain ⟨set, isShared, tile, inside, rfl⟩ := made.of_mem_runs member
    simp only [Job.result, TieGroup.tileJob, List.length_map, List.length_range] at above below
    refine ⟨set, isShared, TieGroup.contains_target_iff.mpr ?_⟩
    exact ⟨offset - set.target.start, by omega, by omega⟩
  · rintro ⟨set, isShared, contained⟩
    obtain ⟨index, within, rfl⟩ := TieGroup.contains_target_iff.mp contained
    obtain ⟨group, groupMember, tile, inGroup, around⟩ := made.covers set isShared index within
    refine ⟨_, List.mem_map_of_mem (List.mem_flatMap.mpr ⟨group, groupMember, inGroup⟩), ?_⟩
    simp only [Job.result, TieGroup.tileJob, List.length_map, List.length_range]
    omega

theorem Made.inside {size : Nat} (made : Made options sets reduction groups)
    (separate : TieGroup.Separate size (shared sets)) :
    ∀ group ∈ groups, ∀ job ∈ group.2, job.Inside size := by
  intro group groupMember job inGroup
  obtain ⟨set, isShared, -, tile, inside, rfl⟩ := made.of_mem group groupMember job inGroup
  exact job_inside separate isShared inside

theorem Made.checked {size : Nat} (made : Made options sets reduction groups)
    (separate : TieGroup.Separate size (shared sets)) :
    Execution.checkJobs size reduction.readJobs = .ok (.ok ()) := by
  rw [checkJobs_readJobs]
  constructor
  · intro bucket member
    obtain ⟨group, -, bucketOk⟩ := forall₂_origin made.buckets member
    exact (Bucket.aligned_ofJobs bucketOk).1.readable
  · intro job member
    obtain ⟨bucket, bucketMember, inBucket⟩ := List.mem_flatMap.mp member
    obtain ⟨group, groupMember, bucketOk⟩ := forall₂_origin made.buckets bucketMember
    apply made.inside separate group groupMember
    rw [← Bucket.plain_ofJobs bucketOk]
    exact List.mem_map_of_mem inBucket

theorem accumulate_ofTies (success : ofTies options sets = .ok reduction)
    (separate : TieGroup.Separate flows.size (shared sets)) :
    ∃ after, Execution.accumulate reduction flows = .ok ⟨after, none⟩ ∧
      Accumulated (shared sets) flows after := by
  obtain ⟨groups, made⟩ := exists_made success
  have inside := made.inside separate
  have run := Execution.foldlM_runBucket made.buckets (made.ordered separate) rfl inside
    fun _ _ _ _ => rfl
  refine ⟨Buffer.writeAll flows ((groups.flatMap (·.2)).map (Job.result flows)), ?_, ?_, ?_, ?_⟩
  · rw [Execution.accumulate_of_checked (made.checked separate), run]
    rfl
  · exact Buffer.size_writeAll _ _
  · intro set isShared index within
    have bound := separate.target_inside set isShared
    have contained : set.target.contains (set.target.start + index) = true :=
      TieGroup.contains_target_iff.mpr ⟨index, within, rfl⟩
    rw [Buffer.getElem?_writeAll_of_covers (made.agrees separate)
      (made.covers_iff.mpr ⟨set, isShared, contained⟩) (by omega),
      sums_eq separate isShared within]
  · intro offset free
    apply Buffer.getElem?_writeAll_of_not_covers
    rw [made.covers_iff]
    rintro ⟨set, isShared, contained⟩
    exact free set isShared contained

end Reduction
end CircuitPlan
