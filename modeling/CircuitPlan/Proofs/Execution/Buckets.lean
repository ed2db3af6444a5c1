import Mathlib.Data.List.Nodup
import CircuitPlan.Proofs.Execution.Accumulate
import CircuitPlan.Proofs.Execution.Phases
import CircuitPlan.Proofs.Layout.Depth

namespace CircuitPlan

variable {F : Type} [Arithmetic F] {flows before after : Array F} {bucket : Bucket}
  {reduction : Reduction}

namespace Reduction

theorem requiredLength_eq_ok {length : Nat} : reduction.requiredLength = .ok length ↔
    reduction.Readable ∧ (reduction.jobs.flatMap fun job =>
      (job.target :: job.valid).map fun start => start + job.width).foldl max 0 = length := by
  rw [requiredLength, bind_eq_ok]
  simp only [mapM_readJobs_eq_ok, pure_eq_ok, and_assoc, exists_and_left, exists_eq_left']

theorem requiredLength_le {length size : Nat} (known : reduction.requiredLength = .ok length) :
    length ≤ size ↔ ∀ job ∈ reduction.jobs, job.plain.Inside size := by
  obtain ⟨-, rfl⟩ := requiredLength_eq_ok.mp known
  rw [foldl_max_le, List.forall_mem_flatMap]
  apply forall₂_congr
  intro job _
  rw [List.forall_mem_map, List.forall_mem_cons]
  exact ⟨fun bounds => ⟨bounds.1, bounds.2⟩, fun inside => ⟨inside.target, inside.replicas⟩⟩

theorem checkJobs_eq_ok {size : Nat} :
    Execution.checkJobs size reduction.readJobs = .ok (.ok ()) ↔
      ∃ length, reduction.requiredLength = .ok length ∧ length ≤ size := by
  rw [checkJobs_readJobs]
  constructor
  · rintro ⟨readable, inside⟩
    have known := requiredLength_eq_ok.mpr ⟨readable, rfl⟩
    exact ⟨_, known, (requiredLength_le known).mpr inside⟩
  · rintro ⟨length, known, enough⟩
    exact ⟨(requiredLength_eq_ok.mp known).1, (requiredLength_le known).mp enough⟩

end Reduction

namespace Job

variable {job : Job} {index : Nat}

def work (job : Job) (index : Nat) : Work F where
  reads := job.valid.map (· + index)
  target := job.target + index
  combine := Arithmetic.sum

theorem work_result : (job.work index).result flows = Buffer.sumAt flows job.valid index := by
  rw [Work.result, work]
  dsimp only
  rw [List.map_map, Arithmetic.sum, List.foldl_map]
  rfl

end Job

namespace Bucket

def works (bucket : Bucket) : List (Work F) :=
  bucket.jobs.flatMap fun job => (List.range job.width).map job.work

def Disjoint (bucket : Bucket) : Prop :=
  bucket.jobs.Pairwise fun left right => ∀ offset,
    left.span.contains offset = true → ¬ right.span.contains offset = true

theorem mem_works {work : Work F} : work ∈ bucket.works ↔
    ∃ job ∈ bucket.jobs, ∃ index < job.width, job.work index = work := by
  simp [works]

theorem targets_nodup (disjoint : bucket.Disjoint) :
    ((bucket.works : List (Work F)).map (·.target)).Nodup := by
  rw [works, List.map_flatMap, List.nodup_flatMap]
  constructor
  · intro job _
    rw [List.map_map]
    exact List.nodup_range.map fun _ _ same => Nat.add_left_cancel same
  · refine disjoint.imp ?_
    intro left right apart
    simp only [Function.onFun, List.disjoint_left, List.mem_map, List.mem_range]
    rintro _ ⟨_, ⟨index, within, rfl⟩, rfl⟩ ⟨_, ⟨other, otherWithin, rfl⟩, same⟩
    apply apart (left.target + index)
    · exact Span.contains_iff.mpr ⟨Nat.le_add_right _ _, Nat.add_lt_add_left within _⟩
    · dsimp only [Job.work] at same
      rw [← same]
      exact Span.contains_iff.mpr ⟨Nat.le_add_right _ _, Nat.add_lt_add_left otherWithin _⟩

theorem Disjoint.results (disjoint : bucket.Disjoint) :
    ((bucket.jobs.map Job.plain).map (Job.result before)).Pairwise Buffer.Disjoint := by
  rw [List.pairwise_map, List.pairwise_map]
  refine disjoint.imp ?_
  intro left right apart offset within overlap
  simp only [Job.result, List.length_map, List.length_range] at within overlap
  exact apart offset (Span.contains_iff.mpr within) (Span.contains_iff.mpr overlap)

def result (bucket : Bucket) (before : Array F) : Array F :=
  Buffer.writeAll before ((bucket.jobs.map Job.plain).map (Job.result before))

theorem size_result : (bucket.result before).size = before.size := Buffer.size_writeAll _ _

theorem getElem?_result_of_free {offset : Nat}
    (free : ∀ job ∈ bucket.jobs, ¬ job.span.contains offset = true) :
    (bucket.result before)[offset]? = before[offset]? := by
  apply Buffer.getElem?_writeAll_of_not_covers
  apply Execution.not_covers_results
  rw [List.forall_mem_map]
  exact free

structure Acts (bucket : Bucket) (before after : Array F) : Prop where
  run : Execution.runBucket before bucket = .ok after
  size_eq : after.size = before.size
  others : ∀ offset, (∀ job ∈ bucket.jobs, ¬ job.span.contains offset = true) →
    after[offset]? = before[offset]?
  sums : bucket.Disjoint → ∀ job ∈ bucket.jobs, ∀ index < job.width,
    after[job.target + index]? = some (Buffer.sumAt before job.valid index)
  schedules : ∃ reads writes, Work.Phased (bucket.works : List (Work F)) reads writes
  anyOrder : bucket.Disjoint → ∀ reads writes,
    Work.Phased (bucket.works : List (Work F)) reads writes →
      ∃ final, Access.runAll bucket.works (.start before) (reads ++ writes) = some final ∧
        final.values = after

section Inside

variable (inside : ∀ job ∈ bucket.jobs, job.plain.Inside before.size)
include inside

theorem works_inside : ∀ work ∈ (bucket.works : List (Work F)),
    work.target < before.size ∧ ∀ read ∈ work.reads, read < before.size := by
  intro work isWork
  obtain ⟨job, isJob, index, within, rfl⟩ := mem_works.mp isWork
  have fits := inside job isJob
  constructor
  · exact Nat.lt_of_lt_of_le (Nat.add_lt_add_left within _) fits.target
  · rw [Job.work, List.forall_mem_map]
    intro start isStart
    exact Nat.lt_of_lt_of_le (Nat.add_lt_add_left within _) (fits.replicas start isStart)

theorem getElem?_result (disjoint : bucket.Disjoint) {job : Job} (isJob : job ∈ bucket.jobs)
    {index : Nat} (within : index < job.width) :
    (bucket.result before)[job.target + index]? =
      some (Buffer.sumAt before job.valid index) := by
  have isRun := List.mem_map_of_mem (f := Job.result before)
    (List.mem_map_of_mem (f := Job.plain) isJob)
  have bound := Nat.lt_of_lt_of_le (Nat.add_lt_add_left within job.target)
    (inside job isJob).target
  have lane : index < (job.plain.result before).2.length := by
    rwa [Job.result, List.length_map, List.length_range]
  refine (Buffer.getElem?_writeAll_of_disjoint disjoint.results isRun lane bound).trans ?_
  simp [Job.result, Job.plain, within]

theorem result_settled (disjoint : bucket.Disjoint) :
    Work.Settled bucket.works before (bucket.result before) where
  size_eq := size_result
  written := by
    intro work isWork
    obtain ⟨job, isJob, index, within, rfl⟩ := mem_works.mp isWork
    rw [Job.work_result]
    exact getElem?_result inside disjoint isJob within
  others := by
    intro offset free
    apply getElem?_result_of_free
    intro job isJob contained
    obtain ⟨above, below⟩ := Span.contains_iff.mp contained
    apply free (job.work (offset - job.target))
    · refine mem_works.mpr ⟨job, isJob, offset - job.target, ?_, rfl⟩
      simp only [Job.span] at above below
      omega
    · exact Nat.add_sub_cancel' above

theorem acts_result : bucket.Acts before (bucket.result before) where
  run := Execution.runBucket_ok inside
  size_eq := size_result
  others _ := getElem?_result_of_free
  sums disjoint _ isJob _ within := getElem?_result inside disjoint isJob within
  schedules := Work.exists_phased _
  anyOrder := by
    intro disjoint reads writes phased
    have within := works_inside inside
    obtain ⟨final, run, settled⟩ := phased.exists_run (fun work isWork => (within work isWork).2)
      (fun work isWork => (within work isWork).1) (targets_nodup disjoint)
    exact ⟨final, run, settled.unique (result_settled inside disjoint)⟩

end Inside

inductive Runs : Array F → List Bucket → Array F → Prop
  | done (flows : Array F) : Runs flows [] flows
  | act {before between after : Array F} {bucket : Bucket} {buckets : List Bucket}
      (first : bucket.Acts before between) (rest : Runs between buckets after) :
      Runs before (bucket :: buckets) after

theorem exists_runs {buckets : List Bucket}
    (inside : ∀ bucket ∈ buckets, ∀ job ∈ bucket.jobs, job.plain.Inside before.size) :
    ∃ after, buckets.foldlM Execution.runBucket before = .ok after ∧ Runs before buckets after := by
  induction buckets generalizing before with
  | nil => exact ⟨before, rfl, .done before⟩
  | cons bucket buckets ih =>
      rw [List.forall_mem_cons] at inside
      have acts := acts_result inside.1
      rw [← acts.size_eq] at inside
      obtain ⟨after, run, runs⟩ := ih inside.2
      refine ⟨after, ?_, .act acts runs⟩
      rw [List.foldlM_cons, acts.run]
      exact run

end Bucket

namespace Execution

structure Accumulates (reduction : Reduction) (flows : Array F) : Prop where
  ok_iff : (∃ after, accumulate reduction flows = .ok ⟨after, none⟩) ↔
    ∃ length, reduction.requiredLength = .ok length ∧ length ≤ flows.size
  refused : ∀ length, reduction.requiredLength = .ok length → flows.size < length →
    ∃ error, accumulate reduction flows = .ok ⟨flows, some error⟩
  unchanged : ∀ after error, accumulate reduction flows = .ok ⟨after, some error⟩ → after = flows
  runs : ∀ after, accumulate reduction flows = .ok ⟨after, none⟩ →
    Bucket.Runs flows reduction.buckets after

theorem accumulate_eq_some {error : ExecutionError} :
    accumulate reduction flows = .ok ⟨after, some error⟩ ↔
      checkJobs flows.size reduction.readJobs = .ok (.error error) ∧ flows = after := by
  cases checked : checkJobs flows.size reduction.readJobs with
  | error fault => simp [accumulate, checked]
  | ok verdict =>
      cases verdict with
      | error other => simp [accumulate, checked, and_comm]
      | ok passed =>
          rw [accumulate_of_checked checked, bind_eq_ok]
          simp

theorem accumulate_eq_none : accumulate reduction flows = .ok ⟨after, none⟩ ↔
    checkJobs flows.size reduction.readJobs = .ok (.ok ()) ∧
      reduction.buckets.foldlM runBucket flows = .ok after := by
  cases checked : checkJobs flows.size reduction.readJobs with
  | error fault => simp [accumulate, checked]
  | ok verdict =>
      cases verdict with
      | error other => simp [accumulate, checked]
      | ok passed =>
          rw [accumulate_of_checked checked, bind_eq_ok]
          simp

theorem exists_verdict (jobs : List Job) (length : Nat) :
    ∃ verdict, checkJobs length (jobs.map .ok) = .ok verdict := by
  induction jobs with
  | nil => exact ⟨_, rfl⟩
  | cons job jobs ih =>
      rw [List.map_cons, checkJobs, ok_bind]
      cases job.check length with
      | error error => exact ⟨_, rfl⟩
      | ok passed => exact ih

theorem exists_runs (checked : checkJobs flows.size reduction.readJobs = .ok (.ok ())) :
    ∃ after, accumulate reduction flows = .ok ⟨after, none⟩ ∧
      Bucket.Runs flows reduction.buckets after := by
  have inside := (Reduction.checkJobs_readJobs.mp checked).2
  rw [Reduction.jobs, List.forall_mem_flatMap] at inside
  obtain ⟨after, run, runs⟩ := Bucket.exists_runs inside
  exact ⟨after, accumulate_eq_none.mpr ⟨checked, run⟩, runs⟩

theorem accumulates (reduction : Reduction) (flows : Array F) : Accumulates reduction flows where
  ok_iff := by
    rw [← Reduction.checkJobs_eq_ok]
    constructor
    · rintro ⟨after, success⟩
      exact (accumulate_eq_none.mp success).1
    · intro checked
      obtain ⟨after, success, -⟩ := exists_runs checked
      exact ⟨after, success⟩
  refused length known short := by
    have readable := (Reduction.requiredLength_eq_ok.mp known).1
    obtain ⟨verdict, checked⟩ := exists_verdict reduction.jobs flows.size
    rw [← readable.readJobs_eq] at checked
    cases verdict with
    | error error => exact ⟨error, accumulate_eq_some.mpr ⟨checked, rfl⟩⟩
    | ok passed =>
        have inside := (Reduction.checkJobs_readJobs.mp checked).2
        rw [← Reduction.requiredLength_le known] at inside
        exact absurd short (Nat.not_lt_of_le inside)
  unchanged after error failed := (accumulate_eq_some.mp failed).2.symm
  runs after success := by
    obtain ⟨other, otherSuccess, runs⟩ := exists_runs (accumulate_eq_none.mp success).1
    cases success.symm.trans otherSuccess
    exact runs

end Execution
end CircuitPlan
