import CircuitPlan.Proofs.Execution.Interleaving

namespace CircuitPlan

variable {F : Type}

def Access.isRead : Access → Bool
  | read .. => true
  | write _ => false

namespace Work

structure Phased (works : List (Work F)) (reads writes : List Access) : Prop where
  complete : (reads ++ writes).Perm (accesses works)
  reads : ∀ access ∈ reads, access.isRead = true
  writes : ∀ access ∈ writes, access.isRead = false

theorem exists_phased (works : List (Work F)) : ∃ reads writes, Phased works reads writes := by
  refine ⟨(accesses works).filter Access.isRead,
    (accesses works).filter fun access => !access.isRead,
    List.filter_append_perm _ _, ?_, ?_⟩
  · exact fun access member => (List.mem_filter.mp member).2
  · intro access member
    simpa using (List.mem_filter.mp member).2

variable [Arithmetic F] {works : List (Work F)} {initial : Array F} {progress : Progress F}
  {done reads writes : List Access}

theorem Holds.runReads (holds : Holds works initial done progress)
    (untouched : progress.values = initial)
    (inside : ∀ work ∈ works, ∀ read ∈ work.reads, read < initial.size)
    (possible : ∀ access ∈ reads, access ∈ accesses works)
    (areReads : ∀ access ∈ reads, access.isRead = true) :
    ∃ next, Access.runAll works progress reads = some next ∧
      Holds works initial (done ++ reads) next := by
  induction reads generalizing done progress with
  | nil => exact ⟨progress, rfl, by rwa [List.append_nil]⟩
  | cons access reads ih =>
      rw [List.forall_mem_cons] at possible areReads
      cases access with
      | write unit => cases areReads.1
      | read unit place =>
          have fresh : ∀ work ∈ works, ∀ read ∈ work.reads,
              progress.values[read]? = some (Buffer.number initial read) := by
            intro work isWork read isRead
            have bound := inside work isWork read isRead
            rw [untouched, Buffer.number, Array.getElem?_eq_getElem bound, Option.getD_some]
          obtain ⟨next, step, same, nextHolds⟩ := holds.read possible.1 fresh
          obtain ⟨final, run, finalHolds⟩ :=
            ih nextHolds (same.trans untouched) possible.2 areReads.2
          refine ⟨final, ?_, by simpa using finalHolds⟩
          rw [Access.runAll, List.foldlM_cons, step]
          exact run

theorem Holds.runWrites (holds : Holds works initial done progress)
    (targets : ∀ work ∈ works, work.target < initial.size)
    (distinct : (works.map (·.target)).Nodup)
    (ready : ∀ unit place, .read unit place ∈ accesses works → .read unit place ∈ done)
    (possible : ∀ access ∈ writes, access ∈ accesses works)
    (areWrites : ∀ access ∈ writes, access.isRead = false) :
    ∃ next, Access.runAll works progress writes = some next ∧
      Holds works initial (done ++ writes) next := by
  induction writes generalizing done progress with
  | nil => exact ⟨progress, rfl, by rwa [List.append_nil]⟩
  | cons access writes ih =>
      rw [List.forall_mem_cons] at possible areWrites
      cases access with
      | read unit place => cases areWrites.1
      | write unit =>
          obtain ⟨next, step, nextHolds⟩ :=
            holds.write targets distinct possible.1 (ready unit)
          obtain ⟨final, run, finalHolds⟩ := ih nextHolds
            (fun unit place isRead => List.mem_append_left _ (ready unit place isRead))
            possible.2 areWrites.2
          refine ⟨final, ?_, by simpa using finalHolds⟩
          rw [Access.runAll, List.foldlM_cons, step]
          exact run

theorem Phased.exists_run (phased : Phased works reads writes)
    (inside : ∀ work ∈ works, ∀ read ∈ work.reads, read < initial.size)
    (targets : ∀ work ∈ works, work.target < initial.size)
    (distinct : (works.map (·.target)).Nodup) :
    ∃ final, Access.runAll works (.start initial) (reads ++ writes) = some final ∧
      Settled works initial final.values := by
  have possible : ∀ access ∈ reads ++ writes, access ∈ accesses works :=
    fun access member => phased.complete.subset member
  rw [List.forall_mem_append] at possible
  -- A read is not among the writes, so the first phase has it.
  have ready (unit place : Nat) (isRead : .read unit place ∈ accesses works) :
      .read unit place ∈ reads := by
    rcases List.mem_append.mp (phased.complete.symm.subset isRead) with early | late
    · exact early
    · cases phased.writes _ late
  obtain ⟨middle, first, middleHolds⟩ :=
    (Holds.start works initial).runReads rfl inside possible.1 phased.reads
  obtain ⟨final, second, holds⟩ :=
    middleHolds.runWrites targets distinct ready possible.2 phased.writes
  refine ⟨final, ?_, holds.settled phased.complete⟩
  rw [Access.runAll] at first second ⊢
  rw [List.foldlM_append, first]
  exact second

end Work
end CircuitPlan
