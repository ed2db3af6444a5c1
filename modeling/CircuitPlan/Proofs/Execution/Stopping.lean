import CircuitPlan.Execution.Forward
import CircuitPlan.Proofs.Buffer

namespace CircuitPlan

variable {F : Type} [Arithmetic F] {values params next after : Array F} {kind : LayerKind}
  {groupSize offset : Nat} {partition : Partition} {partitions : List Partition}
  {error : ExecutionError}

namespace Partition

theorem length_productLanes {reads : List Nat} {lanes : List F}
    (success : productLanes values groupSize reads = .ok lanes) : lanes.length = groupSize := by
  have width : (List.replicate groupSize (Arithmetic.zero : F)).length = groupSize :=
    List.length_replicate
  unfold productLanes at success
  generalize List.replicate groupSize (Arithmetic.zero : F) = sums at success width
  induction reads generalizing sums with
  | nil =>
      rw [List.foldlM_nil, pure_eq_ok] at success
      rwa [← success]
  | cons read rest ih =>
      rw [List.foldlM_cons, bind_eq_ok] at success
      obtain ⟨added, step, success⟩ := success
      obtain ⟨run, found, same⟩ := bind_eq_ok.mp step
      rw [pure_eq_ok] at same
      apply ih added success
      rw [← same, List.length_zipWith, width, Buffer.length_readRun found, Nat.min_self]

theorem length_evaluateRow {index : Nat} {lanes : List F}
    (success : partition.evaluateRow kind groupSize values params index = .ok lanes) :
    lanes.length = groupSize := by
  obtain ⟨row, -, success⟩ := bind_eq_ok.mp success
  cases kind with
  | product => exact length_productLanes success
  | sum =>
      cases present : partition.params with
      | none =>
          rw [present, pure_eq_ok] at success
          rw [← success, List.length_replicate]
      | some paramIndex =>
          rw [present] at success
          obtain ⟨paramRow, -, success⟩ := bind_eq_ok.mp success
          rw [← (mapM_eq_ok.mp success).length_eq, List.length_range]

theorem evaluate_shape {runs : List (Nat × List F)}
    (success : partition.evaluate kind groupSize values params = .ok runs) :
    runs.map (·.1) = partition.starts ∧ ∀ run ∈ runs, run.2.length = groupSize := by
  have shape (entry : Nat × Nat) (run : Nat × List F)
      (made : (do return (entry.1, ← partition.evaluateRow kind groupSize values params entry.2) :
        Except Fault (Nat × List F)) = .ok run) :
      run.1 = entry.1 ∧ run.2.length = groupSize := by
    obtain ⟨lanes, evaluated, same⟩ := bind_eq_ok.mp made
    rw [pure_eq_ok] at same
    subst same
    exact ⟨rfl, length_evaluateRow evaluated⟩
  constructor
  · rw [mapM_map_eq success fun entry run made => (shape entry run made).1, List.zipIdx_map_fst]
  · intro run isRun
    obtain ⟨entry, -, made⟩ := mapM_origin success isRun
    exact (shape entry run made).2

def Writes (groupSize : Nat) (partition : Partition) (offset : Nat) : Prop :=
  ∃ start ∈ partition.starts, start ≤ offset ∧ offset < start + groupSize

structure Ran (kind : LayerKind) (groupSize : Nat) (params : Array F) (partition : Partition)
    (values next : Array F) : Prop where
  passed : partition.check kind groupSize values.size params.size = .ok ()
  written : ∃ runs, partition.evaluate kind groupSize values params = .ok runs ∧
    Buffer.scatter values runs = .ok next

namespace Ran

variable (ran : partition.Ran kind groupSize params values next)
include ran

theorem size_eq : next.size = values.size := by
  obtain ⟨runs, -, scattered⟩ := ran.written
  rw [← (Buffer.scatter_eq_ok.mp scattered).2, Buffer.size_writeAll]

theorem kept (outside : ¬ partition.Writes groupSize offset) : next[offset]? = values[offset]? := by
  obtain ⟨runs, evaluated, scattered⟩ := ran.written
  obtain ⟨starts, lengths⟩ := evaluate_shape evaluated
  rw [← (Buffer.scatter_eq_ok.mp scattered).2]
  apply Buffer.getElem?_writeAll_of_not_covers
  rintro ⟨run, isRun, above, below⟩
  rw [lengths run isRun] at below
  exact outside ⟨run.1, starts ▸ List.mem_map_of_mem isRun, above, below⟩

end Ran

end Partition

namespace Execution

theorem runPartitions_cons_of_ran (ran : partition.Ran kind groupSize params values next) :
    runPartitions kind groupSize params (partition :: partitions) values =
      runPartitions kind groupSize params partitions next := by
  obtain ⟨runs, evaluated, scattered⟩ := ran.written
  rw [runPartitions, ran.passed]
  dsimp only
  rw [evaluated, ok_bind, scattered, ok_bind]

theorem runPartitions_cons_eq_ok {outcome : Outcome F} :
    runPartitions kind groupSize params (partition :: partitions) values = .ok outcome ↔
      (∃ error, partition.check kind groupSize values.size params.size = .error error ∧
        outcome = ⟨values, some error⟩) ∨
      ∃ next, partition.Ran kind groupSize params values next ∧
        runPartitions kind groupSize params partitions next = .ok outcome := by
  constructor
  · intro success
    rw [runPartitions] at success
    cases checked : partition.check kind groupSize values.size params.size with
    | error error =>
        rw [checked] at success
        exact .inl ⟨error, rfl, (Except.ok.inj success).symm⟩
    | ok passed =>
        rw [checked] at success
        obtain ⟨runs, evaluated, success⟩ := bind_eq_ok.mp success
        obtain ⟨next, scattered, success⟩ := bind_eq_ok.mp success
        exact .inr ⟨next, ⟨checked, runs, evaluated, scattered⟩, success⟩
  · rintro (⟨error, checked, rfl⟩ | ⟨next, ran, rest⟩)
    · rw [runPartitions, checked]
    · rwa [runPartitions_cons_of_ran ran]

theorem runPartitions_kept
    (success : runPartitions kind groupSize params partitions values = .ok ⟨after, none⟩) :
    after.size = values.size ∧ ∀ offset,
      (∀ partition ∈ partitions, ¬ partition.Writes groupSize offset) →
        after[offset]? = values[offset]? := by
  induction partitions generalizing values with
  | nil =>
      cases success
      exact ⟨rfl, fun _ _ => rfl⟩
  | cons partition partitions ih =>
      rcases runPartitions_cons_eq_ok.mp success with ⟨error, -, stopped⟩ | ⟨next, ran, rest⟩
      · cases stopped
      · obtain ⟨size_eq, kept⟩ := ih rest
        refine ⟨size_eq.trans ran.size_eq, fun offset outside => ?_⟩
        rw [List.forall_mem_cons] at outside
        rw [kept offset outside.2, ran.kept outside.1]

theorem runPartitions_eq_stopped :
    runPartitions kind groupSize params partitions values = .ok ⟨after, some error⟩ ↔
      ∃ done failed rest, partitions = done ++ failed :: rest ∧
        runPartitions kind groupSize params done values = .ok ⟨after, none⟩ ∧
        failed.check kind groupSize values.size params.size = .error error := by
  induction partitions generalizing values with
  | nil =>
      constructor
      · intro stopped
        cases stopped
      · rintro ⟨done, failed, rest, split, -⟩
        simp at split
  | cons partition partitions ih =>
      rw [runPartitions_cons_eq_ok]
      constructor
      · rintro (⟨other, checked, stopped⟩ | ⟨next, ran, later⟩)
        · cases stopped
          exact ⟨[], partition, partitions, rfl, rfl, checked⟩
        · obtain ⟨done, failed, rest, rfl, success, checked⟩ := ih.mp later
          rw [ran.size_eq] at checked
          exact ⟨partition :: done, failed, rest, rfl,
            runPartitions_cons_eq_ok.mpr (.inr ⟨next, ran, success⟩), checked⟩
      · rintro ⟨done, failed, rest, split, success, checked⟩
        cases done with
        | nil =>
            cases split
            cases success
            exact .inl ⟨error, checked, rfl⟩
        | cons first done =>
            cases split
            rcases runPartitions_cons_eq_ok.mp success with
              ⟨other, -, stopped⟩ | ⟨next, ran, success⟩
            · cases stopped
            · rw [← ran.size_eq] at checked
              exact .inr ⟨next, ran, ih.mpr ⟨done, failed, rest, rfl, success, checked⟩⟩

/-- A layer that stopped at the partition `failed`, after it had run the partitions `done`. -/
structure Stopped (layer : InnerLayer) (values params after : Array F) (error : ExecutionError)
    (done : List Partition) (failed : Partition) : Prop where
  before : ∃ rest, layer.partitions = done ++ failed :: rest
  ran : forwardLayer values params { layer with partitions := done } = .ok ⟨after, none⟩
  failed : failed.check layer.kind layer.groupSize values.size params.size = .error error
  size_eq : after.size = values.size
  kept : ∀ offset, (∀ partition ∈ done, ¬ partition.Writes layer.groupSize offset) →
    after[offset]? = values[offset]?
  unchanged : done = [] → after = values

theorem forwardLayer_eq_stopped (layer : InnerLayer) (values params after : Array F)
    (error : ExecutionError) :
    forwardLayer values params layer = .ok ⟨after, some error⟩ ↔
      ∃ done failed, Stopped layer values params after error done failed := by
  rw [forwardLayer, runPartitions_eq_stopped]
  constructor
  · rintro ⟨done, failed, rest, split, success, checked⟩
    obtain ⟨size_eq, kept⟩ := runPartitions_kept success
    refine ⟨done, failed, ⟨rest, split⟩, success, checked, size_eq, kept, ?_⟩
    rintro rfl
    cases success
    rfl
  · rintro ⟨done, failed, stopped⟩
    obtain ⟨rest, split⟩ := stopped.before
    exact ⟨done, failed, rest, split, stopped.ran, stopped.failed⟩

def torn : InnerLayer :=
  let copying (start : Nat) : Partition :=
    { width := 1, starts := [start], reads := ⟨1, 1, [0]⟩, params := none
      children := [], parents := .empty, parentParams := none }
  { kind := .product, depth := 1, groupSize := 1, nodes := []
    partitions := [copying 1, copying 5], numNodes := 2, numEdges := 2 }

theorem forwardLayer_torn :
    forwardLayer #[1, 2] #[] torn =
      .ok ⟨#[1, (1 : Float32)], some (.outside .nodeValue 5 1 2)⟩ ∧
    (#[1, 1] : Array Float32) ≠ #[1, 2] := by
  constructor
  · rfl
  · decide +kernel

end Execution
end CircuitPlan
