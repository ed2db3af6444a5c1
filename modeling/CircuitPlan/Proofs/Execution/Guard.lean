import CircuitPlan.Proofs.Execution.Partition
import CircuitPlan.Proofs.Execution.Stopping

namespace CircuitPlan

variable {F : Type} [Arithmetic F] {values params : Array F} {kind : LayerKind}
  {groupSize width index : Nat} {row : Row} {rows : List Row} {partition : Partition}
  {partitions : List Partition} {fault : Fault}

namespace Partition

def Covers (kind : LayerKind) (groupSize : Nat) (partition : Partition) : Prop :=
  kind = .sum → 0 < groupSize → ∀ paramIndex, partition.params = some paramIndex →
    ∀ index < partition.starts.length,
      (partition.reads.valid index).length ≤ (paramIndex.valid index).length

namespace Rectangular

variable (rectangular : partition.Rectangular kind width rows)
include rectangular

theorem covers_iff :
    partition.Covers kind groupSize ↔ ∀ row ∈ rows, row.Covered kind groupSize := by
  constructor
  · intro covers row isRow isSum positive
    obtain ⟨paramIndex, present, made⟩ := rectangular.params isSum
    obtain ⟨index, found⟩ := List.getElem?_of_mem isRow
    have inside : index < partition.starts.length := by
      rw [rectangular.starts_eq, List.length_map]
      exact (List.getElem?_eq_some_iff.mp found).1
    have lengths := covers isSum positive paramIndex present index inside
    rwa [PaddedMatrix.valid_eq rectangular.reads found, PaddedMatrix.valid_eq made found] at lengths
  · intro covered isSum positive paramIndex present index inside
    obtain ⟨same, alsoPresent, made⟩ := rectangular.params isSum
    obtain rfl := Option.some.inj (present.symm.trans alsoPresent)
    rw [rectangular.starts_eq, List.length_map] at inside
    have found := List.getElem?_eq_getElem inside
    rw [PaddedMatrix.valid_eq rectangular.reads found, PaddedMatrix.valid_eq made found]
    exact covered _ (List.getElem_mem inside) isSum positive

theorem exists_ran (small : groupSize < UInt32.size) {values params : Array F}
    (passed : partition.check kind groupSize values.size params.size = .ok ())
    (covers : partition.Covers kind groupSize) :
    ∃ next, partition.Ran kind groupSize params values next := by
  have checked := (rectangular.check_eq_ok small).mp passed
  have evaluated := rectangular.evaluate_eq checked (rectangular.covers_iff.mp covers)
  exact ⟨_, passed, _, evaluated, scatter_results fun row isRow => (checked row isRow).target⟩

end Rectangular

section Short

variable (narrow : params.size ≤ padding)
include narrow

theorem sumLane_short (readsFit : row.reads.length ≤ width)
    (paramsFit : row.params.length ≤ width ∧ padding ∉ row.params) (positive : 0 < groupSize)
    (checked : row.Checked .sum groupSize values.size params.size)
    (short : row.params.length < row.reads.length) :
    sumLane values params (row.reads.zip (PaddedMatrix.padRow width row.params)) 0 =
      .error (.indexOutOfRange padding params.size) := by
  have padded (child : Nat) : edgeTerm values params 0 (child, padding) =
      .error (.indexOutOfRange padding params.size) := edgeTerm_eq_error narrow
  have terms : (row.reads.zip (PaddedMatrix.padRow width row.params)).mapM
      (edgeTerm values params 0) = .error (.indexOutOfRange padding params.size) := by
    apply mapM_eq_error
    case each =>
      rintro ⟨child, start⟩ inZip
      obtain ⟨isRead, inRow⟩ := List.of_mem_zip inZip
      rcases PaddedMatrix.mem_padRow.mp inRow with isParam | ⟨rfl, -⟩
      · have childInside : child < values.size := checked.reads child isRead
        have paramInside : start + 0 < params.size :=
          Nat.lt_of_lt_of_le (Nat.add_lt_add_left positive _) (checked.params rfl start isParam)
        exact .inl ⟨_, edgeTerm_eq_ok childInside paramInside⟩
      · exact .inr (padded child)
    case fails =>
      have beyond : (PaddedMatrix.padRow width row.params)[row.params.length]? = some padding :=
        (PaddedMatrix.padRow_eq_padding paramsFit.1 paramsFit.2).mpr ⟨Nat.le_refl _, by omega⟩
      have entry : (row.reads.zip (PaddedMatrix.padRow width row.params))[row.params.length]? =
          some (row.reads[row.params.length], padding) :=
        List.getElem?_zip_eq_some.mpr ⟨List.getElem?_eq_getElem short, beyond⟩
      exact ⟨_, List.mem_of_getElem? entry, padded _⟩
  rw [sumLane_eq_bind, terms, error_bind]

namespace Rectangular

variable (rectangular : partition.Rectangular kind width rows)
include rectangular

theorem evaluateRow_short (found : rows[index]? = some row)
    (checked : row.Checked kind groupSize values.size params.size)
    (short : ¬ row.Covered kind groupSize) :
    partition.evaluateRow kind groupSize values params index =
      .error (.indexOutOfRange padding params.size) := by
  simp only [Row.Covered, Classical.not_imp, Nat.not_le] at short
  obtain ⟨rfl, positive, short⟩ := short
  obtain ⟨paramIndex, present, made⟩ := rectangular.params rfl
  have isRow := List.mem_of_getElem? found
  obtain ⟨readsFit, readsFree⟩ := PaddedMatrix.row_fits rectangular.reads isRow
  have lane := sumLane_short narrow readsFit (PaddedMatrix.row_fits made isRow) positive checked
    short
  -- The first lane of the row already meets the padding.
  obtain ⟨lanes, rfl⟩ := Nat.exists_eq_add_one_of_ne_zero (Nat.ne_of_gt positive)
  rw [evaluateRow, PaddedMatrix.readRow_eq rectangular.reads found, present]
  simp only [ok_bind, PaddedMatrix.takeWhile_padRow readsFree]
  rw [PaddedMatrix.readRow_eq made found, ok_bind, List.range_succ_eq_map, List.mapM_cons, lane,
    error_bind]

theorem evaluate_short (small : groupSize < UInt32.size)
    (passed : partition.check kind groupSize values.size params.size = .ok ())
    (short : ¬ partition.Covers kind groupSize) :
    partition.evaluate kind groupSize values params =
      .error (.indexOutOfRange padding params.size) := by
  have checked := (rectangular.check_eq_ok small).mp passed
  rw [rectangular.covers_iff] at short
  push Not at short
  obtain ⟨brief, isBrief, uncovered⟩ := short
  rw [evaluate, rectangular.starts_eq, List.zipIdx_map, List.mapM_map]
  have broken (row : Row) (index : Nat) (found : rows[index]? = some row)
      (uncovered : ¬ row.Covered kind groupSize) :
      (do return (row.start, ← partition.evaluateRow kind groupSize values params index) :
        Except Fault (Nat × List F)) = .error (.indexOutOfRange padding params.size) := by
    have isRow := List.mem_of_getElem? found
    rw [rectangular.evaluateRow_short narrow found (checked row isRow) uncovered, error_bind]
  apply mapM_eq_error
  case each =>
    rintro ⟨row, index⟩ member
    have found := List.mem_zipIdx_iff_getElem?.mp member
    by_cases covered : row.Covered kind groupSize
    · left
      have isRow := List.mem_of_getElem? found
      dsimp only [Function.comp_apply, Prod.map]
      rw [id_eq, rectangular.evaluateRow_eq found (checked row isRow) covered]
      exact ⟨_, rfl⟩
    · exact .inr (broken row index found covered)
  case fails =>
    obtain ⟨index, found⟩ := List.getElem?_of_mem isBrief
    have isEntry : (brief, index) ∈ rows.zipIdx := List.mem_zipIdx_iff_getElem?.mpr found
    exact ⟨(brief, index), isEntry, broken brief index found uncovered⟩

end Rectangular

end Short

end Partition

theorem exists_split_cons {α : Type} {passes stops : α → Prop} {x : α} {xs : List α} :
    (∃ done failed rest, x :: xs = done ++ failed :: rest ∧ (∀ y ∈ done, passes y) ∧
      stops failed) ↔
    stops x ∨ passes x ∧ ∃ done failed rest, xs = done ++ failed :: rest ∧
      (∀ y ∈ done, passes y) ∧ stops failed := by
  constructor
  · rintro ⟨done, failed, rest, split, passed, stopped⟩
    cases done with
    | nil =>
        cases split
        exact .inl stopped
    | cons first done =>
        cases split
        rw [List.forall_mem_cons] at passed
        exact .inr ⟨passed.1, done, failed, rest, rfl, passed.2, stopped⟩
  · rintro (stopped | ⟨first, done, failed, rest, rfl, passed, stopped⟩)
    · exact ⟨[], x, xs, rfl, nofun, stopped⟩
    · exact ⟨x :: done, failed, rest, rfl, List.forall_mem_cons.mpr ⟨first, passed⟩, stopped⟩

namespace Execution

theorem runPartitions_cons_of_fault
    (passed : partition.check kind groupSize values.size params.size = .ok ())
    (faulty : partition.evaluate kind groupSize values params = .error fault) :
    runPartitions kind groupSize params (partition :: partitions) values = .error fault := by
  rw [runPartitions, passed]
  dsimp only
  rw [faulty, error_bind]

section Run

variable (rectangular : ∀ partition ∈ partitions,
    ∃ rows, partition.Rectangular kind partition.width rows)
  (small : groupSize < UInt32.size)
include rectangular small

theorem exists_runPartitions (covers : ∀ partition ∈ partitions, partition.Covers kind groupSize) :
    ∃ outcome, runPartitions kind groupSize params partitions values = .ok outcome := by
  induction partitions generalizing values with
  | nil => exact ⟨_, rfl⟩
  | cons partition partitions ih =>
      rw [List.forall_mem_cons] at rectangular covers
      cases checked : partition.check kind groupSize values.size params.size with
      | error error => exact ⟨_, runPartitions_cons_eq_ok.mpr (.inl ⟨error, checked, rfl⟩)⟩
      | ok passed =>
          obtain ⟨rows, shape⟩ := rectangular.1
          obtain ⟨next, ran⟩ := shape.exists_ran small checked covers.1
          obtain ⟨outcome, success⟩ :
              ∃ outcome, runPartitions kind groupSize params partitions next = .ok outcome :=
            ih rectangular.2 covers.2
          exact ⟨outcome, runPartitions_cons_eq_ok.mpr (.inr ⟨next, ran, success⟩)⟩

theorem runPartitions_eq_error (narrow : params.size ≤ padding) :
    runPartitions kind groupSize params partitions values = .error fault ↔
      fault = .indexOutOfRange padding params.size ∧
      ∃ done failed rest, partitions = done ++ failed :: rest ∧
        (∀ partition ∈ done, partition.check kind groupSize values.size params.size = .ok () ∧
          partition.Covers kind groupSize) ∧
        failed.check kind groupSize values.size params.size = .ok () ∧
        ¬ failed.Covers kind groupSize := by
  induction partitions generalizing values with
  | nil =>
      constructor
      · intro failed
        cases failed
      · rintro ⟨-, done, failed, rest, split, -⟩
        simp at split
  | cons partition partitions ih =>
      rw [List.forall_mem_cons] at rectangular
      obtain ⟨rows, shape⟩ := rectangular.1
      rw [exists_split_cons]
      cases checked : partition.check kind groupSize values.size params.size with
      | error error =>
          have stopped : runPartitions kind groupSize params (partition :: partitions) values =
              .ok ⟨values, some error⟩ := runPartitions_cons_eq_ok.mpr (.inl ⟨error, checked, rfl⟩)
          simp [stopped]
      | ok passed =>
          by_cases covers : partition.Covers kind groupSize
          · obtain ⟨next, ran⟩ := shape.exists_ran small checked covers
            rw [runPartitions_cons_of_ran ran, ih rectangular.2, ran.size_eq]
            simp [covers]
          · have faulty := shape.evaluate_short narrow small checked covers
            rw [runPartitions_cons_of_fault checked faulty]
            simp [covers, eq_comm]

end Run

/-- What the checks of a layer are good for, whatever its buffers hold. -/
structure Guarded (layer : InnerLayer) (values params : Array F) : Prop where
  inside : ∀ partition ∈ layer.partitions, partition.Covers layer.kind layer.groupSize →
    partition.check layer.kind layer.groupSize values.size params.size = .ok () →
      ∃ next, partition.Ran layer.kind layer.groupSize params values next
  completes : (∀ partition ∈ layer.partitions, partition.Covers layer.kind layer.groupSize) →
    ∃ outcome, forwardLayer values params layer = .ok outcome
  faults : params.size ≤ padding → ∀ fault, forwardLayer values params layer = .error fault ↔
    fault = .indexOutOfRange padding params.size ∧
    ∃ done failed rest, layer.partitions = done ++ failed :: rest ∧
      (∀ partition ∈ done,
        partition.check layer.kind layer.groupSize values.size params.size = .ok () ∧
          partition.Covers layer.kind layer.groupSize) ∧
      failed.check layer.kind layer.groupSize values.size params.size = .ok () ∧
      ¬ failed.Covers layer.kind layer.groupSize

theorem forwardLayer_guarded {layer : InnerLayer}
    (rectangular : ∀ partition ∈ layer.partitions,
      ∃ rows, partition.Rectangular layer.kind partition.width rows)
    (small : layer.groupSize < UInt32.size) (values params : Array F) :
    Guarded layer values params where
  inside partition isPartition covers passed := by
    obtain ⟨rows, shape⟩ := rectangular partition isPartition
    exact shape.exists_ran small passed covers
  completes := exists_runPartitions rectangular small
  faults narrow _ := runPartitions_eq_error rectangular small narrow

def oneRead (params : List Nat) : InnerLayer :=
  { kind := .sum, depth := 1, groupSize := 1, nodes := []
    partitions := [{ width := 1, starts := [0], reads := ⟨1, 1, [0]⟩
                     params := some ⟨1, 1, PaddedMatrix.padRow 1 params⟩
                     children := [], parents := .empty, parentParams := none }]
    numNodes := 1, numEdges := 1 }

theorem oneRead_rectangular (params : List Nat) (fits : params.length ≤ 1 ∧ padding ∉ params) :
    ∀ partition ∈ (oneRead params).partitions,
      ∃ rows, partition.Rectangular .sum partition.width rows := by
  intro partition isPartition
  obtain rfl := List.mem_singleton.mp isPartition
  refine ⟨[⟨0, [0], params, []⟩], rfl, rfl, fun _ => ⟨_, rfl, ?_⟩⟩
  exact PaddedMatrix.ofRows_eq_ok.mpr ⟨by simpa using fits, by simp⟩

theorem oneRead_guarded : (∀ partition ∈ (oneRead [0]).partitions,
      ∃ rows, partition.Rectangular .sum partition.width rows) ∧
    (oneRead [0]).groupSize < UInt32.size ∧ Guarded (oneRead [0]) #[(0 : Float32)] #[1] :=
  have rectangular := oneRead_rectangular [0] (by decide)
  ⟨rectangular, by decide, forwardLayer_guarded rectangular (by decide) _ _⟩

theorem oneRead_faults : (∀ partition ∈ (oneRead []).partitions,
      (∃ rows, partition.Rectangular .sum partition.width rows) ∧
      partition.check .sum 1 1 1 = .ok ()) ∧
    forwardLayer #[(0 : Float32)] #[0.5] (oneRead []) =
      .error (.indexOutOfRange 4294967295 1) := by
  constructor
  · intro partition isPartition
    refine ⟨oneRead_rectangular [] (by decide) partition isPartition, ?_⟩
    obtain rfl := List.mem_singleton.mp isPartition
    rfl
  · rfl

end Execution

end CircuitPlan
