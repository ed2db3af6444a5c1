import CircuitPlan.Execution.Forward
import CircuitPlan.Proofs.Buffer
import CircuitPlan.Proofs.Layer.Matrices

namespace CircuitPlan

variable {F : Type} [Arithmetic F] {values other params : Array F} {kind : LayerKind}
  {groupSize width : Nat} {row : Row} {rows : List Row} {partition : Partition}

namespace Row

def lane (kind : LayerKind) (values params : Array F) (row : Row) (lane : Nat) : F :=
  match kind with
  | .product => Buffer.sumAt values row.reads lane
  | .sum => Arithmetic.logSumExp ((row.reads.zip row.params).map fun (child, start) =>
      Arithmetic.add (Arithmetic.log (Buffer.number params (start + lane)))
        (Buffer.number values child))

def result (kind : LayerKind) (groupSize : Nat) (values params : Array F) (row : Row) :
    Nat × List F :=
  (row.start, (List.range groupSize).map (row.lane kind values params))

structure Fits (kind : LayerKind) (groupSize numValues numParams : Nat) (row : Row) : Prop where
  target : row.start + groupSize ≤ numValues
  reads : ∀ read ∈ row.reads, read + Partition.childSpan kind groupSize ≤ numValues
  aligned : kind = .sum → row.params.length = row.reads.length
  params : kind = .sum → ∀ start ∈ row.params, start + groupSize ≤ numParams

/-- What a check sees of a row, which is every offset that is not padding. -/
structure Checked (kind : LayerKind) (groupSize numValues numParams : Nat) (row : Row) :
    Prop where
  target : row.start + groupSize ≤ numValues
  reads : ∀ read ∈ row.reads, read + Partition.childSpan kind groupSize ≤ numValues
  params : kind = .sum → ∀ start ∈ row.params, start + groupSize ≤ numParams

/-- Whether every read of a sum row has a parameter offset of its own. A row without lanes reads
nothing. -/
def Covered (kind : LayerKind) (groupSize : Nat) (row : Row) : Prop :=
  kind = .sum → 0 < groupSize → row.reads.length ≤ row.params.length

theorem Fits.checked {numValues numParams : Nat}
    (fits : row.Fits kind groupSize numValues numParams) :
    row.Checked kind groupSize numValues numParams :=
  ⟨fits.target, fits.reads, fits.params⟩

theorem Fits.covered {numValues numParams : Nat}
    (fits : row.Fits kind groupSize numValues numParams) :
    row.Covered kind groupSize :=
  fun isSum _ => Nat.le_of_eq (fits.aligned isSum).symm

theorem result_congr
    (same : ∀ read ∈ row.reads, ∀ index < Partition.childSpan kind groupSize,
      values[read + index]? = other[read + index]?) :
    row.result kind groupSize values params = row.result kind groupSize other params := by
  unfold result
  congr 1
  apply List.map_congr_left
  intro lane member
  unfold Row.lane
  cases kind with
  | product =>
      exact Buffer.sumAt_congr fun read isRead => same read isRead lane (List.mem_range.mp member)
  | sum =>
      dsimp only
      congr 1
      apply List.map_congr_left
      rintro ⟨child, start⟩ inZip
      have read := same child (List.of_mem_zip inZip).1 0 Nat.one_pos
      rw [Nat.add_zero] at read
      rw [Buffer.number, Buffer.number, Buffer.number, read]

def Misses (kind : LayerKind) (groupSize : Nat) (reader writer : Row) : Prop :=
  ∀ read ∈ reader.reads, ∀ index < Partition.childSpan kind groupSize,
    ¬ (writer.start ≤ read + index ∧ read + index < writer.start + groupSize)

theorem result_writeAll {current : Array F} {writers : List Row}
    (apart : ∀ writer ∈ writers, row.Misses kind groupSize writer) :
    row.result kind groupSize
        (Buffer.writeAll current (writers.map (Row.result kind groupSize values params))) params =
      row.result kind groupSize current params := by
  apply result_congr
  intro read isRead index within
  apply Buffer.getElem?_writeAll_of_not_covers
  rintro ⟨run, runMember, above, below⟩
  obtain ⟨writer, isWriter, rfl⟩ := List.mem_map.mp runMember
  simp only [result, List.length_map, List.length_range] at above below
  exact apart writer isWriter read isRead index within ⟨above, below⟩

end Row

namespace Partition

structure Rectangular (kind : LayerKind) (width : Nat) (rows : List Row) (partition : Partition) :
    Prop where
  starts_eq : partition.starts = rows.map (·.start)
  reads : PaddedMatrix.ofRows (rows.map (·.reads)) width = .ok partition.reads
  params : kind = .sum → ∃ index, partition.params = some index ∧
    PaddedMatrix.ofRows (rows.map (·.params)) width = .ok index

theorem Made.rectangular (made : Made kind width rows partition) :
    partition.Rectangular kind width rows :=
  ⟨made.starts_eq, made.reads, made.exists_params⟩

theorem checkEntries_eq_ok {matrix : PaddedMatrix} {entriesOf : Row → List Nat}
    {buffer : BufferName} {length span : Nat}
    (made : PaddedMatrix.ofRows (rows.map entriesOf) width = .ok matrix) :
    (entries matrix).forM (checkBounds buffer length span) = .ok () ↔
      ∀ row ∈ rows, ∀ offset ∈ entriesOf row, offset + span ≤ length := by
  rw [entries, PaddedMatrix.entries_eq made, forM_eq_ok, List.forall_mem_flatten,
    List.forall_mem_map]
  exact forall₂_congr fun _ _ => forall₂_congr fun _ _ => require_eq_ok

def edgeTerm (values params : Array F) (lane : Nat) (edge : Nat × Nat) : Except Fault F := do
  let param ← Buffer.read params (edge.2 + lane)
  let value ← Buffer.read values edge.1
  return Arithmetic.add (Arithmetic.log param) value

theorem edgeTerm_eq_ok {lane : Nat} {edge : Nat × Nat} (childInside : edge.1 < values.size)
    (paramInside : edge.2 + lane < params.size) :
    edgeTerm values params lane edge =
      .ok (Arithmetic.add (Arithmetic.log (Buffer.number params (edge.2 + lane)))
        (Buffer.number values edge.1)) := by
  rw [edgeTerm, Buffer.read_eq_ok paramInside, Buffer.read_eq_ok childInside]
  rfl

theorem edgeTerm_eq_error {lane : Nat} {edge : Nat × Nat}
    (outside : params.size ≤ edge.2 + lane) :
    edgeTerm values params lane edge = .error (.indexOutOfRange (edge.2 + lane) params.size) := by
  rw [edgeTerm, Buffer.read_eq_error outside, error_bind]

theorem sumLane_eq_bind (values params : Array F) (edges : List (Nat × Nat)) (lane : Nat) :
    sumLane values params edges lane = do
      return Arithmetic.logSumExp (← edges.mapM (edgeTerm values params lane)) := rfl

theorem sumLane_eq {lane : Nat} (edges : List (Nat × Nat))
    (inside : ∀ edge ∈ edges, edge.1 < values.size ∧ edge.2 + lane < params.size) :
    sumLane values params edges lane = .ok (Arithmetic.logSumExp (edges.map fun edge =>
      Arithmetic.add (Arithmetic.log (Buffer.number params (edge.2 + lane)))
        (Buffer.number values edge.1))) := by
  rw [sumLane_eq_bind, mapM_ok fun edge member =>
    edgeTerm_eq_ok (inside edge member).1 (inside edge member).2]
  rfl

namespace Rectangular

variable (rectangular : partition.Rectangular kind width rows)
include rectangular

theorem check_eq_ok {numValues numParams : Nat} (small : groupSize < UInt32.size) :
    partition.check kind groupSize numValues numParams = .ok () ↔
      ∀ row ∈ rows, row.Checked kind groupSize numValues numParams := by
  have targets : partition.starts.forM (checkBounds .nodeValue numValues groupSize) = .ok () ↔
      ∀ row ∈ rows, row.start + groupSize ≤ numValues := by
    rw [rectangular.starts_eq, forM_eq_ok, List.forall_mem_map]
    exact forall₂_congr fun _ _ => require_eq_ok
  unfold check
  rw [Nat.mod_eq_of_lt small, unit_bind_eq_ok, unit_bind_eq_ok, targets,
    checkEntries_eq_ok rectangular.reads]
  cases kind with
  | product =>
      constructor
      · rintro ⟨target, read, -⟩ row isRow
        exact ⟨target row isRow, read row isRow, nofun⟩
      · intro checked
        exact ⟨fun row isRow => (checked row isRow).target,
          fun row isRow => (checked row isRow).reads, rfl⟩
  | sum =>
      obtain ⟨index, present, indexOk⟩ := rectangular.params rfl
      rw [present]
      dsimp only
      rw [checkEntries_eq_ok indexOk]
      constructor
      · rintro ⟨target, read, param⟩ row isRow
        exact ⟨target row isRow, read row isRow, fun _ => param row isRow⟩
      · intro checked
        exact ⟨fun row isRow => (checked row isRow).target,
          fun row isRow => (checked row isRow).reads,
          fun row isRow => (checked row isRow).params rfl⟩

theorem evaluateRow_eq {index : Nat} (found : rows[index]? = some row)
    (checked : row.Checked kind groupSize values.size params.size)
    (covered : row.Covered kind groupSize) :
    partition.evaluateRow kind groupSize values params index =
      .ok (row.result kind groupSize values params).2 := by
  have readsFree := (PaddedMatrix.row_fits rectangular.reads (List.mem_of_getElem? found)).2
  rw [evaluateRow, PaddedMatrix.readRow_eq rectangular.reads found]
  simp only [ok_bind, PaddedMatrix.takeWhile_padRow readsFree]
  cases kind with
  | product => exact Buffer.foldlM_readRun checked.reads
  | sum =>
      obtain ⟨matrix, present, matrixOk⟩ := rectangular.params rfl
      rw [present]
      dsimp only
      rw [PaddedMatrix.readRow_eq matrixOk found]
      rcases Nat.eq_zero_or_pos groupSize with rfl | positive
      · rfl
      simp only [ok_bind, PaddedMatrix.zip_padRow (covered rfl positive)]
      apply mapM_ok
      intro lane member
      apply sumLane_eq
      rintro ⟨child, start⟩ inZip
      obtain ⟨isRead, isParam⟩ := List.of_mem_zip inZip
      have laneBound := List.mem_range.mp member
      have paramBound := checked.params rfl start isParam
      exact ⟨checked.reads child isRead, by omega⟩

theorem evaluate_eq (checked : ∀ row ∈ rows, row.Checked kind groupSize values.size params.size)
    (covered : ∀ row ∈ rows, row.Covered kind groupSize) :
    partition.evaluate kind groupSize values params =
      .ok (rows.map (Row.result kind groupSize values params)) := by
  have positions : rows.map (Row.result kind groupSize values params) =
      rows.zipIdx.map fun entry => Row.result kind groupSize values params entry.1 := by
    conv_lhs => rw [← List.zipIdx_map_fst 0 rows, List.map_map]
    rfl
  rw [evaluate, rectangular.starts_eq, positions, List.zipIdx_map, mapM_eq_ok,
    List.forall₂_map_left_iff, List.forall₂_map_right_iff, List.forall₂_same]
  rintro ⟨row, index⟩ member
  have found := List.mem_zipIdx_iff_getElem?.mp member
  have isRow := List.mem_of_getElem? found
  dsimp only [Prod.map]
  rw [id_eq, rectangular.evaluateRow_eq found (checked row isRow) (covered row isRow)]
  rfl

end Rectangular

theorem scatter_results {current : Array F}
    (inside : ∀ row ∈ rows, row.start + groupSize ≤ current.size) :
    Buffer.scatter current (rows.map (Row.result kind groupSize values params)) =
      .ok (Buffer.writeAll current (rows.map (Row.result kind groupSize values params))) := by
  apply Buffer.scatter_ok
  rw [List.forall_mem_map]
  simpa [Row.result] using inside

theorem check_eq_ok {numValues numParams : Nat} (made : ofRows kind width rows = .ok partition)
    (small : groupSize < UInt32.size)
    (aligned : ∀ row ∈ rows, kind = .sum → row.params.length = row.reads.length) :
    partition.check kind groupSize numValues numParams = .ok () ↔
      ∀ row ∈ rows, row.Fits kind groupSize numValues numParams := by
  rw [(ofRows_eq_ok.mp made).rectangular.check_eq_ok small]
  refine forall₂_congr fun row isRow => ⟨fun checked => ?_, Row.Fits.checked⟩
  exact ⟨checked.target, checked.reads, aligned row isRow, checked.params⟩

theorem check_ok {numValues numParams : Nat} (made : ofRows kind width rows = .ok partition)
    (small : groupSize < UInt32.size)
    (fits : ∀ row ∈ rows, row.Fits kind groupSize numValues numParams) :
    partition.check kind groupSize numValues numParams = .ok () :=
  (check_eq_ok made small fun row isRow => (fits row isRow).aligned).mpr fits

theorem evaluate_eq (made : ofRows kind width rows = .ok partition)
    (fits : ∀ row ∈ rows, row.Fits kind groupSize values.size params.size) :
    partition.evaluate kind groupSize values params =
      .ok (rows.map (Row.result kind groupSize values params)) :=
  (ofRows_eq_ok.mp made).rectangular.evaluate_eq (fun row isRow => (fits row isRow).checked)
    fun row isRow => (fits row isRow).covered

end Partition

namespace Execution

variable {current : Array F} {parts : List (Nat × List Row)} {partitions : List Partition}

section Run

variable
  (made : List.Forall₂ (fun part partition =>
    Partition.ofRows kind part.1 part.2 = .ok partition) parts partitions)
  (small : groupSize < UInt32.size)
  (apart : ∀ part ∈ parts, ∀ writer ∈ part.2, ∀ later ∈ parts, ∀ reader ∈ later.2,
    reader.Misses kind groupSize writer)
include made small apart

theorem runPartitions_prefix (sameSize : current.size = values.size)
    (aligned : ∀ part ∈ parts, ∀ row ∈ part.2,
      kind = .sum → row.params.length = row.reads.length)
    (fresh : ∀ part ∈ parts, ∀ row ∈ part.2,
      row.result kind groupSize current params = row.result kind groupSize values params) :
    ∃ ran rest error, parts = ran ++ rest ∧
      runPartitions kind groupSize params partitions current =
        .ok ⟨Buffer.writeAll current
          ((ran.flatMap (·.2)).map (Row.result kind groupSize values params)), error⟩ ∧
      (error = none → rest = []) ∧
      (error = none ↔ ∀ part ∈ parts, ∀ row ∈ part.2,
        row.Fits kind groupSize values.size params.size) := by
  induction made generalizing current with
  | nil => exact ⟨[], [], none, rfl, rfl, fun _ => rfl, by simp⟩
  | @cons part partition parts partitions first made ih =>
      rw [List.forall_mem_cons] at aligned fresh
      have checks : partition.check kind groupSize values.size params.size = .ok () ↔
          ∀ row ∈ part.2, row.Fits kind groupSize values.size params.size :=
        Partition.check_eq_ok first small aligned.1
      rw [runPartitions, sameSize]
      cases checked : partition.check kind groupSize values.size params.size with
      | error error =>
          refine ⟨[], part :: parts, some error, rfl, rfl, nofun, iff_of_false nofun ?_⟩
          intro fits
          rw [checks.mpr (fits part List.mem_cons_self)] at checked
          cases checked
      | ok passed =>
          have fitsFirst := checks.mp checked
          have own : part.2.map (Row.result kind groupSize current params) =
              part.2.map (Row.result kind groupSize values params) :=
            List.map_congr_left fresh.1
          have freshRest : ∀ later ∈ parts, ∀ row ∈ later.2,
              row.result kind groupSize (Buffer.writeAll current
                (part.2.map (Row.result kind groupSize values params))) params =
              row.result kind groupSize values params := by
            intro later member row isRow
            rw [← fresh.2 later member row isRow]
            apply Row.result_writeAll
            intro writer isWriter
            exact apart part List.mem_cons_self writer isWriter later
              (List.mem_cons_of_mem _ member) row isRow
          obtain ⟨ran, rest, error, rfl, run, ended, fits⟩ := ih
            (fun other member writer isWriter later laterMember =>
              apart other (List.mem_cons_of_mem _ member) writer isWriter later
                (List.mem_cons_of_mem _ laterMember))
            (by rw [Buffer.size_writeAll, sameSize]) aligned.2 freshRest
          refine ⟨part :: ran, rest, error, rfl, ?_, ended, ?_⟩
          · dsimp only
            have targets : ∀ row ∈ part.2, row.start + groupSize ≤ current.size := by
              rw [sameSize]
              exact fun row isRow => (fitsFirst row isRow).target
            rw [Partition.evaluate_eq first (by rwa [sameSize]), ok_bind, own,
              Partition.scatter_results targets, ok_bind, run,
              List.flatMap_cons, List.map_append, Buffer.writeAll_append]
          · rw [List.forall_mem_cons, fits]
            exact (and_iff_right fitsFirst).symm

theorem runPartitions_eq
    (fits : ∀ part ∈ parts, ∀ row ∈ part.2, row.Fits kind groupSize values.size params.size) :
    runPartitions kind groupSize params partitions values =
      .ok ⟨Buffer.writeAll values
        ((parts.flatMap (·.2)).map (Row.result kind groupSize values params)), none⟩ := by
  have aligned : ∀ part ∈ parts, ∀ row ∈ part.2,
      kind = .sum → row.params.length = row.reads.length :=
    fun part isPart row isRow => (fits part isPart row isRow).aligned
  have fresh : ∀ part ∈ parts, ∀ row ∈ part.2,
      row.result kind groupSize values params = row.result kind groupSize values params :=
    fun _ _ _ _ => rfl
  obtain ⟨ran, rest, error, rfl, run, ended, success⟩ :=
    runPartitions_prefix made small apart rfl aligned fresh
  obtain rfl := success.mpr fits
  obtain rfl := ended rfl
  rw [List.append_nil]
  exact run

end Run

end Execution
end CircuitPlan
