import Mathlib.Data.List.Perm.Basic
import CircuitPlan.Proofs.Execution.Bounds
import CircuitPlan.Proofs.Execution.Interleaving

namespace CircuitPlan

variable {F : Type} [Arithmetic F] {circuit : Circuit} {table : SlotTable}
  {served : List (Purpose × Span)} {group : InnerGroup} {layer : InnerLayer} {widths : List Nat}
  {partition : Partition} {rows : List Row} {row : Row} {kind : LayerKind}
  {values params after : Array F} {options : Options} {plan : Plan} {parts : List (Nat × List Row)}
  {partitions : List Partition}

theorem Row.aligned (isRow : row ∈ ofLayer circuit table group) (sum : group.kind = .sum) :
    row.params.length = row.reads.length := by
  obtain ⟨id, -, index, -, rfl⟩ := mem_ofLayer.mp isRow
  rw [sum]
  simp [ofGroup, ofSum]

def Row.LayerFits (circuit : Circuit) (table : SlotTable) (group : InnerGroup)
    (numValues numParams : Nat) : Prop :=
  ∀ row ∈ ofLayer circuit table group, row.Fits group.kind circuit.groupSize numValues numParams

def Row.span (groupSize : Nat) (row : Row) : Span := ⟨row.start, row.start + groupSize⟩

theorem Row.spans_apart (wellFormed : circuit.WellFormed) (filled : table.Filled circuit served)
    (member : group ∈ (Layout.ofCircuit circuit).inner) {other : Row}
    (isRow : row ∈ ofLayer circuit table group) (isOther : other ∈ ofLayer circuit table group)
    (different : row ≠ other) :
    (row.span circuit.groupSize).Apart (other.span circuit.groupSize) := by
  have : Std.Symm fun left right : Row =>
      (left.span circuit.groupSize).Apart (right.span circuit.groupSize) :=
    ⟨fun _ _ => Span.Apart.symm⟩
  have spaced : (ofLayer circuit table group).Pairwise fun left right =>
      (left.span circuit.groupSize).Apart (right.span circuit.groupSize) :=
    (ofLayer_spaced wellFormed filled member).imp .inl
  exact spaced.forall isRow isOther different

/-! ## Lanes as units of work -/

def LayerKind.laneReads (kind : LayerKind) (reads : List Nat) (lane : Nat) : List Nat :=
  match kind with
  | .product => reads.map (· + lane)
  | .sum => reads

theorem LayerKind.exists_of_laneReads {reads : List Nat} {groupSize lane read : Nat}
    (bound : lane < groupSize) (isRead : read ∈ kind.laneReads reads lane) :
    ∃ base ∈ reads, ∃ index < Partition.childSpan kind groupSize, read = base + index := by
  cases kind with
  | product =>
      obtain ⟨base, isBase, rfl⟩ := List.mem_map.mp isRead
      exact ⟨base, isBase, lane, bound, rfl⟩
  | sum => exact ⟨read, isRead, 0, Nat.one_pos, rfl⟩

namespace Partition

def laneReads (partition : Partition) (kind : LayerKind) (index lane : Nat) : List Nat :=
  kind.laneReads (partition.reads.valid index) lane

/-- What a lane makes of the values it reads. The parameters of a sum are never written, so a lane
may look at them at any time. -/
def combine (partition : Partition) (kind : LayerKind) (params : Array F) (index lane : Nat)
    (numbers : List F) : F :=
  match kind with
  | .product => Arithmetic.sum numbers
  | .sum =>
      let starts := (partition.params.map (·.row index)).getD []
      Arithmetic.logSumExp ((numbers.zip starts).map fun (number, start) =>
        Arithmetic.add (Arithmetic.log (Buffer.number params (start + lane))) number)

def work (partition : Partition) (kind : LayerKind) (params : Array F) (start index lane : Nat) :
    Work F :=
  { reads := partition.laneReads kind index lane
    target := start + lane
    combine := partition.combine kind params index lane }

def works (partition : Partition) (kind : LayerKind) (groupSize : Nat) (params : Array F) :
    List (Work F) :=
  partition.starts.zipIdx.flatMap fun (start, index) =>
    (List.range groupSize).map (partition.work kind params start index)

theorem laneReads_of_row {width index lane : Nat} (made : ofRows kind width rows = .ok partition)
    (found : rows[index]? = some row) :
    partition.laneReads kind index lane = kind.laneReads row.reads lane := by
  rw [laneReads, PaddedMatrix.valid_eq (ofRows_eq_ok.mp made).reads found]

theorem work_result {width index lane start : Nat} (made : ofRows kind width rows = .ok partition)
    (found : rows[index]? = some row)
    (aligned : kind = .sum → row.params.length = row.reads.length) :
    (partition.work kind params start index lane).result values =
      row.lane kind values params lane := by
  have matrices := ofRows_eq_ok.mp made
  rw [Work.result, work, laneReads_of_row made found]
  cases kind with
  | product =>
      simp [LayerKind.laneReads, combine, Row.lane, Buffer.sumAt, Arithmetic.sum, List.foldl_map]
  | sum =>
      obtain ⟨matrix, present, matrixOk⟩ := matrices.exists_params rfl
      simp only [LayerKind.laneReads, combine, Row.lane, present, Option.map_some, Option.getD_some,
        PaddedMatrix.row_eq matrixOk found]
      rw [List.zip_map_left, PaddedMatrix.zip_padRow (Nat.le_of_eq (aligned rfl).symm),
        List.map_map]
      rfl

end Partition

namespace InnerLayer

def works (layer : InnerLayer) (params : Array F) : List (Work F) :=
  layer.partitions.flatMap fun partition => partition.works layer.kind layer.groupSize params

theorem mem_works {work : Work F} : work ∈ layer.works params ↔
    ∃ partition ∈ layer.partitions, ∃ (index start : Nat), partition.starts[index]? = some start ∧
      ∃ lane < layer.groupSize, work = partition.work layer.kind params start index lane := by
  simp only [works, Partition.works, List.mem_flatMap, List.mem_map, List.mem_range, Prod.exists,
    List.mem_zipIdx_iff_getElem?]
  constructor
  · rintro ⟨partition, isPartition, start, index, located, lane, bound, rfl⟩
    exact ⟨partition, isPartition, index, start, located, lane, bound, rfl⟩
  · rintro ⟨partition, isPartition, index, start, located, lane, bound, rfl⟩
    exact ⟨partition, isPartition, start, index, located, lane, bound, rfl⟩

theorem map_target_works (layer : InnerLayer) (params : Array F) :
    (layer.works params).map (·.target) = (layer.partitions.flatMap (·.starts)).flatMap fun start =>
      (List.range layer.groupSize).map (start + ·) := by
  have starts (partition : Partition) : partition.starts = partition.starts.zipIdx.map (·.1) :=
    (List.zipIdx_map_fst 0 _).symm
  rw [works, List.map_flatMap, List.flatMap_assoc]
  apply List.flatMap_congr
  intro partition _
  conv_rhs => rw [starts partition, List.flatMap_map]
  rw [Partition.works, List.map_flatMap]
  apply List.flatMap_congr
  rintro ⟨start, index⟩ _
  rw [List.map_map]
  rfl

theorem Made.mem_ofLayer (made : Made circuit table group layer parts) :
    row ∈ Row.ofLayer circuit table group ↔ ∃ part ∈ parts, row ∈ part.2 :=
  List.mem_flatMap.trans (made.mem_rows row).symm

namespace Bucketed

variable (bucketed : Bucketed circuit table group widths layer)
include bucketed

variable (wellFormed : circuit.WellFormed) (filled : table.Filled circuit served)
  (member : group ∈ (Layout.ofCircuit circuit).inner)
include wellFormed filled member

theorem starts_perm : (layer.partitions.flatMap (·.starts)).Perm
    ((Row.ofLayer circuit table group).map (·.start)) := by
  have starts : layer.partitions.map (·.starts) = widths.map fun width =>
      (Row.bucket widths (Row.ofLayer circuit table group) width).map (·.start) :=
    mapM_map_eq (mapM_eq_ok.mpr bucketed.partitions) fun width partition made =>
      (Partition.ofRows_eq_ok.mp made).starts_eq
  have perm := Row.buckets_perm (Row.ofLayer_nodup wellFormed filled member) bucketed.serves
  rw [List.flatMap_def, starts, ← List.flatMap_def, ← List.map_flatMap]
  exact perm.map _

theorem exists_row {work : Work F} (isWork : work ∈ layer.works params) :
    ∃ row ∈ Row.ofLayer circuit table group, ∃ lane < circuit.groupSize,
      work.target = row.start + lane ∧ work.reads = group.kind.laneReads row.reads lane ∧
      ∀ values, work.result values = row.lane group.kind values params lane := by
  obtain ⟨partition, isPartition, index, start, located, lane, bound, rfl⟩ := mem_works.mp isWork
  rw [bucketed.groupSize_eq] at bound
  rw [bucketed.kind_eq]
  obtain ⟨rows, rowsOf⟩ := bucketed.exists_rowsOf wellFormed filled member isPartition
  obtain ⟨row, found, rfl⟩ := rowsOf.exists_row located
  have isRow := rowsOf.of_layer row (List.mem_of_getElem? found)
  exact ⟨row, isRow, lane, bound, rfl, Partition.laneReads_of_row rowsOf.made found,
    fun _ => Partition.work_result rowsOf.made found (Row.aligned isRow)⟩

theorem exists_work (params : Array F) (isRow : row ∈ Row.ofLayer circuit table group) {lane : Nat}
    (bound : lane < circuit.groupSize) : ∃ work ∈ layer.works params,
      work.target = row.start + lane ∧
      ∀ values, work.result values = row.lane group.kind values params lane := by
  have isStart := (bucketed.starts_perm wellFormed filled member).mem_iff.mpr
    (List.mem_map_of_mem isRow)
  obtain ⟨partition, isPartition, inStarts⟩ := List.mem_flatMap.mp isStart
  obtain ⟨index, located⟩ := List.getElem?_of_mem inStarts
  rw [← bucketed.groupSize_eq] at bound
  refine ⟨_, mem_works.mpr ⟨partition, isPartition, index, _, located, lane, bound, rfl⟩, rfl, ?_⟩
  obtain ⟨rows, rowsOf⟩ := bucketed.exists_rowsOf wellFormed filled member isPartition
  obtain ⟨other, found, same⟩ := rowsOf.exists_row located
  obtain rfl := Row.eq_of_start_eq (Row.ofLayer_ascending wellFormed filled member)
    (rowsOf.of_layer other (List.mem_of_getElem? found)) isRow same
  rw [bucketed.kind_eq]
  exact fun _ => Partition.work_result rowsOf.made found (Row.aligned isRow)

theorem targets_nodup (params : Array F) : ((layer.works params).map (·.target)).Nodup := by
  rw [map_target_works, bucketed.groupSize_eq,
    ((bucketed.starts_perm wellFormed filled member).flatMap_right _).nodup_iff, List.flatMap_map,
    List.nodup_flatMap]
  constructor
  · intro row _
    exact List.nodup_range.map fun _ _ => Nat.add_left_cancel
  · refine (Row.ofLayer_spaced wellFormed filled member).imp ?_
    intro before after spaced offset inBefore inAfter
    obtain ⟨low, lowBound, rfl⟩ := List.mem_map.mp inBefore
    obtain ⟨high, -, same⟩ := List.mem_map.mp inAfter
    rw [List.mem_range] at lowBound
    omega

omit wellFormed filled member in
theorem exists_made (perm : partitions.Perm layer.partitions) :
    ∃ parts, Made circuit table group { layer with partitions } parts ∧
      (parts.flatMap (·.2)).Perm
        (widths.flatMap (Row.bucket widths (Row.ofLayer circuit table group))) := by
  have made := bucketed.made
  obtain ⟨parts, pairs, reordered⟩ := List.perm_comp_forall₂ perm made.partitions.flip
  refine ⟨parts, ⟨made.kind_eq, made.groupSize_eq, pairs.flip, ?_⟩, ?_⟩
  · intro row
    rw [← made.mem_rows row]
    simp only [reordered.mem_iff]
  · have rows := reordered.flatMap_right (·.2)
    rwa [List.flatMap_map] at rows

theorem unwritten {writer reader : Row} (isWriter : writer ∈ Row.ofLayer circuit table group)
    (isReader : reader ∈ Row.ofLayer circuit table group) {lane read : Nat}
    (bound : lane < circuit.groupSize)
    (isRead : read ∈ group.kind.laneReads reader.reads lane) :
    ¬ (writer.start ≤ read ∧ read < writer.start + circuit.groupSize) := by
  obtain ⟨base, isBase, index, within, rfl⟩ := LayerKind.exists_of_laneReads bound isRead
  obtain ⟨part, isPart, inPart⟩ := bucketed.made.mem_ofLayer.mp isWriter
  obtain ⟨later, isLater, inLater⟩ := bucketed.made.mem_ofLayer.mp isReader
  have misses := Execution.rows_apart wellFormed filled member bucketed.made part isPart writer
    inPart later isLater reader inLater
  exact misses base isBase index within

theorem works_apart (fits : Row.LayerFits circuit table group values.size params.size) :
    Work.Apart (layer.works params) values.size where
  target_lt work isWork := by
    obtain ⟨row, isRow, lane, bound, target, -⟩ :=
      bucketed.exists_row wellFormed filled member isWork
    have inside := (fits row isRow).target
    omega
  read_lt work isWork read isRead := by
    obtain ⟨row, isRow, lane, bound, -, reads, -⟩ :=
      bucketed.exists_row wellFormed filled member isWork
    rw [reads] at isRead
    obtain ⟨base, isBase, index, within, rfl⟩ := LayerKind.exists_of_laneReads bound isRead
    have inside := (fits row isRow).reads base isBase
    omega
  targets_nodup := bucketed.targets_nodup wellFormed filled member params
  unread work isWork other isOther isRead := by
    obtain ⟨row, isRow, lane, bound, -, reads, -⟩ :=
      bucketed.exists_row wellFormed filled member isWork
    obtain ⟨writer, isWriter, otherLane, otherBound, target, -⟩ :=
      bucketed.exists_row wellFormed filled member isOther
    rw [reads] at isRead
    apply bucketed.unwritten wellFormed filled member isWriter isRow bound isRead
    omega

/-! ## Orders of the partitions -/

theorem exists_ran (perm : partitions.Perm layer.partitions) (values params : Array F) :
    ∃ ran rest error, (ran ++ rest).Perm (Row.ofLayer circuit table group) ∧
      Execution.forwardLayer values params { layer with partitions } =
        .ok ⟨Buffer.writeAll values
          (ran.map (Row.result group.kind circuit.groupSize values params)), error⟩ ∧
      (error = none → rest = []) ∧
      (error = none ↔ Row.LayerFits circuit table group values.size params.size) := by
  obtain ⟨parts, made, reordered⟩ := bucketed.exists_made perm
  have rows := reordered.trans
    (Row.buckets_perm (Row.ofLayer_nodup wellFormed filled member) bucketed.serves)
  have aligned : ∀ part ∈ parts, ∀ row ∈ part.2,
      group.kind = .sum → row.params.length = row.reads.length :=
    fun part isPart row isRow => Row.aligned (made.mem_ofLayer.mpr ⟨part, isPart, isRow⟩)
  have fresh : ∀ part ∈ parts, ∀ row ∈ part.2,
      row.result group.kind circuit.groupSize values params =
        row.result group.kind circuit.groupSize values params :=
    fun _ _ _ _ => rfl
  obtain ⟨ran, rest, error, rfl, run, ended, fits⟩ :=
    Execution.runPartitions_prefix made.partitions (filled.groupSize_lt wellFormed)
      (Execution.rows_apart wellFormed filled member made) rfl aligned fresh
  rw [List.flatMap_append] at rows
  refine ⟨ran.flatMap (·.2), rest.flatMap (·.2), error, rows, ?_, ?_, ?_⟩
  · rw [Execution.forwardLayer, made.kind_eq, made.groupSize_eq]
    exact run
  · intro success
    rw [ended success, List.flatMap_nil]
  · rw [fits]
    constructor
    · intro each row isRow
      obtain ⟨part, isPart, inPart⟩ := made.mem_ofLayer.mp isRow
      exact each part isPart row inPart
    · intro each part isPart row inPart
      exact each row (made.mem_ofLayer.mpr ⟨part, isPart, inPart⟩)

section Results

variable {ran rest : List Row}
  (reordered : (ran ++ rest).Perm (Row.ofLayer circuit table group))
include reordered

omit bucketed in
theorem results_clear (values params : Array F) :
    (ran.map (Row.result group.kind circuit.groupSize values params)).Pairwise Buffer.Clear := by
  have spaced : (ran ++ rest).Pairwise fun left right =>
      left.start + circuit.groupSize ≤ right.start ∨
        right.start + circuit.groupSize ≤ left.start :=
    (reordered.pairwise_iff Or.symm).mpr ((Row.ofLayer_spaced wellFormed filled member).imp .inl)
  rw [List.pairwise_map]
  simpa [Buffer.Clear, Row.result] using (List.pairwise_append.mp spaced).1

omit bucketed in
theorem getElem?_results (isRow : row ∈ ran) {lane : Nat} (bound : lane < circuit.groupSize)
    (inside : row.start + lane < values.size) :
    (Buffer.writeAll values (ran.map (Row.result group.kind circuit.groupSize values params)))[
      row.start + lane]? = some (row.lane group.kind values params lane) := by
  have clear := results_clear wellFormed filled member reordered values params
  have isResult : row.result group.kind circuit.groupSize values params ∈
      ran.map (Row.result group.kind circuit.groupSize values params) := List.mem_map_of_mem isRow
  have within : lane < (row.result group.kind circuit.groupSize values params).2.length := by
    simpa [Row.result] using bound
  refine (Buffer.getElem?_writeAll_of_clear clear isResult within inside).trans ?_
  simp [Row.result, bound]

theorem results_cases (values params : Array F) (offset : Nat) :
    let buffer := Buffer.writeAll values
      (ran.map (Row.result group.kind circuit.groupSize values params))
    buffer[offset]? = values[offset]? ∨
      ∃ work ∈ layer.works params, work.target = offset ∧
        buffer[offset]? = some (work.result values) := by
  intro buffer
  by_cases covers : Buffer.Covers
      (ran.map (Row.result group.kind circuit.groupSize values params)) offset
  · by_cases inside : offset < values.size
    · obtain ⟨run, isRun, above, below⟩ := covers
      obtain ⟨row, isRow, rfl⟩ := List.mem_map.mp isRun
      simp only [Row.result, List.length_map, List.length_range] at above below
      obtain ⟨lane, rfl⟩ := Nat.exists_eq_add_of_le above
      have bound : lane < circuit.groupSize := Nat.lt_of_add_lt_add_left below
      have inLayer := reordered.mem_iff.mp (List.mem_append_left rest isRow)
      obtain ⟨work, isWork, target, result⟩ :=
        bucketed.exists_work wellFormed filled member params inLayer bound
      refine .inr ⟨work, isWork, target, ?_⟩
      rw [result]
      exact getElem?_results wellFormed filled member reordered isRow bound inside
    · left
      rw [Array.getElem?_eq_none (Nat.le_of_not_lt inside),
        Array.getElem?_eq_none (by rw [Buffer.size_writeAll]; exact Nat.le_of_not_lt inside)]
  · exact .inl (Buffer.getElem?_writeAll_of_not_covers covers)

end Results

theorem results_settled {rows : List Row} (perm : rows.Perm (Row.ofLayer circuit table group))
    (fits : Row.LayerFits circuit table group values.size params.size) :
    Work.Settled (layer.works params) values (Buffer.writeAll values
      (rows.map (Row.result group.kind circuit.groupSize values params))) := by
  rw [← List.append_nil rows] at perm
  constructor
  case size_eq => exact Buffer.size_writeAll _ _
  case written =>
    intro work isWork
    obtain ⟨row, isRow, lane, bound, target, -, result⟩ :=
      bucketed.exists_row wellFormed filled member isWork
    have inside : row.start + lane < values.size :=
      Nat.lt_of_lt_of_le (Nat.add_lt_add_left bound _) (fits row isRow).target
    have ran : row ∈ rows := by simpa using perm.mem_iff.mpr isRow
    rw [target, result]
    exact getElem?_results wellFormed filled member perm ran bound inside
  case others =>
    intro offset outside
    rcases bucketed.results_cases wellFormed filled member perm values params offset with
      same | ⟨work, isWork, target, -⟩
    · exact same
    · exact absurd target (outside work isWork)

theorem forwardLayer_eq_ok (perm : partitions.Perm layer.partitions) :
    Execution.forwardLayer values params { layer with partitions } = .ok ⟨after, none⟩ ↔
      Row.LayerFits circuit table group values.size params.size ∧
        Work.Settled (layer.works params) values after := by
  obtain ⟨ran, rest, error, rows, run, ended, success⟩ :=
    bucketed.exists_ran wellFormed filled member perm values params
  have settled (noError : error = none) : Work.Settled (layer.works params) values
      (Buffer.writeAll values
        (ran.map (Row.result group.kind circuit.groupSize values params))) := by
    rw [ended noError, List.append_nil] at rows
    exact bucketed.results_settled wellFormed filled member rows (success.mp noError)
  rw [run]
  constructor
  · intro same
    cases same
    exact ⟨success.mp rfl, settled rfl⟩
  · rintro ⟨fits, holds⟩
    obtain rfl := success.mpr fits
    rw [holds.unique (settled rfl)]

end Bucketed

/-! ## Independent rows -/

def Reads (layer : InnerLayer) (read : Nat) : Prop :=
  ∃ partition ∈ layer.partitions, ∃ index < partition.starts.length, ∃ lane < layer.groupSize,
    read ∈ partition.laneReads layer.kind index lane

/-- Rows of a layer write apart from each other, and what they read was there before the layer: it
belongs to an input or to one of the layers `before`. -/
structure Independent (circuit : Circuit) (table : SlotTable) (before : List InnerLayer)
    (layer : InnerLayer) : Prop where
  writes_apart : ∀ place start, layer.start? place = some start →
    ∀ other otherStart, layer.start? other = some otherStart → place ≠ other →
      Span.Apart ⟨start, start + layer.groupSize⟩ ⟨otherStart, otherStart + layer.groupSize⟩
  reads_unwritten : ∀ read, layer.Reads read → ∀ place start, layer.start? place = some start →
    ¬ (start ≤ read ∧ read < start + layer.groupSize)
  reads_earlier : ∀ read, layer.Reads read → ∃ id ∈ circuit.reachable,
    (table.valuesAt id).contains read = true ∧
      ((circuit.node id).tag = .input ∨ ∃ earlier ∈ before, id ∈ earlier.nodes)

/-- A layer that gives the same values for every order of its partitions and every interleaving of
the accesses of its rows. -/
structure OrderFree (table : SlotTable) (layer : InnerLayer) (values params : Array F) :
    Prop where
  succeeds : table.numValues ≤ values.size → table.numSumParams ≤ params.size →
    ∃ after, Execution.forwardLayer values params layer = .ok ⟨after, none⟩
  reordered : ∀ partitions, partitions.Perm layer.partitions → ∀ after,
    Execution.forwardLayer values params { layer with partitions } = .ok ⟨after, none⟩ ↔
      Execution.forwardLayer values params layer = .ok ⟨after, none⟩
  stopped : ∀ partitions, partitions.Perm layer.partitions →
    ∃ outcome, Execution.forwardLayer values params { layer with partitions } = .ok outcome ∧
      ∀ offset, outcome.buffer[offset]? = values[offset]? ∨
        ∃ work ∈ layer.works params, work.target = offset ∧
          outcome.buffer[offset]? = some (work.result values)
  interleaved : ∀ after, Execution.forwardLayer values params layer = .ok ⟨after, none⟩ →
    ∀ schedule, Work.Interleaves (layer.works params) schedule →
      ∃ final, Access.runAll (layer.works params) (.start values) schedule = some final ∧
        final.values = after

namespace Bucketed

variable (bucketed : Bucketed circuit table group widths layer)
include bucketed

theorem row_of_start {place : Nat × Nat} {start : Nat} (located : layer.start? place = some start) :
    ∃ row ∈ Row.ofLayer circuit table group, row.start = start := by
  obtain ⟨width, row, -, found, same⟩ := bucketed.start?_eq_some.mp located
  exact ⟨row, (Row.mem_bucket.mp (List.mem_of_getElem? found)).1, same⟩

variable (wellFormed : circuit.WellFormed) (filled : table.Filled circuit served)
  (member : group ∈ (Layout.ofCircuit circuit).inner)
include wellFormed filled member

theorem row_of_read {read : Nat} (reads : layer.Reads read) :
    ∃ row ∈ Row.ofLayer circuit table group, ∃ lane < circuit.groupSize,
      read ∈ group.kind.laneReads row.reads lane := by
  obtain ⟨partition, isPartition, index, inside, lane, bound, isRead⟩ := reads
  rw [bucketed.groupSize_eq] at bound
  rw [bucketed.kind_eq] at isRead
  obtain ⟨rows, rowsOf⟩ := bucketed.exists_rowsOf wellFormed filled member isPartition
  obtain ⟨row, found, -⟩ := rowsOf.exists_row (List.getElem?_eq_getElem inside)
  rw [Partition.laneReads_of_row rowsOf.made found] at isRead
  exact ⟨row, rowsOf.of_layer row (List.mem_of_getElem? found), lane, bound, isRead⟩

theorem starts_apart {place other : Nat × Nat} {start otherStart : Nat}
    (located : layer.start? place = some start)
    (otherLocated : layer.start? other = some otherStart) (different : place ≠ other) :
    Span.Apart ⟨start, start + circuit.groupSize⟩ ⟨otherStart, otherStart + circuit.groupSize⟩ := by
  obtain ⟨row, isRow, rfl⟩ := bucketed.row_of_start located
  obtain ⟨otherRow, isOther, rfl⟩ := bucketed.row_of_start otherLocated
  have rowsDiffer : row ≠ otherRow := by
    rintro rfl
    obtain ⟨id, inside, index, bound, rfl⟩ := Row.mem_ofLayer.mp isRow
    rw [Row.ofGroup_start] at located otherLocated
    exact different
      ((bucketed.existsUnique_place wellFormed filled member inside bound).unique located
        otherLocated)
  exact Row.spans_apart wellFormed filled member isRow isOther rowsDiffer

theorem independent {before : List InnerLayer}
    (earlier : ∀ other ∈ (Layout.ofCircuit circuit).inner, other.rank < group.rank →
      ∃ earlierLayer ∈ before, earlierLayer.nodes = other.nodes) :
    layer.Independent circuit table before where
  writes_apart place start located other otherStart otherLocated different := by
    rw [bucketed.groupSize_eq]
    exact bucketed.starts_apart wellFormed filled member located otherLocated different
  reads_unwritten read reads place start located := by
    obtain ⟨reader, isReader, lane, bound, isRead⟩ :=
      bucketed.row_of_read wellFormed filled member reads
    obtain ⟨writer, isWriter, rfl⟩ := bucketed.row_of_start located
    rw [bucketed.groupSize_eq]
    exact bucketed.unwritten wellFormed filled member isWriter isReader bound isRead
  reads_earlier read reads := by
    obtain ⟨row, isRow, lane, bound, isRead⟩ := bucketed.row_of_read wellFormed filled member reads
    obtain ⟨id, inside, index, groupBound, rfl⟩ := Row.mem_ofLayer.mp isRow
    obtain ⟨reachable, -, same⟩ := (Layout.mem_nodes_inner member).mp inside
    obtain ⟨base, isBase, offset, within, rfl⟩ := LayerKind.exists_of_laneReads bound isRead
    obtain ⟨child, isChild, above, below⟩ := Row.read_inside wellFormed filled
      (wellFormed.has_first reachable groupBound) same rfl isBase
    refine ⟨child, wellFormed.child_reachable reachable isChild, ?_, ?_⟩
    · rw [Span.contains_iff]
      omega
    · by_cases input : (circuit.node child).tag = .input
      · exact .inl input
      · obtain ⟨other, otherMember, childInside, lower⟩ :=
          Layout.child_earlier wellFormed member inside isChild input
        obtain ⟨earlierLayer, isEarlier, nodes⟩ := earlier other otherMember lower
        exact .inr ⟨earlierLayer, isEarlier, nodes ▸ childInside⟩

theorem orderFree (values params : Array F) : layer.OrderFree table values params where
  succeeds enough enoughParams := by
    have fits : Row.LayerFits circuit table group values.size params.size := by
      intro row isRow
      obtain ⟨part, isPart, inPart⟩ := bucketed.made.mem_ofLayer.mp isRow
      exact Execution.rows_fit wellFormed filled member bucketed.made enough enoughParams part
        isPart row inPart
    obtain ⟨ran, rest, error, -, run, -, success⟩ :=
      bucketed.exists_ran wellFormed filled member (.refl _) values params
    rw [success.mpr fits] at run
    exact ⟨_, run⟩
  reordered partitions perm after := by
    rw [bucketed.forwardLayer_eq_ok wellFormed filled member perm]
    exact (bucketed.forwardLayer_eq_ok wellFormed filled member (.refl _)).symm
  stopped partitions perm := by
    obtain ⟨ran, rest, error, rows, run, -, -⟩ :=
      bucketed.exists_ran wellFormed filled member perm values params
    exact ⟨_, run, bucketed.results_cases wellFormed filled member rows values params⟩
  interleaved after success schedule interleaves := by
    obtain ⟨fits, settled⟩ :=
      (bucketed.forwardLayer_eq_ok wellFormed filled member (.refl _)).mp success
    have apart := bucketed.works_apart wellFormed filled member fits
    obtain ⟨final, run, finalSettled⟩ := interleaves.exists_run apart
    exact ⟨final, run, finalSettled.unique settled⟩

end Bucketed

end InnerLayer

/-! ## Layers of a plan -/

namespace Plan

theorem Made.exists_earlier (made : Made circuit options plan) {before later : List InnerLayer}
    (layers : plan.innerLayers = before ++ layer :: later) :
    ∃ group ∈ (Layout.ofCircuit circuit).inner,
      (∃ widths, InnerLayer.Bucketed circuit plan.slots group widths layer) ∧
      ∀ other ∈ (Layout.ofCircuit circuit).inner, other.rank < group.rank →
        ∃ earlierLayer ∈ before, earlierLayer.nodes = other.nodes := by
  have pairs := mapM_eq_ok.mp made.innerLayers
  rw [layers] at pairs
  have ranks := Layout.inner_ranks circuit
  have whole := List.take_append_drop before.length (Layout.ofCircuit circuit).inner
  have firsts := List.forall₂_take_append _ _ _ pairs
  have rest := List.forall₂_drop_append _ _ _ pairs
  cases dropped : (Layout.ofCircuit circuit).inner.drop before.length with
  | nil =>
      rw [dropped] at rest
      cases rest
  | cons group others =>
      rw [dropped] at rest whole
      obtain ⟨success, -⟩ := List.forall₂_cons.mp rest
      refine ⟨group, by rw [← whole]; simp, InnerLayer.ofGroup_bucketed success, ?_⟩
      intro other isOther lower
      rw [← whole] at isOther ranks
      have early : other ∈ (Layout.ofCircuit circuit).inner.take before.length := by
        rcases List.mem_append.mp isOther with early | late
        · exact early
        · exfalso
          rcases List.mem_cons.mp late with rfl | late
          · exact Nat.lt_irrefl _ lower
          · have upper := (List.pairwise_cons.mp (List.pairwise_append.mp ranks).2.1).1 other late
            exact Nat.lt_asymm lower upper
      obtain ⟨earlierLayer, isEarlier, made⟩ := forall₂_origin firsts.flip early
      obtain ⟨widths, bucketed⟩ := InnerLayer.ofGroup_bucketed made
      exact ⟨earlierLayer, isEarlier, bucketed.nodes_eq⟩

theorem ofCircuit_orderFree (accepted : circuit.Accepted)
    (compiled : ofCircuit circuit options = .ok plan) :
    ∀ before layer later, plan.innerLayers = before ++ layer :: later →
      layer.Independent circuit plan.slots before ∧
        ∀ values params : Array F, layer.OrderFree plan.slots values params := by
  intro before layer later layers
  have wellFormed := accepted.wellFormed
  have made := ofCircuit_made compiled
  obtain ⟨served, filled⟩ := SlotTable.exists_filled wellFormed made.slots
  obtain ⟨group, member, ⟨widths, bucketed⟩, earlier⟩ := made.exists_earlier layers
  exact ⟨bucketed.independent wellFormed filled member earlier,
    bucketed.orderFree wellFormed filled member⟩

theorem twin_orderFree : ∃ plan layer later, ofCircuit Circuit.twin {} = .ok plan ∧
    plan.innerLayers = layer :: later ∧ layer.Independent Circuit.twin plan.slots [] ∧
    (∀ values params : Array Float32, layer.OrderFree plan.slots values params) ∧
    ∃ values params after : Array Float32, ∃ final,
      Execution.forwardLayer values params layer = .ok ⟨after, none⟩ ∧
      Access.runAll (layer.works params) (.start values) (Work.accesses (layer.works params)) =
        some final ∧ final.values = after := by
  have passes : (ofCircuit Circuit.twin {}).toOption.any (fun plan =>
      decide (plan.innerLayers ≠ [])) = true := by decide +kernel
  obtain ⟨plan, compiled, present⟩ := exists_ok_of_any passes
  obtain ⟨layer, later, layers⟩ := List.exists_cons_of_ne_nil (decide_eq_true_iff.mp present)
  obtain ⟨independent, orderFree⟩ :=
    ofCircuit_orderFree (F := Float32) Circuit.twin_accepted compiled [] layer later layers
  have enough (count : Nat) : count ≤ (Array.replicate count (1 : Float32)).size :=
    Nat.le_of_eq Array.size_replicate.symm
  have free := orderFree (Array.replicate plan.slots.numValues 1)
    (Array.replicate plan.slots.numSumParams 1)
  obtain ⟨after, success⟩ := free.succeeds (enough _) (enough _)
  obtain ⟨final, run, same⟩ := free.interleaved after success _ (Work.interleaves_accesses _)
  exact ⟨plan, layer, later, compiled, layers, independent, orderFree, _, _, after, final, success,
    run, same⟩

end Plan
end CircuitPlan
