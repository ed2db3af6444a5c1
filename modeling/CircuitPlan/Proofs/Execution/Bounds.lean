import CircuitPlan.Proofs.Execution.Forward
import CircuitPlan.Proofs.Layer.Edges

namespace CircuitPlan

variable {F : Type} [Arithmetic F] {circuit : Circuit} {table : SlotTable}
  {served : List (Purpose × Span)} {group : InnerGroup} {layer : InnerLayer}
  {partition : Partition} {rows : List Row} {row : Row} {kind : LayerKind}
  {values params : Array F} {options : Options} {plan : Plan}
  {groupSize width numValues numParams : Nat}

namespace Partition

/-- Every offset that a row uses lies inside the buffers with all its lanes, and none of them is
padding. -/
structure RowInside (kind : LayerKind) (groupSize numValues numParams : Nat)
    (partition : Partition) (index : Nat) : Prop where
  target : ∀ start, partition.starts[index]? = some start →
    start ≠ padding ∧ start + groupSize ≤ numValues
  product : kind = .product → ∀ read ∈ partition.reads.valid index,
    read ≠ padding ∧ read + groupSize ≤ numValues
  sum : kind = .sum → ∃ params, partition.params = some params ∧
    (partition.reads.valid index).length ≤ (params.row index).length ∧
    ∀ edge ∈ (partition.reads.valid index).zip (params.row index),
      edge.1 ≠ padding ∧ edge.1 < numValues ∧ edge.2 ≠ padding ∧ edge.2 + groupSize ≤ numParams

theorem rowInside_of_fits (made : ofRows kind width rows = .ok partition) {index : Nat}
    (found : rows[index]? = some row) (fits : row.Fits kind groupSize numValues numParams)
    (free : row.start ≠ padding) :
    partition.RowInside kind groupSize numValues numParams index := by
  have matrices := ofRows_eq_ok.mp made
  have isRow := List.mem_of_getElem? found
  have readsFree := (PaddedMatrix.row_fits matrices.reads isRow).2
  have valid := PaddedMatrix.valid_eq matrices.reads found
  constructor
  case target =>
    intro start located
    rw [matrices.starts_eq, List.getElem?_map, found, Option.map_some, Option.some.injEq] at located
    rw [← located]
    exact ⟨free, fits.target⟩
  case product =>
    rintro rfl read isRead
    rw [valid] at isRead
    exact ⟨ne_of_mem_of_not_mem isRead readsFree, fits.reads read isRead⟩
  case sum =>
    rintro rfl
    obtain ⟨params, present, paramsOk⟩ := matrices.exists_params rfl
    have paramsFree := (PaddedMatrix.row_fits paramsOk isRow).2
    have aligned := fits.aligned rfl
    refine ⟨params, present, ?_, ?_⟩
    · rw [valid, PaddedMatrix.row_eq paramsOk found, PaddedMatrix.padRow, List.length_append,
        aligned]
      exact Nat.le_add_right _ _
    · rintro ⟨read, param⟩ inZip
      rw [valid, PaddedMatrix.row_eq paramsOk found,
        PaddedMatrix.zip_padRow (Nat.le_of_eq aligned.symm)] at inZip
      obtain ⟨isRead, isParam⟩ := List.of_mem_zip inZip
      exact ⟨ne_of_mem_of_not_mem isRead readsFree, fits.reads read isRead,
        ne_of_mem_of_not_mem isParam paramsFree, fits.params rfl param isParam⟩

namespace RowsOf

variable (rowsOf : RowsOf circuit table group partition rows) (wellFormed : circuit.WellFormed)
  (filled : table.Filled circuit served) (member : group ∈ (Layout.ofCircuit circuit).inner)
include rowsOf wellFormed filled member

theorem fits (enough : table.numValues ≤ numValues)
    (enoughParams : table.numSumParams ≤ numParams) :
    ∀ row ∈ rows, row.Fits group.kind circuit.groupSize numValues numParams := by
  intro row isRow
  obtain ⟨scalar, has, first, -, same, rfl⟩ := rowsOf.exists_scalar wellFormed member isRow
  exact Row.fits wellFormed filled has same first enough enoughParams

theorem start_ne_padding (isRow : row ∈ rows) : row.start ≠ padding := by
  obtain ⟨scalar, has, -, -, -, rfl⟩ := rowsOf.exists_scalar wellFormed member isRow
  exact Row.start_ne_padding wellFormed filled group.kind has

end RowsOf

end Partition

namespace Plan

/-- What a forward evaluation does with buffers of any lengths. -/
structure Safe (plan : Plan) (values params : Array F) : Prop where
  ok_iff : (∃ after, Execution.forward plan values params = .ok ⟨after, none⟩) ↔
    plan.slots.numValues ≤ values.size ∧ plan.slots.numSumParams ≤ params.size
  values_short : values.size < plan.slots.numValues → Execution.forward plan values params =
    .ok ⟨values, some (.tooShort .nodeValue plan.slots.numValues values.size)⟩
  params_short : plan.slots.numValues ≤ values.size → params.size < plan.slots.numSumParams →
    Execution.forward plan values params =
      .ok ⟨values, some (.tooShort .sumParameter plan.slots.numSumParams params.size)⟩
  checks : plan.slots.numValues ≤ values.size → plan.slots.numSumParams ≤ params.size →
    ∀ layer ∈ plan.innerLayers, ∀ partition ∈ layer.partitions,
      partition.check layer.kind layer.groupSize values.size params.size = .ok ()
  evaluates : plan.slots.numValues ≤ values.size → plan.slots.numSumParams ≤ params.size →
    ∀ layer ∈ plan.innerLayers, ∀ partition ∈ layer.partitions,
      ∃ runs, partition.evaluate layer.kind layer.groupSize values params = .ok runs ∧
        runs.map (·.1) = partition.starts ∧
        ∀ run ∈ runs, run.2.length = layer.groupSize ∧ run.1 + run.2.length ≤ values.size
  inside : ∀ layer ∈ plan.innerLayers, ∀ partition ∈ layer.partitions,
    ∀ index < partition.starts.length, partition.RowInside layer.kind layer.groupSize
      plan.slots.numValues plan.slots.numSumParams index

theorem forward_values_short (short : values.size < plan.slots.numValues) :
    Execution.forward plan values params =
      .ok ⟨values, some (.tooShort .nodeValue plan.slots.numValues values.size)⟩ := by
  have failed : checkLength .nodeValue plan.slots.numValues values.size =
      .error (.tooShort .nodeValue plan.slots.numValues values.size) := by
    rw [checkLength, require, if_neg (Nat.not_le_of_lt short)]
  rw [Execution.forward, failed]
  rfl

theorem forward_params_short (enough : plan.slots.numValues ≤ values.size)
    (short : params.size < plan.slots.numSumParams) : Execution.forward plan values params =
      .ok ⟨values, some (.tooShort .sumParameter plan.slots.numSumParams params.size)⟩ := by
  have passed : checkLength .nodeValue plan.slots.numValues values.size = .ok () :=
    require_eq_ok.mpr enough
  have failed : checkLength .sumParameter plan.slots.numSumParams params.size =
      .error (.tooShort .sumParameter plan.slots.numSumParams params.size) := by
    rw [checkLength, require, if_neg (Nat.not_le_of_lt short)]
  rw [Execution.forward, passed, failed]
  rfl

theorem forward_safe (accepted : circuit.Accepted) (compiled : ofCircuit circuit options = .ok plan)
    (values params : Array F) : plan.Safe values params := by
  have wellFormed := accepted.wellFormed
  have made := ofCircuit_made compiled
  obtain ⟨served, filled⟩ := SlotTable.exists_filled wellFormed made.slots
  have layers (layer : InnerLayer) (isLayer : layer ∈ plan.innerLayers) (partition : Partition)
      (isPartition : partition ∈ layer.partitions) :
      ∃ group ∈ (Layout.ofCircuit circuit).inner, layer.kind = group.kind ∧
        layer.groupSize = circuit.groupSize ∧
        ∃ rows, Partition.RowsOf circuit plan.slots group partition rows := by
    obtain ⟨group, member, widths, bucketed⟩ := made.exists_bucketed isLayer
    exact ⟨group, member, bucketed.kind_eq, bucketed.groupSize_eq,
      bucketed.exists_rowsOf wellFormed filled member isPartition⟩
  constructor
  case ok_iff =>
    constructor
    · rintro ⟨after, success⟩
      by_contra notEnough
      by_cases enough : plan.slots.numValues ≤ values.size
      · rw [forward_params_short enough (by omega)] at success
        cases success
      · rw [forward_values_short (by omega)] at success
        cases success
    · rintro ⟨enough, enoughParams⟩
      obtain ⟨after, success, -⟩ := made.forward_ok wellFormed enough enoughParams
      exact ⟨after, success⟩
  case values_short => exact forward_values_short
  case params_short => exact forward_params_short
  case checks =>
    intro enough enoughParams layer isLayer partition isPartition
    obtain ⟨group, member, kind_eq, groupSize_eq, rows, rowsOf⟩ :=
      layers layer isLayer partition isPartition
    rw [kind_eq, groupSize_eq]
    exact Partition.check_ok rowsOf.made (filled.groupSize_lt wellFormed)
      (rowsOf.fits wellFormed filled member enough enoughParams)
  case evaluates =>
    intro enough enoughParams layer isLayer partition isPartition
    obtain ⟨group, member, kind_eq, groupSize_eq, rows, rowsOf⟩ :=
      layers layer isLayer partition isPartition
    have fits := rowsOf.fits wellFormed filled member enough enoughParams
    rw [kind_eq, groupSize_eq]
    refine ⟨_, Partition.evaluate_eq rowsOf.made fits, ?_, ?_⟩
    · rw [rowsOf.matrices.starts_eq, List.map_map]
      rfl
    · intro run isRun
      obtain ⟨row, isRow, rfl⟩ := List.mem_map.mp isRun
      have length : (row.result group.kind circuit.groupSize values params).2.length =
          circuit.groupSize := by simp [Row.result]
      rw [length]
      exact ⟨rfl, (fits row isRow).target⟩
  case inside =>
    intro layer isLayer partition isPartition index bound
    obtain ⟨group, member, kind_eq, groupSize_eq, rows, rowsOf⟩ :=
      layers layer isLayer partition isPartition
    rw [kind_eq, groupSize_eq]
    obtain ⟨row, found, -⟩ := rowsOf.exists_row (List.getElem?_eq_getElem bound)
    have isRow := List.mem_of_getElem? found
    exact Partition.rowInside_of_fits rowsOf.made found
      (rowsOf.fits wellFormed filled member (Nat.le_refl _) (Nat.le_refl _) row isRow)
      (rowsOf.start_ne_padding wellFormed filled member isRow)

theorem twin_safe : ∃ plan, ofCircuit Circuit.twin {} = .ok plan ∧ plan.innerLayers ≠ [] ∧
    ∀ values params : Array Float32, plan.Safe values params := by
  have passes : (ofCircuit Circuit.twin {}).toOption.any (fun plan =>
      decide (plan.innerLayers ≠ [])) = true := by decide +kernel
  obtain ⟨plan, compiled, present⟩ := exists_ok_of_any passes
  exact ⟨plan, compiled, decide_eq_true_iff.mp present,
    forward_safe Circuit.twin_accepted compiled⟩

end Plan
end CircuitPlan
