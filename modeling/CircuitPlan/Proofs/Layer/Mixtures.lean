import CircuitPlan.Proofs.Layer.Columns
import CircuitPlan.Proofs.Layer.Edges

namespace CircuitPlan

variable {circuit : Circuit} {table : SlotTable} {served : List (Purpose × Span)}
  {options : Options} {plan : Plan} {mixture other : Scalar}

namespace SumParams

section Fill

variable {F : Type} [Arithmetic F] {draw : Nat → F} {turn otherTurn : Nat → Nat}
  {column : List Nat} {columns : List (List Nat)} {slot : Nat}

/-- The share of a slot in its column, where `turn` tells the draw of each slot. -/
def share (draw : Nat → F) (turn : Nat → Nat) (column : List Nat) (slot : Nat) : F :=
  Arithmetic.div (draw (turn slot)) (Arithmetic.sum (column.map fun other => draw (turn other)))

def shares (draw : Nat → F) (turn : Nat → Nat) (column : List Nat) : List (Nat × List F) :=
  column.map fun slot => (slot, [share draw turn column slot])

theorem shares_congr (same : ∀ slot ∈ column, turn slot = otherTurn slot) :
    shares draw turn column = shares draw otherTurn column := by
  have draws : (column.map fun other => draw (turn other)) =
      column.map fun other => draw (otherTurn other) :=
    List.map_congr_left fun other member => by rw [same other member]
  apply List.map_congr_left
  intro slot member
  rw [share, share, same slot member, draws]

theorem map_idxOf {xs : List Nat} (distinct : xs.Nodup) :
    xs.map (xs.idxOf ·) = List.range xs.length := by
  apply List.ext_getElem (by simp)
  intro index inside _
  rw [List.length_map] at inside
  simp [distinct.idxOf_getElem index inside]

theorem exists_map_idxOf {α : Type} {xs : List α} {f : α → List Nat}
    (distinct : (xs.flatMap f).Nodup) {x : α} (member : x ∈ xs) :
    ∃ first, (f x).map ((xs.flatMap f).idxOf ·) = List.range' first (f x).length := by
  obtain ⟨before, after, rfl⟩ := List.append_of_mem member
  rw [List.flatMap_append, List.flatMap_cons] at distinct ⊢
  obtain ⟨-, distinctRest, disjoint⟩ := List.nodup_append'.mp distinct
  refine ⟨(before.flatMap f).length, ?_⟩
  rw [List.range'_eq_map_range, ← map_idxOf (List.nodup_append'.mp distinctRest).1, List.map_map]
  apply List.map_congr_left
  intro entry inside
  have outside : entry ∉ before.flatMap f := fun earlier =>
    disjoint earlier (List.mem_append_left _ inside)
  rw [List.idxOf_append_of_notMem outside, List.idxOf_append_of_mem inside]
  rfl

theorem existsUnique_idxOf {slots : List Nat} {count : Nat} (perm : slots.Perm (List.range count))
    {k : Nat} (bound : k < count) : ∃! slot, slot < count ∧ slots.idxOf slot = k := by
  have length : slots.length = count := by rw [perm.length_eq, List.length_range]
  have distinct : slots.Nodup := perm.nodup_iff.mpr List.nodup_range
  have inside : k < slots.length := by rwa [length]
  refine ⟨slots[k], ⟨?_, distinct.idxOf_getElem k inside⟩, ?_⟩
  · exact List.mem_range.mp (perm.mem_iff.mp (List.getElem_mem inside))
  · rintro slot ⟨slotBound, rfl⟩
    exact (List.getElem_idxOf inside).symm

theorem fillColumn_eq (distinct : column.Nodup) (params : Array F) (first : Nat) :
    fillColumn ((List.range column.length).map fun k => draw (first + k)) params column =
      Buffer.writeAll params (shares draw (fun slot => first + column.idxOf slot) column) := by
  rw [← map_idxOf distinct, List.map_map, fillColumn, ← List.map_prod_left_eq_zip, shares,
    Buffer.writeAll, List.foldl_map, List.foldl_map]
  rfl

theorem fill_eq (distinct : columns.flatten.Nodup) (params : Array F) (used : Nat) :
    fill draw columns (params, used) =
      (Buffer.writeAll params (columns.flatMap
        (shares draw fun slot => used + columns.flatten.idxOf slot)),
        used + columns.flatten.length) := by
  induction columns generalizing params used with
  | nil => rfl
  | cons column rest ih =>
      rw [List.flatten_cons, List.nodup_append'] at distinct
      obtain ⟨distinctColumn, distinctRest, disjoint⟩ := distinct
      have here : shares draw (fun slot => used + (column ++ rest.flatten).idxOf slot) column =
          shares draw (fun slot => used + column.idxOf slot) column := by
        apply shares_congr
        intro slot member
        rw [List.idxOf_append_of_mem member]
      have later : rest.flatMap (shares draw fun slot =>
          used + (column ++ rest.flatten).idxOf slot) =
          rest.flatMap (shares draw fun slot => used + column.length + rest.flatten.idxOf slot) := by
        apply List.flatMap_congr
        intro next isNext
        apply shares_congr
        intro slot member
        have outside : slot ∉ column := fun inColumn =>
          disjoint inColumn (List.mem_flatten.mpr ⟨next, isNext, member⟩)
        rw [List.idxOf_append_of_notMem outside, Nat.add_assoc]
      rw [fill, fillColumn_eq distinctColumn, ih distinctRest, List.flatten_cons, List.flatMap_cons,
        here, later, Buffer.writeAll_append, List.length_append, Nat.add_assoc]

theorem getElem?_shares (distinct : columns.flatten.Nodup) {params : Array F}
    (isColumn : column ∈ columns) (member : slot ∈ column) (inside : slot < params.size) :
    (Buffer.writeAll params (columns.flatMap (shares draw turn)))[slot]? =
      some (share draw turn column slot) := by
  have single : ∀ run ∈ columns.flatMap (shares draw turn), run.2.length = 1 := by
    intro run isRun
    obtain ⟨_, -, inShares⟩ := List.mem_flatMap.mp isRun
    obtain ⟨_, -, rfl⟩ := List.mem_map.mp inShares
    rfl
  have starts : (columns.flatMap (shares draw turn)).map (·.1) = columns.flatten := by
    rw [List.map_flatMap, List.flatten_eq_flatMap]
    apply List.flatMap_congr
    intro column _
    rw [shares, List.map_map]
    exact List.map_id _
  have clear : (columns.flatMap (shares draw turn)).Pairwise Buffer.Clear := by
    rw [← starts, List.nodup_iff_pairwise_ne, List.pairwise_map] at distinct
    refine distinct.imp_of_mem fun isLeft isRight different => ?_
    rw [Buffer.Clear, single _ isLeft, single _ isRight]
    omega
  have isRun : (slot, [share draw turn column slot]) ∈ columns.flatMap (shares draw turn) :=
    List.mem_flatMap.mpr ⟨column, isColumn, List.mem_map_of_mem member⟩
  exact Buffer.getElem?_writeAll_of_clear clear isRun Nat.one_pos inside

end Fill

theorem IsMixture.of_has (wellFormed : circuit.WellFormed) {scalar : Scalar}
    (has : circuit.Has scalar) (kind : (circuit.node scalar.node).kind = .sum) :
    IsMixture circuit ⟨circuit.owner scalar.node, scalar.group, scalar.lane⟩ where
  owned := ⟨scalar.node, has.reachable, kind, rfl⟩
  group_lt := by
    rw [(wellFormed.owner_of_sum has.reachable kind).1]
    exact has.group_lt
  lane_lt := has.lane_lt

section Filled

variable (wellFormed : circuit.WellFormed) (filled : table.Filled circuit served)
include wellFormed filled

theorem column_inj (isMixture : IsMixture circuit mixture)
    (isOther : IsMixture circuit other)
    (same : column circuit table other = column circuit table mixture) : other = mixture := by
  by_contra different
  have disjoint := columns_disjoint wellFormed filled isOther isMixture different
  obtain ⟨id, reachable, kind, owns⟩ := isMixture.owned
  have positive := wellFormed.fanIn_pos reachable kind
  rw [← (wellFormed.owner_of_sum reachable kind).2, owns] at positive
  have nonempty : column circuit table mixture ≠ [] := by
    simpa [column] using Nat.ne_of_gt positive
  obtain ⟨slot, inside⟩ := List.exists_mem_of_ne_nil _ nonempty
  have inOther : slot ∈ column circuit table other := by rwa [same]
  exact disjoint inOther inside

theorem column_of_row {scalar : Scalar} (has : circuit.Has scalar)
    (kind : (circuit.node scalar.node).kind = .sum) :
    column circuit table ⟨circuit.owner scalar.node, scalar.group, scalar.lane⟩ =
      (Row.ofGroup circuit table .sum scalar.node scalar.group).params.map (· + scalar.lane) := by
  have isMember := (mem_sums_iff_pool wellFormed).mp (mem_sums.mpr ⟨has.reachable, kind⟩)
  simp only [column, Row.params_eq, List.map_map, Function.comp_def,
    (wellFormed.owner_of_sum has.reachable kind).2, filled.ownerParams_eq wellFormed isMember,
    Nat.add_assoc]

end Filled

/-- Initial parameters of the sums of a plan, together with the number of draws used. `turn` tells
the draw of each slot. -/
structure Normalized {F : Type} [Arithmetic F] (circuit : Circuit) (plan : Plan) (draw : Nat → F)
    (turn : Nat → Nat) (params : Array F) (used : Nat) : Prop where
  size : params.size = plan.slots.numSumParams
  used_eq : used = plan.slots.numSumParams
  turn_lt : ∀ slot < plan.slots.numSumParams, turn slot < plan.slots.numSumParams
  turn_unique : ∀ k < plan.slots.numSumParams,
    ∃! slot, slot < plan.slots.numSumParams ∧ turn slot = k
  shares : ∀ mixture, IsMixture circuit mixture → ∀ slot ∈ column circuit plan.slots mixture,
    params[slot]? = some (share draw turn (column circuit plan.slots mixture) slot)
  in_turn : ∀ mixture, IsMixture circuit mixture → ∃ first,
    (column circuit plan.slots mixture).map turn =
      List.range' first (column circuit plan.slots mixture).length
  distinct : ∀ mixture, IsMixture circuit mixture → (column circuit plan.slots mixture).Nodup
  apart : ∀ mixture other, IsMixture circuit mixture → IsMixture circuit other → mixture ≠ other →
    (column circuit plan.slots mixture).Disjoint (column circuit plan.slots other)
  cover : ∀ slot, (∃ mixture, IsMixture circuit mixture ∧
    slot ∈ column circuit plan.slots mixture) ↔ slot < plan.slots.numSumParams
  rows : ∀ layer ∈ plan.innerLayers, layer.kind = .sum → ∀ partition ∈ layer.partitions,
    ∃ paramIndex, partition.params = some paramIndex ∧
      ∀ index < partition.starts.length,
        (paramIndex.valid index).length = (partition.reads.valid index).length ∧
        ∀ lane < layer.groupSize, ∃! mixture, IsMixture circuit mixture ∧
          column circuit plan.slots mixture = (paramIndex.valid index).map (· + lane)

def turnOf (circuit : Circuit) (table : SlotTable) (slot : Nat) : Nat :=
  ((mixtures circuit).flatMap (column circuit table)).idxOf slot

section Plan

variable (wellFormed : circuit.WellFormed) (made : Plan.Made circuit options plan)
  (filled : plan.slots.Filled circuit served)
include wellFormed made filled

theorem initial_eq {F : Type} [Arithmetic F] (draw : Nat → F) : initial circuit plan draw =
    (Buffer.writeAll (Array.replicate plan.slots.numSumParams Arithmetic.zero)
      (((mixtures circuit).map (column circuit plan.slots)).flatMap
        (shares draw (turnOf circuit plan.slots))), plan.slots.numSumParams) := by
  have columns : allColumns circuit plan =
      (mixtures circuit).map (column circuit plan.slots) := by
    rw [allColumns, made.groupSize_eq]
    exact blocks_columns wellFormed filled
  have flat : ((mixtures circuit).map (column circuit plan.slots)).flatten =
      (mixtures circuit).flatMap (column circuit plan.slots) := List.flatMap_def.symm
  have distinct := slots_nodup wellFormed filled
  have length := (slots_perm wellFormed filled).length_eq
  rw [List.length_range] at length
  rw [← flat] at distinct
  rw [initial, columns, fill_eq distinct, flat, length, Nat.zero_add]
  simp only [Nat.zero_add]
  rfl

theorem rows_normalized {layer : InnerLayer} (isLayer : layer ∈ plan.innerLayers)
    (kind : layer.kind = .sum) {partition : Partition} (isPartition : partition ∈ layer.partitions) :
    ∃ paramIndex, partition.params = some paramIndex ∧
      ∀ index < partition.starts.length,
        (paramIndex.valid index).length = (partition.reads.valid index).length ∧
        ∀ lane < layer.groupSize, ∃! mixture, IsMixture circuit mixture ∧
          column circuit plan.slots mixture = (paramIndex.valid index).map (· + lane) := by
  obtain ⟨group, member, widths, bucketed⟩ := made.exists_bucketed isLayer
  obtain ⟨rows, rowsOf⟩ := bucketed.exists_rowsOf wellFormed filled member isPartition
  have isSum : group.kind = .sum := bucketed.kind_eq.symm.trans kind
  obtain ⟨paramIndex, present, paramsOk⟩ := rowsOf.matrices.exists_params isSum
  refine ⟨paramIndex, present, fun index inside => ?_⟩
  obtain ⟨row, found, -⟩ := rowsOf.exists_row (List.getElem?_eq_getElem inside)
  have isRow := List.mem_of_getElem? found
  obtain ⟨scalar, has, -, -, same, rfl⟩ := rowsOf.exists_scalar wellFormed member isRow
  have sum : (circuit.node scalar.node).kind = .sum :=
    Layout.layerKind_eq_sum.mp (same.trans (congrArg some isSum))
  rw [PaddedMatrix.valid_eq paramsOk found, rowsOf.reads_valid found, isSum]
  refine ⟨by simp [Row.ofGroup, Row.ofSum], fun lane bound => ?_⟩
  rw [bucketed.groupSize_eq] at bound
  have laneHas : circuit.Has ⟨scalar.node, scalar.group, lane⟩ :=
    ⟨has.reachable, has.group_lt, bound⟩
  have isMixture := IsMixture.of_has wellFormed laneHas sum
  have equal := column_of_row wellFormed filled laneHas sum
  refine ⟨_, ⟨isMixture, equal⟩, ?_⟩
  rintro other ⟨isOther, alike⟩
  exact column_inj wellFormed filled isMixture isOther (alike.trans equal.symm)

end Plan

theorem initial_normalized {F : Type} [Arithmetic F] (accepted : circuit.Accepted)
    (compiled : Plan.ofCircuit circuit options = .ok plan) :
    ∃ turn : Nat → Nat, ∀ draw : Nat → F, Normalized circuit plan draw turn
      (initial circuit plan draw).1 (initial circuit plan draw).2 := by
  have wellFormed := accepted.wellFormed
  have made := Plan.ofCircuit_made compiled
  obtain ⟨served, filled⟩ := SlotTable.exists_filled wellFormed made.slots
  have perm := slots_perm wellFormed filled
  have distinct := slots_nodup wellFormed filled
  refine ⟨turnOf circuit plan.slots, fun draw => ?_⟩
  rw [initial_eq wellFormed made filled]
  constructor
  case size => rw [Buffer.size_writeAll, Array.size_replicate]
  case used_eq => rfl
  case turn_lt =>
    intro slot bound
    have length := perm.length_eq
    rw [List.length_range] at length
    rw [turnOf, ← length, List.idxOf_lt_length_iff, perm.mem_iff]
    exact List.mem_range.mpr bound
  case turn_unique => exact fun k bound => existsUnique_idxOf perm bound
  case shares =>
    intro mixture isMixture slot inside
    rw [List.flatMap_def] at distinct
    apply getElem?_shares distinct (List.mem_map_of_mem (mem_mixtures.mpr isMixture)) inside
    rw [Array.size_replicate]
    exact (mem_column_iff wellFormed filled).mp ⟨mixture, isMixture, inside⟩
  case in_turn =>
    exact fun mixture isMixture => exists_map_idxOf distinct (mem_mixtures.mpr isMixture)
  case distinct => exact fun mixture => column_nodup wellFormed filled
  case apart => exact fun mixture other => columns_disjoint wellFormed filled
  case cover => exact fun slot => mem_column_iff wellFormed filled
  case rows =>
    exact fun layer isLayer kind partition => rows_normalized wellFormed made filled isLayer kind

theorem twin_normalized : ∃ plan layer partition paramIndex,
    Plan.ofCircuit Circuit.twin {} = .ok plan ∧
    (∃ turn : Nat → Nat, ∀ draw : Nat → Float32, Normalized Circuit.twin plan draw turn
      (initial Circuit.twin plan draw).1 (initial Circuit.twin plan draw).2) ∧
    layer ∈ plan.innerLayers ∧ layer.kind = .sum ∧ layer.groupSize = 2 ∧
    partition ∈ layer.partitions ∧ partition.params = some paramIndex ∧
    partition.starts = [12, 14] ∧ paramIndex.valid 1 = [0, 2] ∧
    ∃! mixture, IsMixture Circuit.twin mixture ∧
      column Circuit.twin plan.slots mixture = [1, 3] := by
  have passes : (Plan.ofCircuit Circuit.twin {}).toOption.any (fun plan =>
      plan.innerLayers.any fun layer => layer.partitions.any fun partition =>
        partition.params.any fun paramIndex =>
          decide (layer.kind = .sum ∧ layer.groupSize = 2 ∧ partition.starts = [12, 14] ∧
            paramIndex.valid 1 = [0, 2])) = true := by decide +kernel
  obtain ⟨plan, compiled, found⟩ := exists_ok_of_any passes
  obtain ⟨layer, isLayer, found⟩ := List.any_eq_true.mp found
  obtain ⟨partition, isPartition, found⟩ := List.any_eq_true.mp found
  obtain ⟨paramIndex, present, found⟩ := (Option.any_eq_true _ _).mp found
  obtain ⟨kind, groupSize, starts, valid⟩ := decide_eq_true_iff.mp found
  obtain ⟨turn, normalized⟩ := initial_normalized (F := Float32) Circuit.twin_accepted compiled
  obtain ⟨given, same, rows⟩ :=
    (normalized fun _ => 0).rows layer isLayer kind partition isPartition
  obtain rfl := Option.some.inj (present.symm.trans same)
  have second := (rows 1 (by rw [starts]; decide)).2 1 (by rw [groupSize]; decide)
  rw [valid] at second
  exact ⟨plan, layer, partition, paramIndex, compiled, ⟨turn, normalized⟩, isLayer, kind, groupSize,
    isPartition, present, starts, valid, second⟩

end SumParams
end CircuitPlan
