import CircuitPlan.Layer.Inner
import CircuitPlan.Proofs.PaddedMatrix

namespace CircuitPlan.Partition

variable {kind : LayerKind} {width cols : Nat} {rows : List Row} {lists : List (List Nat)}
  {partition : Partition}

def childrenOf (rows : List Row) : List Nat :=
  Ascending.ofList (rows.flatMap fun row => row.edges.map (·.1))

def readers (rows : List Row) (child : Nat) : List (Nat × Nat) :=
  rows.flatMap fun row =>
    (row.edges.filter fun edge => edge.1 == child).map fun edge => (row.start, edge.2)

def maxReaders (rows : List Row) : Nat :=
  ((childrenOf rows).map fun child => (readers rows child).length).foldl max 0

theorem groupByKey_eq_readers (rows : List Row) :
    groupByKey (rows.flatMap fun row =>
      row.edges.map fun (child, param) => (child, (row.start, param))) =
      (childrenOf rows).map fun child => (child, readers rows child) := by
  simp only [groupByKey, childrenOf, readers, List.map_flatMap, List.filter_flatMap,
    List.filter_map, List.map_map, Function.comp_def]

def paramMatrix (kind : LayerKind) (lists : List (List Nat)) (cols : Nat) :
    Except Fault (Option PaddedMatrix) :=
  match kind with
  | .product => .ok none
  | .sum => (PaddedMatrix.ofRows lists cols).map some

theorem exists_paramMatrix
    (fits : kind = .sum → ∀ list ∈ lists, list.length ≤ cols ∧ padding ∉ list) :
    ∃ found, paramMatrix kind lists cols = .ok found := by
  cases kind with
  | product => exact ⟨none, rfl⟩
  | sum =>
      obtain ⟨matrix, made⟩ := PaddedMatrix.exists_ofRows (fits rfl)
      exact ⟨some matrix, by rw [paramMatrix, made]; rfl⟩

structure Made (kind : LayerKind) (width : Nat) (rows : List Row) (partition : Partition) :
    Prop where
  width_eq : partition.width = width
  starts_eq : partition.starts = rows.map (·.start)
  reads : PaddedMatrix.ofRows (rows.map (·.reads)) width = .ok partition.reads
  params : paramMatrix kind (rows.map (·.params)) width = .ok partition.params
  children_eq : partition.children = childrenOf rows
  parents : PaddedMatrix.ofRows ((childrenOf rows).map fun child => (readers rows child).map (·.1))
    (maxReaders rows) = .ok partition.parents
  parentParams : paramMatrix kind ((childrenOf rows).map fun child =>
    (readers rows child).map (·.2)) (maxReaders rows) = .ok partition.parentParams

theorem ofRows_eq_ok : ofRows kind width rows = .ok partition ↔ Made kind width rows partition := by
  rw [ofRows, groupByKey_eq_readers]
  simp only [List.map_map, Function.comp_def, List.map_id']
  constructor
  · intro success
    obtain ⟨reads, readsOk, success⟩ := bind_eq_ok.mp success
    obtain ⟨params, paramsOk, success⟩ := bind_eq_ok.mp success
    obtain ⟨parents, parentsOk, success⟩ := bind_eq_ok.mp success
    obtain ⟨parentParams, parentParamsOk, success⟩ := bind_eq_ok.mp success
    obtain rfl := pure_eq_ok.mp success
    exact ⟨rfl, rfl, readsOk, paramsOk, rfl, parentsOk, parentParamsOk⟩
  · rintro ⟨width_eq, starts_eq, reads, params, children_eq, parents, parentParams⟩
    refine bind_eq_ok.mpr ⟨_, reads, bind_eq_ok.mpr ⟨_, params, bind_eq_ok.mpr ⟨_, parents,
      bind_eq_ok.mpr ⟨_, parentParams, ?_⟩⟩⟩⟩
    rw [pure_eq_ok, ← width_eq, ← starts_eq, ← children_eq]

namespace Made

theorem exists_params (made : Made kind width rows partition) (isSum : kind = .sum) :
    ∃ params, partition.params = some params ∧
      PaddedMatrix.ofRows (rows.map (·.params)) width = .ok params := by
  subst isSum
  obtain ⟨params, success, present⟩ := map_eq_ok.mp made.params
  exact ⟨params, present.symm, success⟩

theorem exists_parentParams (made : Made kind width rows partition) (isSum : kind = .sum) :
    ∃ params, partition.parentParams = some params ∧
      PaddedMatrix.ofRows ((childrenOf rows).map fun child => (readers rows child).map (·.2))
        (maxReaders rows) = .ok params := by
  subst isSum
  obtain ⟨params, success, present⟩ := map_eq_ok.mp made.parentParams
  exact ⟨params, present.symm, success⟩

end Made
end CircuitPlan.Partition
