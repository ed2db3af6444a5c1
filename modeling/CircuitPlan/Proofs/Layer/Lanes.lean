import CircuitPlan.Proofs.Circuit.Value
import CircuitPlan.Proofs.Execution.Partition
import CircuitPlan.Proofs.Layer.Rows
import CircuitPlan.Proofs.Slot.Tiling

namespace CircuitPlan

theorem range_mul_map {α : Type} (blocks width : Nat) (f : Nat → α) :
    (List.range (blocks * width)).map f =
      (List.range blocks).flatMap fun block =>
        (List.range width).map fun index => f (block * width + index) := by
  induction blocks with
  | zero => simp
  | succ blocks ih =>
      rw [Nat.succ_mul, List.range_add, List.map_append, ih, List.range_succ, List.flatMap_append,
        List.map_map]
      simp [Function.comp_def]

variable {circuit : Circuit} {table : SlotTable} {served : List (Purpose × Span)} {id : NodeId}
  {scalar operand : Scalar}

namespace SlotTable

def slot (circuit : Circuit) (table : SlotTable) (scalar : Scalar) : Nat :=
  (table.valuesAt scalar.node).start + scalar.group * circuit.groupSize + scalar.lane

def ownerParams (circuit : Circuit) (table : SlotTable) (owner : NodeId) : Span :=
  (((circuit.users owner).head?).map table.paramsAt).getD ⟨0, 0⟩

def weight {F : Type} [Arithmetic F] (circuit : Circuit) (table : SlotTable) (params : Array F)
    (owner : NodeId) (index : Nat) : F :=
  Buffer.number params ((table.ownerParams circuit owner).start + index)

namespace Filled

variable (wellFormed : circuit.WellFormed) (filled : Filled circuit served table)
include wellFormed filled

theorem values_stop (reachable : id ∈ circuit.reachable) :
    (table.valuesAt id).stop =
      (table.valuesAt id).start + (circuit.node id).numGroups * circuit.groupSize := by
  rw [← (wellFormed.admits reachable).groupSize_eq]
  exact (filled.values_width wellFormed reachable).1

theorem group_inside (has : circuit.Has scalar) :
    (table.valuesAt scalar.node).start + scalar.group * circuit.groupSize + circuit.groupSize ≤
      (table.valuesAt scalar.node).stop := by
  rw [filled.values_stop wellFormed has.reachable, Nat.add_assoc, ← Nat.succ_mul]
  exact Nat.add_le_add_left (Nat.mul_le_mul_right _ has.group_lt) _

theorem slot_inside (has : circuit.Has scalar) :
    (table.valuesAt scalar.node).contains (table.slot circuit scalar) = true := by
  have inside := filled.group_inside wellFormed has
  have lane := has.lane_lt
  rw [Span.contains_iff, slot]
  omega

theorem slot_lt (has : circuit.Has scalar) : table.slot circuit scalar < table.numValues :=
  Nat.lt_of_lt_of_le (Span.contains_iff.mp (filled.slot_inside wellFormed has)).2
    (filled.values_bound wellFormed has.reachable)

theorem exists_scalar (reachable : id ∈ circuit.reachable) {offset : Nat}
    (contained : (table.valuesAt id).contains offset = true) :
    ∃ scalar, circuit.Has scalar ∧ scalar.node = id ∧ table.slot circuit scalar = offset := by
  obtain ⟨above, below⟩ := Span.contains_iff.mp contained
  rw [filled.values_stop wellFormed reachable] at below
  have place : offset - (table.valuesAt id).start <
      (circuit.node id).numGroups * circuit.groupSize := by omega
  refine ⟨⟨id, (offset - (table.valuesAt id).start) / circuit.groupSize,
    (offset - (table.valuesAt id).start) % circuit.groupSize⟩, ⟨reachable, ?_, ?_⟩, rfl, ?_⟩
  · exact Nat.div_lt_of_lt_mul (by rw [Nat.mul_comm]; exact place)
  · exact Nat.mod_lt _ wellFormed.groupSize_pos
  · have whole := Nat.div_add_mod' (offset - (table.valuesAt id).start) circuit.groupSize
    simp only [slot]
    omega

theorem ownerParams_eq {pool : Pool} (member : id ∈ pool.nodes circuit) :
    table.ownerParams circuit (circuit.owner id) = table.paramsAt id := by
  have uses := Pool.mem_users_self wellFormed member
  cases users : circuit.users (circuit.owner id) with
  | nil => simp [users] at uses
  | cons first rest =>
      have isUser : first ∈ circuit.users (circuit.owner id) := by simp [users]
      have used := Pool.mem_owners.mpr ⟨id, member, rfl⟩
      obtain ⟨firstMember, same⟩ := Pool.of_mem_users wellFormed used isUser
      rw [ownerParams, users, List.head?_cons, Option.map_some, Option.getD_some,
        filled.paramsAt_eq wellFormed firstMember, filled.paramsAt_eq wellFormed member, same]

end Filled

end SlotTable

namespace Row

variable (wellFormed : circuit.WellFormed)
include wellFormed

theorem scalars_marked (table : SlotTable) (has : circuit.Has scalar)
    (kind : (circuit.node scalar.node).kind = .sum) :
    scalars circuit.groupSize ((circuit.node scalar.node).children.map fun child =>
      ((table.valuesAt child).start, (circuit.node child).numNodes)) =
      (circuit.operands scalar).map fun operand =>
        (table.slot circuit operand, operand.lane == 0) := by
  simp only [scalars, List.flatMap_map, Circuit.operands, kind, List.map_flatMap]
  apply List.flatMap_congr
  intro child isChild
  have reachable := wellFormed.child_reachable has.reachable isChild
  rw [Node.numNodes, (wellFormed.admits reachable).groupSize_eq, range_mul_map, Circuit.scalars,
    List.map_flatMap]
  apply List.flatMap_congr
  intro group _
  rw [List.map_map]
  apply List.map_congr_left
  intro lane bound
  simp [SlotTable.slot, Nat.add_assoc, Nat.mod_eq_of_lt (List.mem_range.mp bound)]

theorem scalars_eq (table : SlotTable) (has : circuit.Has scalar)
    (kind : (circuit.node scalar.node).kind = .sum) :
    (scalars circuit.groupSize ((circuit.node scalar.node).children.map fun child =>
      ((table.valuesAt child).start, (circuit.node child).numNodes))).map (·.1) =
      (circuit.operands scalar).map (table.slot circuit) := by
  rw [scalars_marked wellFormed table has kind, List.map_map]
  rfl

omit wellFormed in
theorem length_scalars (circuit : Circuit) (table : SlotTable) (id : NodeId) :
    (scalars circuit.groupSize ((circuit.node id).children.map fun child =>
      ((table.valuesAt child).start, (circuit.node child).numNodes))).length =
      circuit.arena.fanIn (circuit.node id) := by
  simp [scalars, Arena.fanIn, ← List.sum_eq_foldl_nat, List.length_flatMap, Function.comp_def,
    Circuit.node]

theorem reads_eq {kind : LayerKind} (table : SlotTable) (has : circuit.Has scalar)
    (same : (circuit.node scalar.node).layerKind? = some kind) (first : scalar.lane = 0) :
    (ofGroup circuit table kind scalar.node scalar.group).reads =
      (circuit.operands scalar).map (table.slot circuit) := by
  cases kind with
  | product =>
      rw [Circuit.operands, Layout.layerKind_eq_product.mp same]
      simp [ofGroup, ofProduct, SlotTable.slot, first, Function.comp_def]
  | sum =>
      rw [← scalars_eq wellFormed table has (Layout.layerKind_eq_sum.mp same)]
      rfl

omit wellFormed in
theorem product_lane {F : Type} [Arithmetic F] (table : SlotTable) (values params : Array F)
    (leaf : Scalar → F) (weight : NodeId → Nat → F)
    (kind : (circuit.node scalar.node).kind = .product) :
    (ofGroup circuit table .product scalar.node scalar.group).lane .product values params
        scalar.lane =
      circuit.valueStep leaf weight
        (fun operand => Buffer.number values (table.slot circuit operand)) scalar := by
  rw [Circuit.valueStep, Circuit.operands, kind]
  simp [lane, ofGroup, ofProduct, Buffer.sumAt, Arithmetic.sum, SlotTable.slot, List.foldl_map]

theorem range_fanIn (table : SlotTable) (has : circuit.Has scalar)
    (kind : (circuit.node scalar.node).kind = .sum) :
    List.range (circuit.arena.fanIn (circuit.node scalar.node)) =
      List.range' 0 (circuit.operands scalar).length := by
  have length := congrArg List.length (scalars_eq wellFormed table has kind)
  rw [List.length_map, List.length_map, length_scalars] at length
  rw [length, List.range_eq_range']

theorem sum_edges (table : SlotTable) (has : circuit.Has scalar)
    (kind : (circuit.node scalar.node).kind = .sum) :
    let row := ofGroup circuit table .sum scalar.node scalar.group
    row.reads.zip row.params = (circuit.operands scalar).zipIdx.map fun (operand, edge) =>
      (table.slot circuit operand,
        (table.paramsAt scalar.node).start +
          scalar.group * circuit.arena.fanIn (circuit.node scalar.node) * circuit.groupSize +
            edge * circuit.groupSize) := by
  simp only [ofGroup, ofSum]
  rw [scalars_eq wellFormed table has kind, length_scalars, List.zipIdx_eq_zip_range',
    range_fanIn wellFormed table has kind, List.zip_map]
  rfl

theorem sum_lane {F : Type} [Arithmetic F] (values params : Array F) (leaf : Scalar → F)
    (has : circuit.Has scalar) (kind : (circuit.node scalar.node).kind = .sum)
    (filled : table.Filled circuit served) :
    (ofGroup circuit table .sum scalar.node scalar.group).lane .sum values params scalar.lane =
      circuit.valueStep leaf (table.weight circuit params)
        (fun operand => Buffer.number values (table.slot circuit operand)) scalar := by
  have owned : table.ownerParams circuit (circuit.owner scalar.node) =
      table.paramsAt scalar.node :=
    filled.ownerParams_eq wellFormed
      ((Pool.mem_nodes wellFormed).mpr ⟨has.reachable, Pool.of_sum kind⟩)
  rw [Circuit.valueStep, kind]
  dsimp only [lane]
  rw [sum_edges wellFormed table has kind, List.map_map]
  apply congrArg Arithmetic.logSumExp
  apply List.map_congr_left
  rintro ⟨operand, edge⟩ -
  simp only [Function.comp_def, SlotTable.weight, owned, Nat.add_mul, Nat.add_assoc]

variable {kind : LayerKind}

omit wellFormed in
theorem start_eq (table : SlotTable) (kind : LayerKind) (scalar : Scalar) :
    (ofGroup circuit table kind scalar.node scalar.group).start =
      (table.valuesAt scalar.node).start + scalar.group * circuit.groupSize := by
  cases kind <;> rfl

theorem read_inside (filled : table.Filled circuit served) (has : circuit.Has scalar)
    (same : (circuit.node scalar.node).layerKind? = some kind) (first : scalar.lane = 0)
    {read : Nat} (isRead : read ∈ (ofGroup circuit table kind scalar.node scalar.group).reads) :
    ∃ child ∈ (circuit.node scalar.node).children, (table.valuesAt child).start ≤ read ∧
      read + Partition.childSpan kind circuit.groupSize ≤ (table.valuesAt child).stop := by
  rw [reads_eq wellFormed table has same first] at isRead
  obtain ⟨operand, member, rfl⟩ := List.mem_map.mp isRead
  have operandHas := wellFormed.has_operand has member
  have inside := filled.group_inside wellFormed operandHas
  refine ⟨operand.node, Circuit.child_of_mem_operands member, ?_, ?_⟩
  · rw [SlotTable.slot, Nat.add_assoc]
    exact Nat.le_add_right _ _
  · cases kind with
    | product =>
        have lane : operand.lane = 0 := by
          rw [Circuit.operands, Layout.layerKind_eq_product.mp same] at member
          obtain ⟨child, -, rfl⟩ := List.mem_map.mp member
          exact first
        rw [SlotTable.slot, lane]
        exact inside
    | sum =>
        have lane := operandHas.lane_lt
        simp only [SlotTable.slot, Partition.childSpan]
        omega

omit wellFormed in
theorem params_eq (circuit : Circuit) (table : SlotTable) (id : NodeId) (group : Nat) :
    (ofGroup circuit table .sum id group).params =
      (List.range (circuit.arena.fanIn (circuit.node id))).map fun edge =>
        (table.paramsAt id).start +
          (group * circuit.arena.fanIn (circuit.node id) + edge) * circuit.groupSize := by
  simp only [ofGroup, ofSum, length_scalars, Nat.add_mul, Nat.add_assoc]

theorem param_in_range (filled : table.Filled circuit served) (has : circuit.Has scalar)
    (kind : (circuit.node scalar.node).kind = .sum) {edge : Nat}
    (bound : edge < circuit.arena.fanIn (circuit.node scalar.node)) :
    (table.paramsAt scalar.node).start +
        (scalar.group * circuit.arena.fanIn (circuit.node scalar.node) + edge) * circuit.groupSize +
          circuit.groupSize ≤ (table.paramsAt scalar.node).stop := by
  have member : scalar.node ∈ Pool.sums.nodes circuit :=
    (Pool.mem_nodes wellFormed).mpr ⟨has.reachable, Pool.of_sum kind⟩
  have width_eq : circuit.paramWidth scalar.node = (circuit.node scalar.node).numGroups *
      circuit.arena.fanIn (circuit.node scalar.node) * circuit.groupSize := by
    rw [Circuit.paramWidth, kind, (wellFormed.admits has.reachable).groupSize_eq]
  rw [(filled.params_width wellFormed member).1, width_eq, Nat.add_assoc, ← Nat.succ_mul]
  apply Nat.add_le_add_left
  apply Nat.mul_le_mul_right
  have groups := Nat.mul_le_mul_right (circuit.arena.fanIn (circuit.node scalar.node)) has.group_lt
  rw [Nat.succ_mul] at groups
  omega

theorem param_inside (filled : table.Filled circuit served) (has : circuit.Has scalar)
    (kind : (circuit.node scalar.node).kind = .sum) {start : Nat}
    (isParam : start ∈ (ofGroup circuit table .sum scalar.node scalar.group).params) :
    start + circuit.groupSize ≤ table.numSumParams := by
  have member : scalar.node ∈ Pool.sums.nodes circuit :=
    (Pool.mem_nodes wellFormed).mpr ⟨has.reachable, Pool.of_sum kind⟩
  rw [params_eq, List.mem_map] at isParam
  obtain ⟨edge, edgeMember, rfl⟩ := isParam
  exact Nat.le_trans (param_in_range wellFormed filled has kind (List.mem_range.mp edgeMember))
    (filled.params_width wellFormed member).2

theorem fits (filled : table.Filled circuit served) (has : circuit.Has scalar)
    (same : (circuit.node scalar.node).layerKind? = some kind) (first : scalar.lane = 0)
    {numValues numParams : Nat} (enough : table.numValues ≤ numValues)
    (enoughParams : table.numSumParams ≤ numParams) :
    (ofGroup circuit table kind scalar.node scalar.group).Fits kind circuit.groupSize numValues
      numParams := by
  constructor
  case target =>
    rw [start_eq]
    exact Nat.le_trans (filled.group_inside wellFormed has)
      (Nat.le_trans (filled.values_bound wellFormed has.reachable) enough)
  case reads =>
    intro read isRead
    obtain ⟨child, isChild, -, inside⟩ := read_inside wellFormed filled has same first isRead
    have childReachable := wellFormed.child_reachable has.reachable isChild
    exact Nat.le_trans inside
      (Nat.le_trans (filled.values_bound wellFormed childReachable) enough)
  case aligned =>
    rintro rfl
    simp [ofGroup, ofSum]
  case params =>
    rintro rfl start isParam
    exact Nat.le_trans
      (param_inside wellFormed filled has (Layout.layerKind_eq_sum.mp same) isParam) enoughParams

end Row
end CircuitPlan
