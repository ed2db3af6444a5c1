import CircuitPlan.Initial
import CircuitPlan.Proofs.Layer.Lanes
import CircuitPlan.Proofs.Layer.Places
import Mathlib.Data.List.Perm.Basic

namespace CircuitPlan

variable {circuit : Circuit} {table : SlotTable} {served : List (Purpose × Span)} {id owner : NodeId}
  {mixture other : Scalar}

theorem flatMap_comm_perm {α β γ : Type} (xs : List α) (ys : List β) (f : α → β → List γ) :
    (xs.flatMap fun x => ys.flatMap fun y => f x y).Perm
      (ys.flatMap fun y => xs.flatMap fun x => f x y) := by
  induction xs with
  | nil => simp
  | cons x xs ih =>
      simp only [List.flatMap_cons]
      exact (ih.append_left _).trans (List.flatMap_append_perm ys _ _)

theorem range_mul_flatMap {α : Type} (blocks width : Nat) (f : Nat → List α) :
    (List.range (blocks * width)).flatMap f =
      (List.range blocks).flatMap fun block =>
        (List.range width).flatMap fun index => f (block * width + index) := by
  rw [List.flatMap_def, range_mul_map, List.flatten_eq_flatMap, List.flatMap_assoc]
  simp only [List.flatMap_map, id_eq]

theorem columns_perm (start numGroups fanIn groupSize : Nat) :
    ((List.range numGroups).flatMap fun group => (List.range groupSize).flatMap fun lane =>
      (List.range fanIn).map fun edge =>
        start + ((group * fanIn + edge) * groupSize + lane)).Perm
      ((List.range (numGroups * fanIn * groupSize)).map (start + ·)) := by
  rw [range_mul_map, range_mul_flatMap]
  apply List.Perm.flatMap_left
  intro group _
  simp only [List.map_eq_flatMap]
  exact flatMap_comm_perm _ _ _

theorem Circuit.WellFormed.owner_of_sum (wellFormed : circuit.WellFormed)
    (reachable : id ∈ circuit.reachable) (kind : (circuit.node id).kind = .sum) :
    (circuit.node (circuit.owner id)).numGroups = (circuit.node id).numGroups ∧
      circuit.arena.fanIn (circuit.node (circuit.owner id)) =
        circuit.arena.fanIn (circuit.node id) := by
  cases tied : (circuit.node id).tiedTo with
  | none =>
      rw [Circuit.owner_of_untied tied]
      exact ⟨rfl, rfl⟩
  | some source =>
      have rules := (wellFormed.admits reachable).tie_rules source tied
      have shapes := rules.shapes
      rw [Circuit.owner, tied, Option.getD_some]
      refine ⟨rules.numGroups_eq, ?_⟩
      unfold Arena.SameShapes at shapes
      cases origin : (circuit.arena.node source).kind <;> simp [origin, kind] at shapes
      exact shapes

theorem Circuit.WellFormed.fanIn_pos (wellFormed : circuit.WellFormed)
    (reachable : id ∈ circuit.reachable) (kind : (circuit.node id).kind = .sum) :
    0 < circuit.arena.fanIn (circuit.node id) := by
  have inner : (circuit.node id).tag ≠ .input := by simp [Node.tag_eq_sum.mpr kind]
  obtain ⟨child, isChild⟩ :=
    List.exists_mem_of_ne_nil _ (wellFormed.children_ne_nil reachable inner)
  have admits := wellFormed.admits (wellFormed.child_reachable reachable isChild)
  have positive : 0 < (circuit.node child).numNodes := by
    rw [Node.numNodes, admits.groupSize_eq]
    exact Nat.mul_pos admits.numGroups_pos wellFormed.groupSize_pos
  rw [Arena.fanIn, ← List.sum_eq_foldl_nat, List.sum_pos_iff_exists_pos_nat]
  exact ⟨_, List.mem_map_of_mem isChild, positive⟩

namespace SumParams

/-- A scalar node of the owner of the parameters of a reachable sum. The owner itself need not be
reachable. -/
structure IsMixture (circuit : Circuit) (mixture : Scalar) : Prop where
  owned : ∃ id ∈ circuit.reachable, (circuit.node id).kind = .sum ∧
    circuit.owner id = mixture.node
  group_lt : mixture.group < (circuit.node mixture.node).numGroups
  lane_lt : mixture.lane < circuit.groupSize

/-- The parameter slots of the edges into a mixture, in the order of the edges. -/
def column (circuit : Circuit) (table : SlotTable) (mixture : Scalar) : List Nat :=
  let fanIn := circuit.arena.fanIn (circuit.node mixture.node)
  (List.range fanIn).map fun edge => (table.ownerParams circuit mixture.node).start +
    ((mixture.group * fanIn + edge) * circuit.groupSize + mixture.lane)

def sums (circuit : Circuit) : List NodeId :=
  circuit.reachable.filter fun id => (circuit.node id).tag = .sum

theorem mem_sums : id ∈ sums circuit ↔ id ∈ circuit.reachable ∧ (circuit.node id).kind = .sum := by
  rw [sums, List.mem_filter, decide_eq_true_iff, Node.tag_eq_sum]

theorem sums_nodup (circuit : Circuit) : (sums circuit).Nodup := circuit.reachable_nodup.filter _

theorem mem_sums_iff_pool (wellFormed : circuit.WellFormed) :
    id ∈ sums circuit ↔ id ∈ Pool.sums.nodes circuit := by
  rw [mem_sums, Pool.mem_nodes wellFormed, Pool.of_eq_sums]

theorem owners_perm (wellFormed : circuit.WellFormed) :
    (Sharing.owners circuit (sums circuit)).Perm
      (Sharing.owners circuit (Pool.sums.nodes circuit)) := by
  apply (List.perm_ext_iff_of_nodup (nodup_eraseDups _) (nodup_eraseDups _)).mpr
  intro owner
  simp only [List.mem_eraseDups, List.mem_map, mem_sums_iff_pool wellFormed]

theorem blocks_eq (wellFormed : circuit.WellFormed) (filled : table.Filled circuit served) :
    blocks circuit table = (InputLayer.firstOfOwners circuit (sums circuit)).map fun id =>
      (id, (table.paramsAt id).start) := by
  have entries : (table.nodes.filter fun entry => (circuit.node entry.1).tag = .sum) =
      (sums circuit).map fun id => (id, SlotTable.nodeSlots circuit (Layout.ofCircuit circuit)
        circuit.sharing served id) := by
    rw [filled.nodes_eq, List.filter_map]
    rfl
  have ids : ((sums circuit).map fun id => (id, SlotTable.nodeSlots circuit
      (Layout.ofCircuit circuit) circuit.sharing served id)).map (·.1) = sums circuit := by
    rw [List.map_map]
    exact List.map_id _
  rw [blocks, entries]
  dsimp only
  rw [ids, List.filter_map, List.filterMap_map]
  simp only [Function.comp_def]
  rw [InputLayer.filter_firsts, ← List.filterMap_eq_map']
  apply List.filterMap_congr
  intro id first
  have inside := (mem_sums_iff_pool wellFormed).mp (InputLayer.mem_of_first first)
  obtain ⟨slots, found, params, -⟩ := filled.reported wellFormed inside
  have reachable := ((Pool.mem_nodes wellFormed).mp inside).1
  obtain rfl := Option.some.inj (found.symm.trans (filled.get_of_reachable reachable))
  rw [params, filled.paramsAt_eq wellFormed inside, Option.map_some]

def mixtures (circuit : Circuit) : List Scalar :=
  (Sharing.owners circuit (sums circuit)).flatMap circuit.scalars

theorem mem_mixtures : mixture ∈ mixtures circuit ↔ IsMixture circuit mixture := by
  rw [mixtures, List.mem_flatMap]
  constructor
  · rintro ⟨owner, used, inside⟩
    obtain ⟨rfl, group, lane⟩ := Circuit.mem_scalars.mp inside
    rw [Sharing.owners, List.mem_eraseDups, List.mem_map] at used
    obtain ⟨id, isSum, same⟩ := used
    obtain ⟨reachable, kind⟩ := mem_sums.mp isSum
    exact ⟨⟨id, reachable, kind, same⟩, group, lane⟩
  · rintro ⟨⟨id, reachable, kind, same⟩, group, lane⟩
    refine ⟨mixture.node, ?_, Circuit.mem_scalars.mpr ⟨rfl, group, lane⟩⟩
    rw [Sharing.owners, List.mem_eraseDups, List.mem_map]
    exact ⟨id, mem_sums.mpr ⟨reachable, kind⟩, same⟩

section Filled

variable (wellFormed : circuit.WellFormed) (filled : table.Filled circuit served)
include wellFormed filled

theorem columns_eq (isSum : id ∈ sums circuit) :
    columns circuit.groupSize (circuit.node id).numGroups
        (circuit.arena.fanIn (circuit.node id)) (table.paramsAt id).start =
      (circuit.scalars (circuit.owner id)).map (column circuit table) := by
  obtain ⟨reachable, kind⟩ := mem_sums.mp isSum
  obtain ⟨numGroups, fanIn⟩ := wellFormed.owner_of_sum reachable kind
  have params := filled.ownerParams_eq wellFormed ((mem_sums_iff_pool wellFormed).mp isSum)
  simp only [columns, Circuit.scalars, List.map_flatMap, List.map_map, Function.comp_def, column,
    numGroups, fanIn, params, Nat.add_mul, Nat.add_assoc]

theorem blocks_columns :
    ((blocks circuit table).flatMap fun block => columns circuit.groupSize
      (circuit.node block.1).numGroups (circuit.arena.fanIn (circuit.node block.1)) block.2) =
      (mixtures circuit).map (column circuit table) := by
  have parameterized : ∀ id ∈ sums circuit, (circuit.node id).tag ≠ .product := by
    intro id isSum
    rw [Node.tag_eq_sum.mpr (mem_sums.mp isSum).2]
    nofun
  have owners := InputLayer.owners_firsts (sums_nodup circuit) parameterized
  rw [blocks_eq wellFormed filled, List.flatMap_map, mixtures, ← owners, List.flatMap_map,
    List.map_flatMap]
  apply List.flatMap_congr
  intro id first
  exact columns_eq wellFormed filled (InputLayer.mem_of_first first)

theorem owner_slots (used : owner ∈ Sharing.owners circuit (sums circuit)) :
    ((circuit.scalars owner).flatMap (column circuit table)).Perm
      ((List.range (SlotTable.spanOf served (.params owner)).size).map
        ((SlotTable.spanOf served (.params owner)).start + ·)) := by
  have inPool := (owners_perm wellFormed).mem_iff.mp used
  obtain ⟨id, isMember, rfl⟩ := Pool.mem_owners.mp inPool
  obtain ⟨reachable, kind⟩ := mem_sums.mp ((mem_sums_iff_pool wellFormed).mpr isMember)
  obtain ⟨numGroups, fanIn⟩ := wellFormed.owner_of_sum reachable kind
  have params : table.ownerParams circuit (circuit.owner id) =
      SlotTable.spanOf served (.params (circuit.owner id)) := by
    rw [filled.ownerParams_eq wellFormed isMember, filled.paramsAt_eq wellFormed isMember]
  have size : (SlotTable.spanOf served (.params (circuit.owner id))).size =
      (circuit.node id).numGroups * circuit.arena.fanIn (circuit.node id) * circuit.groupSize := by
    rw [Span.size, (filled.owner_widths wellFormed inPool).1.1, Nat.add_sub_cancel_left,
      (wellFormed.owns reachable).paramWidth_eq, Circuit.paramWidth, kind,
      (wellFormed.admits reachable).groupSize_eq]
  simp only [Circuit.scalars, List.flatMap_assoc, List.flatMap_map, column, numGroups, fanIn,
    params, size]
  exact columns_perm _ _ _ _

theorem slots_perm :
    ((mixtures circuit).flatMap (column circuit table)).Perm (List.range table.numSumParams) := by
  have offsets := (filled.params .sums).offsets_eq
  rw [SlotTable.numParams, Nat.sub_zero, ← List.range_eq_range'] at offsets
  rw [mixtures, List.flatMap_assoc, ← offsets]
  have each := List.Perm.flatMap_left (Sharing.owners circuit (sums circuit)) fun owner used =>
    owner_slots wellFormed filled used
  exact each.trans ((owners_perm wellFormed).flatMap_right _)

theorem slots_nodup : ((mixtures circuit).flatMap (column circuit table)).Nodup :=
  (slots_perm wellFormed filled).nodup_iff.mpr List.nodup_range

theorem mem_column_iff {slot : Nat} :
    (∃ mixture, IsMixture circuit mixture ∧ slot ∈ column circuit table mixture) ↔
      slot < table.numSumParams := by
  rw [← List.mem_range, ← (slots_perm wellFormed filled).mem_iff, List.mem_flatMap]
  simp only [mem_mixtures]

theorem column_nodup (isMixture : IsMixture circuit mixture) :
    (column circuit table mixture).Nodup :=
  (List.nodup_flatMap.mp (slots_nodup wellFormed filled)).1 mixture (mem_mixtures.mpr isMixture)

theorem columns_disjoint (isMixture : IsMixture circuit mixture)
    (isOther : IsMixture circuit other) (different : mixture ≠ other) :
    (column circuit table mixture).Disjoint (column circuit table other) := by
  have : Std.Symm fun left right =>
      (column circuit table left).Disjoint (column circuit table right) :=
    ⟨fun _ _ => List.disjoint_symm⟩
  exact (List.nodup_flatMap.mp (slots_nodup wellFormed filled)).2.forall
    (mem_mixtures.mpr isMixture) (mem_mixtures.mpr isOther) different

end Filled

end SumParams
end CircuitPlan
