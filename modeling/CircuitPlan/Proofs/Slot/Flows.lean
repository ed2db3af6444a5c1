import Mathlib.Data.List.Perm.Basic
import CircuitPlan.Proofs.Slot.Tiling

namespace CircuitPlan

variable {circuit : Circuit} {table : SlotTable} {served : List (Purpose × Span)}
  {id owner : NodeId} {pool : Pool}

theorem Circuit.usesTarget_iff :
    circuit.sharing.usesTarget owner id = true ↔
      (circuit.users owner).length = 1 ∨ id = owner := by
  rw [Sharing.usesTarget, members_eq_users, Bool.or_eq_true, beq_iff_eq, beq_iff_eq]

theorem Circuit.usesTarget_unique {other : NodeId} (user : id ∈ circuit.users owner)
    (otherUser : other ∈ circuit.users owner)
    (uses : circuit.sharing.usesTarget owner id = true)
    (otherUses : circuit.sharing.usesTarget owner other = true) : id = other := by
  by_cases single : (circuit.users owner).length = 1
  · obtain ⟨only, users⟩ := List.length_eq_one_iff.mp single
    rw [users, List.mem_singleton] at user otherUser
    rw [user, otherUser]
  · have own := (usesTarget_iff.mp uses).resolve_left single
    have otherOwn := (usesTarget_iff.mp otherUses).resolve_left single
    rw [own, otherOwn]

theorem Circuit.isTied_iff :
    circuit.sharing.isTied owner = true ↔ ∃ id ∈ circuit.users owner, id ≠ owner := by
  rw [Sharing.isTied, members_eq_users, List.any_eq_true]
  simp

theorem Circuit.isTied_of_several (several : 2 ≤ (circuit.users owner).length) :
    circuit.sharing.isTied owner = true := by
  rw [isTied_iff]
  by_contra none
  have own : circuit.users owner ⊆ [owner] := by
    intro id uses
    by_contra other
    exact none ⟨id, uses, by simpa using other⟩
  have few := (List.subperm_of_subset (circuit.users_nodup owner) own).length_le
  exact absurd several (Nat.not_le_of_lt (Nat.lt_succ_of_le few))

/-! ## Purposes of flows -/

namespace Pool

def spares (circuit : Circuit) (pool : Pool) : List NodeId :=
  (Sharing.owners circuit (pool.nodes circuit)).filter fun owner =>
    decide (owner ∉ circuit.reachable ∧ 2 ≤ (circuit.users owner).length)

theorem mem_spares : owner ∈ pool.spares circuit ↔
    owner ∈ Sharing.owners circuit (pool.nodes circuit) ∧ owner ∉ circuit.reachable ∧
      2 ≤ (circuit.users owner).length := by
  rw [spares, List.mem_filter, decide_eq_true_iff]

end Pool

namespace Request

def flowPurpose (circuit : Circuit) (id : NodeId) : Purpose :=
  if circuit.sharing.usesTarget (circuit.owner id) id then .target (circuit.owner id)
  else .flows id

theorem flowPurpose_eq_target : flowPurpose circuit id = .target owner ↔
    circuit.owner id = owner ∧ ((circuit.users owner).length = 1 ∨ id = owner) := by
  unfold flowPurpose
  by_cases uses : circuit.sharing.usesTarget (circuit.owner id) id = true
  · rw [if_pos uses, Purpose.target.injEq]
    constructor
    · rintro rfl
      exact ⟨rfl, Circuit.usesTarget_iff.mp uses⟩
    · exact And.left
  · rw [if_neg uses]
    constructor
    · intro same
      cases same
    · rintro ⟨rfl, conditions⟩
      exact absurd (Circuit.usesTarget_iff.mpr conditions) uses

theorem flowPurpose_injective (wellFormed : circuit.WellFormed) {other : NodeId}
    (member : id ∈ pool.nodes circuit) (otherMember : other ∈ pool.nodes circuit)
    (same : flowPurpose circuit id = flowPurpose circuit other) : id = other := by
  unfold flowPurpose at same
  split at same
  · split at same
    · rename_i uses otherUses
      have owners : circuit.owner id = circuit.owner other := by simpa using same
      have inUsers := Pool.mem_users_self wellFormed member
      rw [owners] at inUsers uses
      exact Circuit.usesTarget_unique inUsers (Pool.mem_users_self wellFormed otherMember) uses
        otherUses
    · simp at same
  · split at same
    · simp at same
    · simpa using same

theorem flowPurposes_nodup (circuit : Circuit) (pool : Pool) :
    ((pool.nodes circuit).flatMap (flowPurposes circuit)).Nodup := by
  have asked (id : NodeId) (purpose : Purpose) (member : purpose ∈ flowPurposes circuit id) :
      asker circuit purpose = id := by
    unfold flowPurposes at member
    rcases List.mem_append.mp member with first | own
    · split at first
      · rename_i isFirst
        rw [List.mem_singleton.mp first, asker, isFirst_iff.mp isFirst, Option.getD_some]
      · cases first
    · split at own
      · cases own
      · rw [List.mem_singleton.mp own, asker]
  rw [List.nodup_flatMap]
  constructor
  · intro id _
    unfold flowPurposes
    split <;> split <;> simp
  · refine (Pool.nodes_nodup circuit pool).imp ?_
    intro first second different purpose inFirst inSecond
    exact different ((asked first purpose inFirst).symm.trans (asked second purpose inSecond))

theorem mem_flowPurposes_target (wellFormed : circuit.WellFormed) :
    .target owner ∈ (pool.nodes circuit).flatMap (flowPurposes circuit) ↔
      owner ∈ Sharing.owners circuit (pool.nodes circuit) := by
  rw [List.mem_flatMap]
  constructor
  · rintro ⟨id, member, asked⟩
    unfold flowPurposes at asked
    rw [Pool.mem_owners]
    refine ⟨id, member, ?_⟩
    rcases List.mem_append.mp asked with first | own
    · split at first <;> simp_all
    · split at own <;> simp at own
  · intro used
    obtain ⟨first, member, same, isFirst⟩ := Pool.exists_first wellFormed used
    refine ⟨first, member, List.mem_append_left _ ?_⟩
    rw [same, isFirst]
    exact List.mem_singleton_self _

theorem mem_flowPurposes_flows :
    .flows id ∈ (pool.nodes circuit).flatMap (flowPurposes circuit) ↔
      id ∈ pool.nodes circuit ∧ circuit.sharing.usesTarget (circuit.owner id) id = false := by
  rw [List.mem_flatMap]
  constructor
  · rintro ⟨other, member, asked⟩
    unfold flowPurposes at asked
    rcases List.mem_append.mp asked with first | own
    · split at first <;> simp at first
    · split at own
      · cases own
      · rename_i uses
        cases List.mem_singleton.mp own
        exact ⟨member, by simpa using uses⟩
  · rintro ⟨member, uses⟩
    refine ⟨id, member, List.mem_append_right _ ?_⟩
    rw [uses]
    exact List.mem_singleton_self _

theorem target_cases (wellFormed : circuit.WellFormed)
    (used : owner ∈ Sharing.owners circuit (pool.nodes circuit)) :
    (∃ id ∈ pool.nodes circuit, flowPurpose circuit id = .target owner) ∨
      owner ∈ pool.spares circuit := by
  obtain ⟨first, member, rfl⟩ := Pool.mem_owners.mp used
  by_cases several : 2 ≤ (circuit.users (circuit.owner first)).length
  · by_cases reachable : circuit.owner first ∈ circuit.reachable
    · have self := wellFormed.owner_owner ((Pool.mem_nodes wellFormed).mp member).1
      have inPool := Pool.mem_nodes_of_owner_eq wellFormed member reachable self
      exact .inl ⟨_, inPool, flowPurpose_eq_target.mpr ⟨self, .inr rfl⟩⟩
    · exact .inr (Pool.mem_spares.mpr ⟨used, reachable, several⟩)
  · have positive := List.length_pos_of_mem (Pool.mem_users_self wellFormed member)
    exact .inl ⟨first, member, flowPurpose_eq_target.mpr ⟨rfl, .inl (by omega)⟩⟩

theorem not_mem_spares_of_target (wellFormed : circuit.WellFormed)
    (member : id ∈ pool.nodes circuit) (same : flowPurpose circuit id = .target owner) :
    owner ∉ pool.spares circuit := by
  intro spare
  obtain ⟨-, unreachable, several⟩ := Pool.mem_spares.mp spare
  obtain ⟨rfl, single | own⟩ := flowPurpose_eq_target.mp same
  · omega
  · rw [← own] at unreachable
    exact unreachable ((Pool.mem_nodes wellFormed).mp member).1

theorem flowPurposes_perm (wellFormed : circuit.WellFormed) (pool : Pool) :
    ((pool.nodes circuit).map (flowPurpose circuit) ++
        (pool.spares circuit).map Purpose.target).Perm
      ((pool.nodes circuit).flatMap (flowPurposes circuit)) := by
  have distinct : ((pool.nodes circuit).map (flowPurpose circuit) ++
      (pool.spares circuit).map Purpose.target).Nodup := by
    rw [List.nodup_append']
    refine ⟨?_, ?_, ?_⟩
    · refine (Pool.nodes_nodup circuit pool).map_on ?_
      intro id member other otherMember same
      exact flowPurpose_injective wellFormed member otherMember same
    · refine ((SlotTable.Filled.owners_nodup circuit pool).filter _).map ?_
      intro left right same
      simpa using same
    · intro purpose left right
      obtain ⟨id, member, rfl⟩ := List.mem_map.mp left
      obtain ⟨owner, spare, same⟩ := List.mem_map.mp right
      exact not_mem_spares_of_target wellFormed member same.symm spare
  -- The orders differ: a target is asked for by the first user of its owner, whoever gets it.
  rw [List.perm_ext_iff_of_nodup distinct (flowPurposes_nodup circuit pool)]
  intro purpose
  rw [List.mem_append, List.mem_map, List.mem_map]
  constructor
  · rintro (⟨id, member, rfl⟩ | ⟨owner, spare, rfl⟩)
    · unfold flowPurpose
      split
      · exact (mem_flowPurposes_target wellFormed).mpr (Pool.mem_owners.mpr ⟨id, member, rfl⟩)
      · rename_i uses
        exact mem_flowPurposes_flows.mpr ⟨member, by simpa using uses⟩
    · exact (mem_flowPurposes_target wellFormed).mpr (Pool.mem_spares.mp spare).1
  · intro asked
    cases purpose with
    | target owner =>
        rcases target_cases wellFormed ((mem_flowPurposes_target wellFormed).mp asked) with
          ⟨id, member, same⟩ | spare
        · exact .inl ⟨id, member, same⟩
        · exact .inr ⟨owner, spare, rfl⟩
    | flows id =>
        obtain ⟨member, uses⟩ := mem_flowPurposes_flows.mp asked
        refine .inl ⟨id, member, ?_⟩
        rw [flowPurpose, uses, if_neg Bool.false_ne_true]
    | values id => simp [flowPurposes] at asked
    | metadata id => simp [flowPurposes] at asked
    | params owner => simp [flowPurposes] at asked

end Request

/-! ## Tie groups -/

namespace Circuit.WellFormed

theorem tiedTo_eq_some_iff (wellFormed : circuit.WellFormed) (reachable : id ∈ circuit.reachable) :
    (circuit.node id).tiedTo = some owner ↔ circuit.owner id = owner ∧ id ≠ owner := by
  cases tied : (circuit.node id).tiedTo with
  | none => simp [owner_of_untied tied]
  | some source =>
      have earlier := ((wellFormed.admits reachable).tie_rules source tied).earlier
      have same : circuit.owner id = source := by rw [Circuit.owner, tied, Option.getD_some]
      rw [same, Option.some.injEq]
      constructor
      · rintro rfl
        exact ⟨rfl, Nat.ne_of_gt earlier⟩
      · exact And.left

end Circuit.WellFormed

namespace SlotTable

theorem Filled.mem_ties (filled : Filled circuit served table) {tie : TieGroup} :
    tie ∈ table.tiesOf pool ↔ ∃ owner ∈ Sharing.owners circuit (pool.nodes circuit),
      circuit.sharing.isTied owner = true ∧
      tie = { source := owner
              params := spanOf served (.params owner)
              target := spanOf served (.target owner)
              members := circuit.users owner
              flowStarts := (circuit.users owner).map fun id =>
                (flowsOf circuit.sharing served owner id).start } := by
  rw [filled.ties_eq, ties, List.mem_map]
  constructor
  · rintro ⟨owner, used, rfl⟩
    obtain ⟨used, tied⟩ := List.mem_filter.mp used
    exact ⟨owner, used, tied, by rw [Circuit.members_eq_users]⟩
  · rintro ⟨owner, used, tied, rfl⟩
    exact ⟨owner, List.mem_filter.mpr ⟨used, tied⟩, by rw [Circuit.members_eq_users]⟩

theorem Filled.sources_eq (filled : Filled circuit served table) (pool : Pool) :
    (table.tiesOf pool).map (·.source) =
      (Sharing.owners circuit (pool.nodes circuit)).filter circuit.sharing.isTied := by
  rw [filled.ties_eq, ties, List.map_map]
  exact List.map_id _

theorem Filled.spare_targets (filled : Filled circuit served table) (pool : Pool) :
    ((table.tiesOf pool).filter fun tie =>
        decide (tie.source ∉ circuit.reachable ∧ 2 ≤ tie.members.length)).map (·.target) =
      (pool.spares circuit).map fun owner => spanOf served (.target owner) := by
  rw [filled.ties_eq, ties, List.filter_map, List.map_map, List.filter_filter, Pool.spares]
  have same : ((Sharing.owners circuit (pool.nodes circuit)).filter fun owner =>
      decide (owner ∉ circuit.reachable ∧ 2 ≤ (circuit.users owner).length) &&
        circuit.sharing.isTied owner) =
      (Sharing.owners circuit (pool.nodes circuit)).filter fun owner =>
        decide (owner ∉ circuit.reachable ∧ 2 ≤ (circuit.users owner).length) := by
    apply List.filter_congr
    intro owner _
    by_cases spare : owner ∉ circuit.reachable ∧ 2 ≤ (circuit.users owner).length
    · simp [Circuit.isTied_of_several spare.2]
    · simp [spare]
  simp only [Function.comp_def, Circuit.members_eq_users]
  rw [same]

structure FlowTiling (circuit : Circuit) (table : SlotTable) (pool : Pool) : Prop where
  /-- In some order, the flows of all node vectors and the targets of unreachable owners with
  several users follow each other without a gap. -/
  consecutive : ∃ ranges : List Span,
    ranges.Perm ((pool.nodes circuit).map table.flowsAt ++
      ((table.tiesOf pool).filter fun tie =>
        decide (tie.source ∉ circuit.reachable ∧ 2 ≤ tie.members.length)).map (·.target)) ∧
    Span.Consecutive 0 ranges (table.numFlows pool)
  reported : ∀ id ∈ pool.nodes circuit,
    ∃ slots, table.get? id = some slots ∧ slots.flows = some (table.flowsAt id)
  flows_width : ∀ id ∈ pool.nodes circuit,
    (table.flowsAt id).stop = (table.flowsAt id).start + circuit.flowWidth id
  target_width : ∀ tie ∈ table.tiesOf pool,
    tie.target.stop = tie.target.start + circuit.flowWidth tie.source
  sources_nodup : ((table.tiesOf pool).map (·.source)).Nodup
  mem_sources : ∀ owner, owner ∈ (table.tiesOf pool).map (·.source) ↔
    ∃ id ∈ pool.nodes circuit, (circuit.node id).tiedTo = some owner
  members : ∀ tie ∈ table.tiesOf pool, tie.members =
    (Layout.ofCircuit circuit).order.filter fun id => circuit.owner id == tie.source
  flowStarts : ∀ tie ∈ table.tiesOf pool,
    tie.flowStarts = tie.members.map fun id => (table.flowsAt id).start
  target_of_reachable : ∀ tie ∈ table.tiesOf pool, tie.source ∈ circuit.reachable →
    tie.target = table.flowsAt tie.source
  target_of_single : ∀ tie ∈ table.tiesOf pool, ∀ id, tie.members = [id] →
    tie.target = table.flowsAt id

section Filled

variable (wellFormed : circuit.WellFormed) (filled : Filled circuit served table)
include wellFormed filled

theorem Filled.flowsAt_eq_spanOf (member : id ∈ pool.nodes circuit) :
    table.flowsAt id = spanOf served (Request.flowPurpose circuit id) :=
  filled.flowsAt_eq wellFormed member

theorem Filled.flows_consecutive (pool : Pool) : ∃ ranges : List Span,
    ranges.Perm ((pool.nodes circuit).map table.flowsAt ++
      ((table.tiesOf pool).filter fun tie =>
        decide (tie.source ∉ circuit.reachable ∧ 2 ≤ tie.members.length)).map (·.target)) ∧
    Span.Consecutive 0 ranges (table.numFlows pool) := by
  refine ⟨_, ?_, filled.flows pool⟩
  have permuted := (Request.flowPurposes_perm wellFormed pool).map (spanOf served)
  rw [List.map_append, List.map_map, List.map_map] at permuted
  have same : (pool.nodes circuit).map table.flowsAt =
      (pool.nodes circuit).map (spanOf served ∘ Request.flowPurpose circuit) := by
    apply List.map_congr_left
    intro id member
    exact filled.flowsAt_eq_spanOf wellFormed member
  rw [filled.spare_targets, same]
  exact permuted.symm

theorem Filled.mem_sources : owner ∈ (table.tiesOf pool).map (·.source) ↔
    ∃ id ∈ pool.nodes circuit, (circuit.node id).tiedTo = some owner := by
  rw [filled.sources_eq, List.mem_filter, Circuit.isTied_iff]
  constructor
  · rintro ⟨used, id, uses, other⟩
    obtain ⟨inPool, same⟩ := Pool.of_mem_users wellFormed used uses
    have reachable := ((Pool.mem_nodes wellFormed).mp inPool).1
    exact ⟨id, inPool, (wellFormed.tiedTo_eq_some_iff reachable).mpr ⟨same, other⟩⟩
  · rintro ⟨id, member, tied⟩
    have reachable := ((Pool.mem_nodes wellFormed).mp member).1
    obtain ⟨rfl, other⟩ := (wellFormed.tiedTo_eq_some_iff reachable).mp tied
    exact ⟨Pool.mem_owners.mpr ⟨id, member, rfl⟩, id, Pool.mem_users_self wellFormed member,
      other⟩

theorem Filled.target_of_reachable (used : owner ∈ Sharing.owners circuit (pool.nodes circuit))
    (reachable : owner ∈ circuit.reachable) :
    spanOf served (.target owner) = table.flowsAt owner := by
  obtain ⟨first, member, rfl⟩ := Pool.mem_owners.mp used
  have self := wellFormed.owner_owner ((Pool.mem_nodes wellFormed).mp member).1
  have inPool := Pool.mem_nodes_of_owner_eq wellFormed member reachable self
  rw [filled.flowsAt_eq_spanOf wellFormed inPool,
    Request.flowPurpose_eq_target.mpr ⟨self, .inr rfl⟩]

theorem Filled.target_of_single (used : owner ∈ Sharing.owners circuit (pool.nodes circuit))
    (single : circuit.users owner = [id]) :
    spanOf served (.target owner) = table.flowsAt id := by
  obtain ⟨first, member, rfl⟩ := Pool.mem_owners.mp used
  have isFirst := Pool.mem_users_self wellFormed member
  rw [single, List.mem_singleton] at isFirst
  subst isFirst
  have alone : (circuit.users (circuit.owner first)).length = 1 := by rw [single]; rfl
  rw [filled.flowsAt_eq_spanOf wellFormed member,
    Request.flowPurpose_eq_target.mpr ⟨rfl, .inl alone⟩]

end Filled

theorem ofLayout_flowTiling (accepted : circuit.Accepted)
    (success : ofLayout circuit (Layout.ofCircuit circuit) = .ok table) (pool : Pool) :
    FlowTiling circuit table pool := by
  have wellFormed := accepted.wellFormed
  obtain ⟨served, filled⟩ := exists_filled wellFormed success
  constructor
  case consecutive => exact filled.flows_consecutive wellFormed pool
  case reported =>
    intro id member
    obtain ⟨slots, found, -, flows⟩ := filled.reported wellFormed member
    exact ⟨slots, found, by rw [flows, filled.flowsAt_eq wellFormed member]⟩
  case flows_width =>
    intro id member
    exact (filled.flows_width wellFormed member).1
  case target_width =>
    intro tie member
    obtain ⟨owner, used, -, rfl⟩ := filled.mem_ties.mp member
    exact (filled.owner_widths wellFormed used).2.1
  case sources_nodup =>
    rw [filled.sources_eq]
    exact (Filled.owners_nodup circuit pool).filter _
  case mem_sources =>
    intro owner
    exact filled.mem_sources wellFormed
  case members =>
    intro tie member
    obtain ⟨owner, used, -, rfl⟩ := filled.mem_ties.mp member
    obtain ⟨first, firstMember, rfl⟩ := Pool.mem_owners.mp used
    exact Pool.users_eq_order wellFormed firstMember
  case flowStarts =>
    intro tie member
    obtain ⟨owner, used, -, rfl⟩ := filled.mem_ties.mp member
    apply List.map_congr_left
    intro id uses
    obtain ⟨inPool, same⟩ := Pool.of_mem_users wellFormed used uses
    rw [filled.flowsAt_eq wellFormed inPool, same]
  case target_of_reachable =>
    intro tie member reachable
    obtain ⟨owner, used, -, rfl⟩ := filled.mem_ties.mp member
    exact filled.target_of_reachable wellFormed used reachable
  case target_of_single =>
    intro tie member id single
    obtain ⟨owner, used, -, rfl⟩ := filled.mem_ties.mp member
    exact filled.target_of_single wellFormed used single

theorem twin_flowTiling : ∃ table,
    ofLayout Circuit.twin (Layout.ofCircuit Circuit.twin) = .ok table ∧
      FlowTiling Circuit.twin table .sums := by
  have passes : (ofLayout Circuit.twin (Layout.ofCircuit Circuit.twin)).isOk = true := by
    decide +kernel
  obtain ⟨table, success⟩ := exists_of_isOk passes
  exact ⟨table, success, ofLayout_flowTiling Circuit.twin_accepted success .sums⟩

end SlotTable
end CircuitPlan
