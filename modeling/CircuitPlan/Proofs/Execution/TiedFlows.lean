import CircuitPlan.Proofs.Execution.Accumulate
import CircuitPlan.Proofs.Plan
import CircuitPlan.Proofs.Slot.Flows

namespace CircuitPlan

variable {circuit : Circuit} {table : SlotTable} {served : List (Purpose × Span)}
  {id owner : NodeId} {pool : Pool}

namespace Request

theorem mem_flowPurpose (wellFormed : circuit.WellFormed) (member : id ∈ pool.nodes circuit) :
    flowPurpose circuit id ∈ (pool.nodes circuit).flatMap (flowPurposes circuit) :=
  (flowPurposes_perm wellFormed pool).mem_iff.mp
    (List.mem_append_left _ (List.mem_map_of_mem member))

end Request

namespace SlotTable.Filled

open Request

variable (wellFormed : circuit.WellFormed) (filled : Filled circuit served table)
include wellFormed filled

theorem target_bound (used : owner ∈ Sharing.owners circuit (pool.nodes circuit)) :
    (spanOf served (.target owner)).stop ≤ table.numFlows pool :=
  ((filled.flows pool).bounds
    (List.mem_map_of_mem ((mem_flowPurposes_target wellFormed).mpr used))).2.2

theorem flows_bound (member : id ∈ pool.nodes circuit) :
    (table.flowsAt id).stop ≤ table.numFlows pool := by
  rw [filled.flowsAt_eq_spanOf wellFormed member]
  exact ((filled.flows pool).bounds (List.mem_map_of_mem (mem_flowPurpose wellFormed member))).2.2

theorem flows_apart (member : id ∈ pool.nodes circuit) {other : NodeId}
    (otherMember : other ∈ pool.nodes circuit) (different : id ≠ other) :
    (table.flowsAt id).Apart (table.flowsAt other) := by
  rw [filled.flowsAt_eq_spanOf wellFormed member, filled.flowsAt_eq_spanOf wellFormed otherMember]
  exact (filled.flows pool).apart (spanOf served) (mem_flowPurpose wellFormed member)
    (mem_flowPurpose wellFormed otherMember) fun same =>
      different (flowPurpose_injective wellFormed member otherMember same)

theorem targets_apart (used : owner ∈ Sharing.owners circuit (pool.nodes circuit))
    {other : NodeId} (otherUsed : other ∈ Sharing.owners circuit (pool.nodes circuit))
    (different : owner ≠ other) :
    (spanOf served (.target owner)).Apart (spanOf served (.target other)) :=
  (filled.flows pool).apart (spanOf served) ((mem_flowPurposes_target wellFormed).mpr used)
    ((mem_flowPurposes_target wellFormed).mpr otherUsed) (by simpa using different)

theorem target_apart_flows (used : owner ∈ Sharing.owners circuit (pool.nodes circuit))
    (member : id ∈ pool.nodes circuit) (different : flowPurpose circuit id ≠ .target owner) :
    (spanOf served (.target owner)).Apart (table.flowsAt id) := by
  rw [filled.flowsAt_eq_spanOf wellFormed member]
  exact (filled.flows pool).apart (spanOf served) ((mem_flowPurposes_target wellFormed).mpr used)
    (mem_flowPurpose wellFormed member) different.symm

theorem flowStarts_eq (used : owner ∈ Sharing.owners circuit (pool.nodes circuit)) :
    ((circuit.users owner).map fun id => (flowsOf circuit.sharing served owner id).start) =
      (circuit.users owner).map fun id => (table.flowsAt id).start := by
  apply List.map_congr_left
  intro id uses
  obtain ⟨inPool, same⟩ := Pool.of_mem_users wellFormed used uses
  rw [filled.flowsAt_eq wellFormed inPool, same]

theorem mem_shared {tie : TieGroup} :
    tie ∈ Reduction.shared (table.tiesOf pool) ↔
      ∃ owner ∈ Sharing.owners circuit (pool.nodes circuit), 2 ≤ (circuit.users owner).length ∧
        tie = { source := owner
                params := spanOf served (.params owner)
                target := spanOf served (.target owner)
                members := circuit.users owner
                flowStarts := (circuit.users owner).map fun id => (table.flowsAt id).start } := by
  rw [Reduction.mem_shared, filled.mem_ties]
  constructor
  · rintro ⟨⟨owner, used, -, rfl⟩, several⟩
    rw [TieGroup.numReplicas, List.length_map] at several
    exact ⟨owner, used, several, by rw [filled.flowStarts_eq wellFormed used]⟩
  · rintro ⟨owner, used, several, rfl⟩
    refine ⟨⟨owner, used, Circuit.isTied_of_several several, ?_⟩, ?_⟩
    · rw [filled.flowStarts_eq wellFormed used]
    · rw [TieGroup.numReplicas, List.length_map]
      exact several

theorem flowsAt_of_user (used : owner ∈ Sharing.owners circuit (pool.nodes circuit))
    (uses : id ∈ circuit.users owner) :
    table.flowsAt id =
      ⟨(table.flowsAt id).start,
        (table.flowsAt id).start + (spanOf served (.target owner)).size⟩ := by
  obtain ⟨inPool, same⟩ := Pool.of_mem_users wellFormed used uses
  have owns := wellFormed.owns ((Pool.mem_nodes wellFormed).mp inPool).1
  have width := (filled.owner_widths wellFormed used).2.1
  rw [← same, owns.flowWidth_eq, same] at width
  have size : (spanOf served (.target owner)).size = circuit.flowWidth id := by
    rw [Span.size, width, Nat.add_sub_cancel_left]
  rw [size, ← (filled.flows_width wellFormed inPool).1]

theorem separate (pool : Pool) {size : Nat} (enough : table.numFlows pool ≤ size) :
    TieGroup.Separate size (Reduction.shared (table.tiesOf pool)) := by
  constructor
  case target_inside =>
    intro set member
    obtain ⟨owner, used, -, rfl⟩ := (filled.mem_shared wellFormed).mp member
    have bound := filled.target_bound wellFormed used
    have width := (filled.owner_widths wellFormed used).2.1
    simp only [TieGroup.width, Span.size]
    omega
  case flows_inside =>
    intro set member start isFlow
    obtain ⟨owner, used, -, rfl⟩ := (filled.mem_shared wellFormed).mp member
    obtain ⟨id, uses, rfl⟩ := List.mem_map.mp isFlow
    have bound := filled.flows_bound wellFormed (Pool.of_mem_users wellFormed used uses).1
    rw [filled.flowsAt_of_user wellFormed used uses] at bound
    exact Nat.le_trans bound enough
  case targets_apart =>
    intro set member other otherMember different
    obtain ⟨owner, used, -, rfl⟩ := (filled.mem_shared wellFormed).mp member
    obtain ⟨otherOwner, otherUsed, -, rfl⟩ := (filled.mem_shared wellFormed).mp otherMember
    apply filled.targets_apart wellFormed used otherUsed
    rintro rfl
    exact different rfl
  case flows_apart =>
    intro set member other otherMember different start isFlow
    obtain ⟨owner, used, -, rfl⟩ := (filled.mem_shared wellFormed).mp member
    obtain ⟨otherOwner, otherUsed, -, rfl⟩ := (filled.mem_shared wellFormed).mp otherMember
    obtain ⟨id, uses, rfl⟩ := List.mem_map.mp isFlow
    obtain ⟨inPool, same⟩ := Pool.of_mem_users wellFormed otherUsed uses
    have apart := filled.target_apart_flows wellFormed used inPool (by
      intro target
      rw [(flowPurpose_eq_target.mp target).1] at same
      subst same
      exact different rfl)
    rw [filled.flowsAt_of_user wellFormed otherUsed uses] at apart
    exact apart

theorem flows_not_in_target (member : id ∈ pool.nodes circuit)
    (kept : (circuit.users (circuit.owner id)).length = 1 ∨ circuit.owner id ≠ id)
    {set : TieGroup} (isShared : set ∈ Reduction.shared (table.tiesOf pool)) {index : Nat}
    (within : index < circuit.flowWidth id) :
    ¬ set.target.contains ((table.flowsAt id).start + index) = true := by
  obtain ⟨owner, used, several, rfl⟩ := (filled.mem_shared wellFormed).mp isShared
  have different : flowPurpose circuit id ≠ .target owner := by
    intro same
    obtain ⟨rfl, uses⟩ := flowPurpose_eq_target.mp same
    cases uses with
    | inl single => omega
    | inr own =>
        cases kept with
        | inl single => omega
        | inr other => exact other own.symm
  have apart := filled.target_apart_flows wellFormed used member different
  have width := (filled.flows_width wellFormed member).1
  apply apart.symm.not_contains
  rw [Span.contains_iff]
  omega

end SlotTable.Filled

/-- What the reduction of a pool leaves in a flow buffer. -/
structure SlotTable.TiedFlows {F : Type} [Arithmetic F] (circuit : Circuit) (table : SlotTable)
    (pool : Pool) (flows after : Array F) : Prop where
  size_eq : after.size = flows.size
  summed : ∀ owner ∈ Sharing.owners circuit (pool.nodes circuit),
    2 ≤ (circuit.users owner).length →
      ∃ tie ∈ table.tiesOf pool, tie.source = owner ∧ tie.target.size = circuit.flowWidth owner ∧
        ∀ index < circuit.flowWidth owner, after[tie.target.start + index]? =
          some ((circuit.users owner).foldl (fun sum id => Arithmetic.add sum
            (Buffer.number flows ((table.flowsAt id).start + index))) Arithmetic.zero)
  kept : ∀ id ∈ pool.nodes circuit,
    (circuit.users (circuit.owner id)).length = 1 ∨ circuit.owner id ≠ id →
      ∀ index < circuit.flowWidth id, after[(table.flowsAt id).start + index]? =
        flows[(table.flowsAt id).start + index]?
  others : ∀ offset,
    (∀ tie ∈ table.tiesOf pool, 2 ≤ (circuit.users tie.source).length →
      ¬ tie.target.contains offset = true) →
    after[offset]? = flows[offset]?

namespace SlotTable.Filled

variable {F : Type} [Arithmetic F] {flows after : Array F}

theorem tiedFlows (wellFormed : circuit.WellFormed) (filled : Filled circuit served table)
    (accumulated : Reduction.Accumulated (Reduction.shared (table.tiesOf pool)) flows after) :
    table.TiedFlows circuit pool flows after := by
  constructor
  case size_eq => exact accumulated.size_eq
  case summed =>
    intro owner used several
    have isShared := (filled.mem_shared wellFormed).mpr ⟨owner, used, several, rfl⟩
    have width := (filled.owner_widths wellFormed used).2.1
    have size : (spanOf served (.target owner)).size = circuit.flowWidth owner := by
      rw [Span.size, width, Nat.add_sub_cancel_left]
    refine ⟨_, List.mem_of_mem_filter isShared, rfl, size, ?_⟩
    intro index within
    rw [accumulated.summed _ isShared index (by rw [TieGroup.width, size]; exact within),
      Buffer.sumAt, List.foldl_map]
  case kept =>
    intro id member kept index within
    apply accumulated.others
    intro set isShared
    exact filled.flows_not_in_target wellFormed member kept isShared within
  case others =>
    intro offset free
    apply accumulated.others
    intro set isShared
    obtain ⟨owner, used, several, same⟩ := (filled.mem_shared wellFormed).mp isShared
    apply free set (List.mem_of_mem_filter isShared)
    rw [same]
    exact several

end SlotTable.Filled

section Plan

variable {F : Type} [Arithmetic F] {flows : Array F} {options : Options} {plan : Plan}
  {reduction : Reduction}

theorem Plan.Made.accumulate_ok (wellFormed : circuit.WellFormed)
    (made : Plan.Made circuit options plan) (present : plan.reduction? pool = some reduction)
    (enough : plan.slots.numFlows pool ≤ flows.size) :
    ∃ after, Execution.accumulate reduction flows = .ok ⟨after, none⟩ ∧
      Reduction.Accumulated (Reduction.shared (plan.slots.tiesOf pool)) flows after := by
  obtain ⟨served, filled⟩ := SlotTable.exists_filled wellFormed made.slots
  exact Reduction.accumulate_ofTies (made.reductions pool reduction present)
    (filled.separate wellFormed pool enough)

theorem Plan.accumulate_tiedFlows (accepted : circuit.Accepted)
    (compiled : Plan.ofCircuit circuit options = .ok plan)
    (present : plan.reduction? pool = some reduction)
    (enough : plan.slots.numFlows pool ≤ flows.size) :
    ∃ after, Execution.accumulate reduction flows = .ok ⟨after, none⟩ ∧
      plan.slots.TiedFlows circuit pool flows after ∧
      ∀ (otherOptions : Options) (otherPlan : Plan) (otherReduction : Reduction),
        Plan.ofCircuit circuit otherOptions = .ok otherPlan →
        otherPlan.reduction? pool = some otherReduction →
        Execution.accumulate otherReduction flows = .ok ⟨after, none⟩ := by
  have wellFormed := accepted.wellFormed
  have made := Plan.ofCircuit_made compiled
  obtain ⟨served, filled⟩ := SlotTable.exists_filled wellFormed made.slots
  obtain ⟨after, success, accumulated⟩ := made.accumulate_ok wellFormed present enough
  refine ⟨after, success, filled.tiedFlows wellFormed accumulated, ?_⟩
  intro otherOptions otherPlan otherReduction otherCompiled otherPresent
  have otherMade := Plan.ofCircuit_made otherCompiled
  have sameSlots : otherPlan.slots = plan.slots :=
    Except.ok.inj (otherMade.slots.symm.trans made.slots)
  obtain ⟨otherAfter, otherSuccess, otherAccumulated⟩ :=
    otherMade.accumulate_ok wellFormed otherPresent (by rw [sameSlots]; exact enough)
  rw [sameSlots] at otherAccumulated
  rw [otherSuccess, accumulated.unique otherAccumulated]

theorem Plan.twin_tiedFlows : ∃ (plan : Plan) (flows after : Array Float32),
    Plan.ofCircuit Circuit.twin {} = .ok plan ∧
      Execution.accumulate plan.sumReduction flows = .ok ⟨after, none⟩ ∧
      plan.slots.TiedFlows Circuit.twin .sums flows after := by
  have passes : (Plan.ofCircuit Circuit.twin {}).isOk = true := by decide +kernel
  obtain ⟨plan, compiled⟩ := exists_of_isOk passes
  have present : plan.reduction? .sums = some plan.sumReduction := rfl
  have enough : plan.slots.numFlows .sums ≤
      (Array.replicate (plan.slots.numFlows .sums) (1 : Float32)).size :=
    Nat.le_of_eq Array.size_replicate.symm
  obtain ⟨after, success, summed, -⟩ :=
    Plan.accumulate_tiedFlows Circuit.twin_accepted compiled present enough
  exact ⟨plan, _, after, compiled, success, summed⟩

end Plan
end CircuitPlan
