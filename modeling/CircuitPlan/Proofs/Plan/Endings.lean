import CircuitPlan.Proofs.Execution.TiedFlows
import CircuitPlan.Proofs.Layer.Completion
import CircuitPlan.Proofs.Reduction.Completion
import CircuitPlan.Proofs.Slot.Demand

/-!
# Endings of planning

Planning ends with rejected options, with a space that is too small, with an owner that is tied too
often, or with a plan. The options and the circuit decide which, and no stage is ever at fault.
-/

namespace CircuitPlan

variable {circuit : Circuit} {options : Options} {table : SlotTable}
  {served : List (Purpose × Span)} {id owner : NodeId} {pool : Pool} {set : TieGroup} {plan : Plan}

/-! ## Owners that are tied too often -/

namespace Circuit

def ownedBy (circuit : Circuit) (owner : NodeId) : List NodeId :=
  circuit.reachable.filter fun id => circuit.owner id == owner

def tiedCardinality (circuit : Circuit) (owner : NodeId) : Nat :=
  2 ^ Nat.clog 2 (circuit.ownedBy owner).length

/-- An owner of several node vectors, one of them tied, that are too many for one bucket. -/
structure OverTied (circuit : Circuit) (maxTied : Nat) (owner : NodeId) : Prop where
  several : 2 ≤ (circuit.ownedBy owner).length
  tied : ∃ id ∈ circuit.ownedBy owner, (circuit.node id).tiedTo ≠ none
  exceeds : maxTied < circuit.tiedCardinality owner

theorem mem_ownedBy :
    id ∈ circuit.ownedBy owner ↔ id ∈ circuit.reachable ∧ circuit.owner id = owner := by
  rw [ownedBy, List.mem_filter, beq_iff_eq]

theorem WellFormed.tag_ne_product_of_tied (wellFormed : circuit.WellFormed)
    (reachable : id ∈ circuit.reachable) (tied : (circuit.node id).tiedTo ≠ none) :
    (circuit.node id).tag ≠ .product := by
  obtain ⟨source, tied⟩ := Option.ne_none_iff_exists'.mp tied
  have shapes := ((wellFormed.admits reachable).tie_rules source tied).shapes
  intro product
  unfold Arena.SameShapes at shapes
  rw [Node.tag_eq_product.mp product] at shapes
  cases kind : (circuit.arena.node source).kind <;> rw [kind] at shapes <;> exact shapes

end Circuit

theorem Pool.users_perm (wellFormed : circuit.WellFormed)
    (used : owner ∈ Sharing.owners circuit (pool.nodes circuit)) :
    (circuit.users owner).Perm (circuit.ownedBy owner) := by
  obtain ⟨first, member, rfl⟩ := mem_owners.mp used
  rw [users_eq_order wellFormed member]
  exact (Layout.order_perm wellFormed).filter _

namespace SlotTable.Filled

variable (wellFormed : circuit.WellFormed) (filled : Filled circuit served table)
include wellFormed filled

theorem numReplicas_eq (isShared : set ∈ Reduction.shared (table.tiesOf pool)) :
    set.numReplicas = (circuit.ownedBy set.source).length := by
  obtain ⟨owner, used, -, rfl⟩ := (filled.mem_shared wellFormed).mp isShared
  rw [TieGroup.numReplicas, List.length_map]
  exact (Pool.users_perm wellFormed used).length_eq

theorem cardinality_eq (isShared : set ∈ Reduction.shared (table.tiesOf pool)) :
    set.cardinality = circuit.tiedCardinality set.source := by
  have several := (Reduction.mem_shared.mp isShared).2
  rw [TieGroup.cardinality_eq several, filled.numReplicas_eq wellFormed isShared,
    Circuit.tiedCardinality]

theorem overTied_of_shared {maxTied : Nat}
    (isShared : set ∈ Reduction.shared (table.tiesOf pool)) (exceeds : maxTied < set.cardinality) :
    circuit.OverTied maxTied set.source := by
  obtain ⟨isTie, several⟩ := List.mem_filter.mp isShared
  constructor
  case several =>
    rw [← filled.numReplicas_eq wellFormed isShared]
    exact of_decide_eq_true several
  case tied =>
    obtain ⟨id, member, tied⟩ :=
      (filled.mem_sources wellFormed).mp (List.mem_map_of_mem isTie)
    have reachable := ((Pool.mem_nodes wellFormed).mp member).1
    have owned := ((wellFormed.tiedTo_eq_some_iff reachable).mp tied).1
    refine ⟨id, Circuit.mem_ownedBy.mpr ⟨reachable, owned⟩, ?_⟩
    rw [tied]
    exact Option.some_ne_none _
  case exceeds =>
    rw [← filled.cardinality_eq wellFormed isShared]
    exact exceeds

theorem exists_shared {maxTied : Nat} (overTied : circuit.OverTied maxTied owner) :
    ∃ pool, ∃ set ∈ Reduction.shared (table.tiesOf pool), maxTied < set.cardinality := by
  obtain ⟨id, owned, tied⟩ := overTied.tied
  obtain ⟨reachable, rfl⟩ := Circuit.mem_ownedBy.mp owned
  obtain ⟨pool, found⟩ := Option.ne_none_iff_exists'.mp ((Pool.of_eq_none reachable).not.mpr
    (wellFormed.tag_ne_product_of_tied reachable tied))
  have used : circuit.owner id ∈ Sharing.owners circuit (pool.nodes circuit) :=
    Pool.mem_owners.mpr ⟨id, (Pool.mem_nodes wellFormed).mpr ⟨reachable, found⟩, rfl⟩
  have several := overTied.several
  rw [← (Pool.users_perm wellFormed used).length_eq] at several
  have isShared := (filled.mem_shared wellFormed).mpr ⟨_, used, several, rfl⟩
  refine ⟨pool, _, isShared, ?_⟩
  rw [filled.cardinality_eq wellFormed isShared]
  exact overTied.exceeds

theorem numFlows_le (pool : Pool) : table.numFlows pool ≤ padding := by
  apply (filled.flows pool).stop_le (Nat.zero_le _)
  intro span member
  obtain ⟨purpose, asked, rfl⟩ := List.mem_map.mp member
  have split := (Request.flowPurposes_perm wellFormed pool).mem_iff.mpr asked
  rcases List.mem_append.mp split with own | spare
  · obtain ⟨id, inPool, rfl⟩ := List.mem_map.mp own
    rw [← filled.flowsAt_eq_spanOf wellFormed inPool]
    exact Nat.le_of_lt (filled.flows_width wellFormed inPool).2
  · obtain ⟨owner, isSpare, rfl⟩ := List.mem_map.mp spare
    have used := (Pool.mem_spares.mp isSpare).1
    exact Nat.le_of_lt (filled.owner_widths wellFormed used).2.2

omit wellFormed in
theorem shared_nodup (pool : Pool) : (Reduction.shared (table.tiesOf pool)).Nodup := by
  have sources : ((table.tiesOf pool).map (·.source)).Nodup := by
    rw [filled.sources_eq]
    exact (owners_nodup circuit pool).filter _
  exact sources.of_map.filter _

end SlotTable.Filled

/-! ## Stages of planning -/

namespace Plan

def Blames (circuit : Circuit) (options : Options) (failure : Failure) : Prop :=
  ∃ owner, circuit.OverTied options.reduction.maxTied owner ∧ failure =
    .error (.tooManyTied owner (circuit.ownedBy owner).length (circuit.tiedCardinality owner)
      options.reduction.maxTied)

section Stages

variable (small : options.reduction.blockSize < UInt32.size) (wellFormed : circuit.WellFormed)
include small wellFormed

theorem ofTies_failsOnly (filled : table.Filled circuit served) (pool : Pool) :
    FailsOnly (Blames circuit options)
      (Reduction.ofTies options.reduction (table.tiesOf pool)) := by
  have separate := filled.separate wellFormed pool (filled.numFlows_le wellFormed pool)
  intro failure failed
  obtain ⟨set, isShared, exceeds, rfl⟩ := Reduction.ofTies_failsOnly small separate (Nat.le_refl _)
    (filled.shared_nodup pool) failure failed
  refine ⟨set.source, filled.overTied_of_shared wellFormed isShared exceeds, ?_⟩
  rw [filled.numReplicas_eq wellFormed isShared, filled.cardinality_eq wellFormed isShared]

theorem inputLayer_failsOnly (filled : table.Filled circuit served) {group : InputGroup}
    (member : group ∈ (Layout.ofCircuit circuit).inputs) (index : Nat) :
    FailsOnly (Blames circuit options) (inputLayer circuit options table index group) := by
  apply FailsOnly.bind (ofTies_failsOnly small wellFormed filled (.inputs index))
  intro reduction _
  obtain ⟨layer, made⟩ := InputLayer.ofGroup_ok wellFormed filled member index reduction
  rw [made]
  exact .ok _ layer

theorem ofCircuit_failsOnly (valid : options.validate = .ok ())
    (slots : SlotTable.ofLayout circuit (Layout.ofCircuit circuit) = .ok table) :
    FailsOnly (Blames circuit options) (ofCircuit circuit options) := by
  obtain ⟨served, filled⟩ := SlotTable.exists_filled wellFormed slots
  obtain ⟨innerLayers, innerOk⟩ := mapM_exists fun group member =>
    InnerLayer.ofGroup_ok wellFormed filled member options.tolerance.value options.maxPartitions
  rw [ofCircuit, mapError_eq_ok.mpr valid, ok_bind]
  dsimp only
  rw [mapError_eq_ok.mpr slots, ok_bind]
  apply FailsOnly.bind
  · apply FailsOnly.mapM
    rintro ⟨group, index⟩ member
    have inside := List.mem_of_getElem? (List.mem_zipIdx_iff_getElem?.mp member)
    exact inputLayer_failsOnly small wellFormed filled inside index
  intro inputLayers _
  rw [mapError_eq_ok.mpr innerOk, ok_bind]
  apply FailsOnly.bind (ofTies_failsOnly small wellFormed filled .sums)
  intro sumReduction _
  exact .ok _ _

end Stages

theorem Made.not_overTied (made : Made circuit options plan) (wellFormed : circuit.WellFormed)
    (owner : NodeId) : ¬ circuit.OverTied options.reduction.maxTied owner := by
  intro overTied
  obtain ⟨served, filled⟩ := SlotTable.exists_filled wellFormed made.slots
  obtain ⟨pool, set, isShared, exceeds⟩ := filled.exists_shared wellFormed overTied
  obtain ⟨reduction, present⟩ : ∃ reduction, plan.reduction? pool = some reduction := by
    cases pool with
    | sums => exact ⟨_, rfl⟩
    | inputs layer =>
        obtain ⟨owner, used, -⟩ := (filled.mem_shared wellFormed).mp isShared
        obtain ⟨id, member, -⟩ := Pool.mem_owners.mp used
        cases found : (Layout.ofCircuit circuit).inputs[layer]? with
        | none =>
            rw [Pool.nodes_inputs_of_none found] at member
            cases member
        | some group => exact made.exists_reduction (List.getElem?_eq_some_iff.mp found).1
  exact absurd (Reduction.cardinality_le (made.reductions pool reduction present) isShared)
    (Nat.not_le_of_lt exceeds)

/-! ## Endings -/

inductive Ends (circuit : Circuit) (options : Options) : Except Failure Plan → Prop
  | invalid {error : OptionsError} (rejected : options.validate = .error error) :
      Ends circuit options (.error (.error (.invalidOptions error)))
  | full {overflow : Overflow} (valid : options.validate = .ok ())
      (much : padding ≤ circuit.demand overflow.space) :
      Ends circuit options (.error (.error (.spaceFull overflow)))
  | tied {owner : NodeId} (valid : options.validate = .ok ())
      (fits : ∀ space, circuit.demand space < padding)
      (overTied : circuit.OverTied options.reduction.maxTied owner) :
      Ends circuit options (.error (.error (.tooManyTied owner (circuit.ownedBy owner).length
        (circuit.tiedCardinality owner) options.reduction.maxTied)))
  | made {plan : Plan} (valid : options.validate = .ok ())
      (fits : ∀ space, circuit.demand space < padding)
      (few : ∀ owner, ¬ circuit.OverTied options.reduction.maxTied owner) :
      Ends circuit options (.ok plan)

theorem ofCircuit_invalid {error : OptionsError} (rejected : options.validate = .error error) :
    ofCircuit circuit options = .error (.error (.invalidOptions error)) := by
  rw [ofCircuit, rejected]
  rfl

theorem ofCircuit_full {overflow : Overflow} (valid : options.validate = .ok ())
    (slots : SlotTable.ofLayout circuit (Layout.ofCircuit circuit) = .error overflow) :
    ofCircuit circuit options = .error (.error (.spaceFull overflow)) := by
  rw [ofCircuit, mapError_eq_ok.mpr valid, ok_bind]
  dsimp only
  rw [slots]
  rfl

theorem ofCircuit_ends (wellFormed : circuit.WellFormed)
    (small : options.reduction.blockSize < UInt32.size) :
    Ends circuit options (ofCircuit circuit options) := by
  cases valid : options.validate with
  | error error =>
      rw [ofCircuit_invalid valid]
      exact .invalid valid
  | ok _ =>
      cases slots : SlotTable.ofLayout circuit (Layout.ofCircuit circuit) with
      | error overflow =>
          rw [ofCircuit_full valid slots]
          exact .full valid (SlotTable.ofLayout_overflow wellFormed slots)
      | ok table =>
          have fits := SlotTable.ofLayout_fits wellFormed slots
          cases ended : ofCircuit circuit options with
          | error failure =>
              obtain ⟨owner, overTied, rfl⟩ :=
                ofCircuit_failsOnly small wellFormed valid slots failure ended
              exact .tied valid fits overTied
          | ok plan => exact .made valid fits ((ofCircuit_made ended).not_overTied wellFormed)

/-- What decides how planning ends. Of the four endings exactly one occurs, and a fault is none of
them. The circuit has been checked before, so no structural rule is reported as broken either. -/
structure Endings (circuit : Circuit) (options : Options) : Prop where
  invalid : ∀ error, ofCircuit circuit options = .error (.error (.invalidOptions error)) ↔
    options.validate = .error error
  full : (∃ overflow, ofCircuit circuit options = .error (.error (.spaceFull overflow))) ↔
    options.validate = .ok () ∧ ∃ space, padding ≤ circuit.demand space
  tied : (∃ source count cardinality cap, ofCircuit circuit options =
      .error (.error (.tooManyTied source count cardinality cap))) ↔
    options.validate = .ok () ∧ (∀ space, circuit.demand space < padding) ∧
      ∃ owner, circuit.OverTied options.reduction.maxTied owner
  made : (∃ plan, ofCircuit circuit options = .ok plan) ↔
    options.validate = .ok () ∧ (∀ space, circuit.demand space < padding) ∧
      ∀ owner, ¬ circuit.OverTied options.reduction.maxTied owner
  faultless : ∀ fault, ofCircuit circuit options ≠ .error (.fault fault)
  full_space : ∀ overflow, ofCircuit circuit options = .error (.error (.spaceFull overflow)) →
    padding ≤ circuit.demand overflow.space
  tied_owner : ∀ source count cardinality cap, ofCircuit circuit options =
      .error (.error (.tooManyTied source count cardinality cap)) →
    circuit.OverTied options.reduction.maxTied source ∧
      count = (circuit.ownedBy source).length ∧ cardinality = circuit.tiedCardinality source ∧
      cap = options.reduction.maxTied

theorem ofCircuit_endings (accepted : circuit.Accepted)
    (small : options.reduction.blockSize < UInt32.size) : Endings circuit options := by
  have ends := ofCircuit_ends accepted.wellFormed small
  generalize ended : ofCircuit circuit options = result at ends
  constructor
  case invalid =>
    intro error
    refine ⟨?_, ofCircuit_invalid⟩
    intro same
    obtain rfl := ended.symm.trans same
    cases ends with
    | invalid rejected => exact rejected
  case full =>
    constructor
    · rintro ⟨overflow, same⟩
      obtain rfl := ended.symm.trans same
      cases ends with
      | full valid much => exact ⟨valid, _, much⟩
    · rintro ⟨valid, space, much⟩
      cases slots : SlotTable.ofLayout circuit (Layout.ofCircuit circuit) with
      | error overflow => exact ⟨overflow, ofCircuit_full valid slots⟩
      | ok table =>
          have fits := SlotTable.ofLayout_fits accepted.wellFormed slots space
          exact absurd fits (Nat.not_lt_of_le much)
  case tied =>
    constructor
    · rintro ⟨source, count, cardinality, cap, same⟩
      obtain rfl := ended.symm.trans same
      cases ends with
      | tied valid fits overTied => exact ⟨valid, fits, _, overTied⟩
    · rintro ⟨valid, fits, owner, overTied⟩
      cases ends with
      | invalid rejected => cases valid.symm.trans rejected
      | full _ much => exact absurd (fits _) (Nat.not_lt_of_le much)
      | tied => exact ⟨_, _, _, _, ended⟩
      | made _ _ few => exact absurd overTied (few owner)
  case made =>
    constructor
    · rintro ⟨plan, same⟩
      obtain rfl := ended.symm.trans same
      cases ends with
      | made valid fits few => exact ⟨valid, fits, few⟩
    · rintro ⟨valid, fits, few⟩
      cases ends with
      | invalid rejected => cases valid.symm.trans rejected
      | full _ much => exact absurd (fits _) (Nat.not_lt_of_le much)
      | tied _ _ overTied => exact absurd overTied (few _)
      | made => exact ⟨_, ended⟩
  case faultless =>
    intro fault same
    obtain rfl := ended.symm.trans same
    cases ends
  case full_space =>
    intro overflow same
    obtain rfl := ended.symm.trans same
    cases ends with
    | full _ much => exact much
  case tied_owner =>
    intro source count cardinality cap same
    obtain rfl := ended.symm.trans same
    cases ends with
    | tied _ _ overTied => exact ⟨overTied, rfl, rfl, rfl⟩

theorem twin_endings : (∃ plan, ofCircuit Circuit.twin {} = .ok plan) ∧
    Endings Circuit.twin {} ∧
    ofCircuit Circuit.twin { reduction := { maxTied := 3 } } =
      .error (.error (.tooManyTied 0 3 4 3)) ∧
    Endings Circuit.twin { reduction := { maxTied := 3 } } := by
  have passes : (ofCircuit Circuit.twin {}).isOk = true := by decide +kernel
  exact ⟨exists_of_isOk passes, ofCircuit_endings Circuit.twin_accepted (by decide),
    by decide +kernel, ofCircuit_endings Circuit.twin_accepted (by decide)⟩

end Plan
end CircuitPlan
