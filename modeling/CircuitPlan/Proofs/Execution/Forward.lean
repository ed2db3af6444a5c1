import CircuitPlan.Proofs.Layer.Buckets
import CircuitPlan.Proofs.Layer.Lanes
import CircuitPlan.Proofs.Plan

/-!
# Forward evaluation of a plan

Running the layers of a plan one after the other leaves the value of every inner scalar node in its
slot and changes nothing else.
-/

namespace CircuitPlan

variable {F : Type} [Arithmetic F] {circuit : Circuit} {table : SlotTable}
  {served : List (Purpose × Span)} {initial values params : Array F} {scalar : Scalar}
  {group : InnerGroup} {layer : InnerLayer} {parts : List (Nat × List Row)}

namespace SlotTable

/-- The value of a scalar node when inputs have the initial values and sums the parameters of two
buffers. -/
def valueOf (circuit : Circuit) (table : SlotTable) (initial params : Array F) (scalar : Scalar) :
    F :=
  circuit.value (fun input => Buffer.number initial (table.slot circuit input))
    (table.weight circuit params) scalar

def valueAt (circuit : Circuit) (table : SlotTable) (initial params : Array F) (offset : Nat) : F :=
  ((circuit.reachable.find? fun id => (table.valuesAt id).contains offset).map fun id =>
    let place := offset - (table.valuesAt id).start
    table.valueOf circuit initial params
      ⟨id, place / circuit.groupSize, place % circuit.groupSize⟩).getD Arithmetic.zero

theorem Filled.valueAt_slot (wellFormed : circuit.WellFormed) (filled : Filled circuit served table)
    (has : circuit.Has scalar) :
    table.valueAt circuit initial params (table.slot circuit scalar) =
      table.valueOf circuit initial params scalar := by
  have contained := filled.slot_inside wellFormed has
  unfold valueAt
  cases found : circuit.reachable.find? fun id =>
      (table.valuesAt id).contains (table.slot circuit scalar) with
  | none => exact absurd contained (List.find?_eq_none.mp found scalar.node has.reachable)
  | some id =>
      have same : id = scalar.node := by
        by_contra different
        have apart := filled.values_apart wellFormed (List.mem_of_find?_eq_some found)
          has.reachable different
        have holds := List.find?_some found
        exact apart.not_contains holds contained
      have place : table.slot circuit scalar - (table.valuesAt scalar.node).start =
          circuit.groupSize * scalar.group + scalar.lane := by
        rw [slot, Nat.add_assoc, Nat.add_sub_cancel_left, Nat.mul_comm]
      rw [same, Option.map_some, Option.getD_some]
      dsimp only
      rw [place, Nat.mul_add_div wellFormed.groupSize_pos, Nat.div_eq_of_lt has.lane_lt,
        Nat.mul_add_mod, Nat.mod_eq_of_lt has.lane_lt]
      rfl

theorem Filled.groupSize_lt (wellFormed : circuit.WellFormed)
    (filled : Filled circuit served table) : circuit.groupSize < UInt32.size := by
  have reachable := circuit.root_reachable
  have has : circuit.Has ⟨circuit.root, 0, 0⟩ :=
    wellFormed.has_first reachable (wellFormed.admits reachable).numGroups_pos
  have inside := filled.group_inside wellFormed has
  have below := (filled.values_width wellFormed reachable).2
  simp only [padding] at below
  simp only [Nat.zero_mul] at inside
  simp only [UInt32.size]
  omega

end SlotTable

/-! ## One layer -/

namespace InnerLayer.Made

theorem mem_rows_iff (wellFormed : circuit.WellFormed)
    (member : group ∈ (Layout.ofCircuit circuit).inner)
    (made : Made circuit table group layer parts) {row : Row} :
    (∃ part ∈ parts, row ∈ part.2) ↔ ∃ scalar, circuit.Has scalar ∧ scalar.node ∈ group.nodes ∧
      scalar.lane = 0 ∧
      row = Row.ofGroup circuit table group.kind scalar.node scalar.group := by
  rw [made.mem_rows]
  constructor
  · rintro ⟨id, inside, isRow⟩
    obtain ⟨index, bound, rfl⟩ := List.mem_map.mp isRow
    have reachable := ((Layout.mem_nodes_inner member).mp inside).1
    exact ⟨⟨id, index, 0⟩, wellFormed.has_first reachable (List.mem_range.mp bound), inside, rfl,
      rfl⟩
  · rintro ⟨scalar, has, inside, -, rfl⟩
    exact ⟨scalar.node, inside, List.mem_map.mpr ⟨_, List.mem_range.mpr has.group_lt, rfl⟩⟩

end InnerLayer.Made

def Ready (circuit : Circuit) (table : SlotTable) (initial params values : Array F)
    (group : InnerGroup) : Prop :=
  ∀ scalar, circuit.Has scalar → scalar.node ∈ group.nodes →
    ∀ operand ∈ circuit.operands scalar,
      values[table.slot circuit operand]? = some (table.valueOf circuit initial params operand)

structure Evaluated (circuit : Circuit) (table : SlotTable) (initial params values after : Array F)
    (group : InnerGroup) : Prop where
  size_eq : after.size = values.size
  evaluated : ∀ scalar, circuit.Has scalar → scalar.node ∈ group.nodes →
    after[table.slot circuit scalar]? = some (table.valueOf circuit initial params scalar)
  others : ∀ offset, (∀ id ∈ group.nodes, ¬ (table.valuesAt id).contains offset = true) →
    after[offset]? = values[offset]?

namespace Execution

section Layer

variable (wellFormed : circuit.WellFormed) (filled : table.Filled circuit served)
  (member : group ∈ (Layout.ofCircuit circuit).inner)
include wellFormed filled member

theorem lane_eq_value (ready : Ready circuit table initial params values group)
    (has : circuit.Has scalar) (inside : scalar.node ∈ group.nodes) :
    (Row.ofGroup circuit table group.kind scalar.node scalar.group).lane group.kind values params
        scalar.lane = table.valueOf circuit initial params scalar := by
  have kindEq := ((Layout.mem_nodes_inner member).mp inside).2.2
  have step : (Row.ofGroup circuit table group.kind scalar.node scalar.group).lane group.kind values
      params scalar.lane = circuit.valueStep
        (fun input => Buffer.number initial (table.slot circuit input))
        (table.weight circuit params)
        (fun operand => Buffer.number values (table.slot circuit operand)) scalar := by
    cases kind : group.kind with
    | product =>
        rw [kind, Layout.layerKind_eq_product] at kindEq
        exact Row.product_lane table values params _ _ kindEq
    | sum =>
        rw [kind, Layout.layerKind_eq_sum] at kindEq
        exact Row.sum_lane wellFormed values params _ has kindEq filled
  rw [step, SlotTable.valueOf, wellFormed.value_eq has.reachable]
  apply Circuit.valueStep_congr
  intro operand isOperand
  rw [Buffer.number, ready scalar has inside operand isOperand]
  rfl

omit [Arithmetic F] in
theorem rows_fit (made : InnerLayer.Made circuit table group layer parts)
    (enough : table.numValues ≤ values.size) (enoughParams : table.numSumParams ≤ params.size) :
    ∀ part ∈ parts, ∀ row ∈ part.2,
      row.Fits group.kind circuit.groupSize values.size params.size := by
  intro part partMember row isRow
  obtain ⟨scalar, has, inside, first, rfl⟩ :=
    (made.mem_rows_iff wellFormed member).mp ⟨part, partMember, isRow⟩
  have kindEq := ((Layout.mem_nodes_inner member).mp inside).2.2
  exact Row.fits wellFormed filled has kindEq first enough enoughParams

theorem rows_apart (made : InnerLayer.Made circuit table group layer parts) :
    ∀ part ∈ parts, ∀ writer ∈ part.2, ∀ later ∈ parts, ∀ reader ∈ later.2,
      reader.Misses group.kind circuit.groupSize writer := by
  rintro part partMember writer isWriter later laterMember reader isReader read isRead index
    within ⟨above, below⟩
  obtain ⟨target, targetHas, targetInside, -, rfl⟩ :=
    (made.mem_rows_iff wellFormed member).mp ⟨part, partMember, isWriter⟩
  obtain ⟨source, sourceHas, sourceInside, first, rfl⟩ :=
    (made.mem_rows_iff wellFormed member).mp ⟨later, laterMember, isReader⟩
  have kindEq := ((Layout.mem_nodes_inner member).mp sourceInside).2.2
  obtain ⟨child, isChild, childAbove, childBelow⟩ :=
    Row.read_inside wellFormed filled sourceHas kindEq first isRead
  have different : child ≠ target.node := by
    rintro rfl
    exact Layout.child_not_mem wellFormed member member (Nat.le_refl _) sourceInside isChild
      targetInside
  have disjoint := filled.values_apart wellFormed
    (wellFormed.child_reachable sourceHas.reachable isChild) targetHas.reachable different
  have written := filled.group_inside wellFormed targetHas
  rw [Row.start_eq] at above below
  unfold Span.Apart at disjoint
  omega

omit filled in
theorem mem_results (made : InnerLayer.Made circuit table group layer parts)
    {result : Nat × List F} :
    result ∈ (parts.flatMap (·.2)).map
        (Row.result group.kind circuit.groupSize values params) ↔
      ∃ scalar, circuit.Has scalar ∧ scalar.node ∈ group.nodes ∧ scalar.lane = 0 ∧
        result = Row.result group.kind circuit.groupSize values params
          (Row.ofGroup circuit table group.kind scalar.node scalar.group) := by
  rw [List.mem_map]
  constructor
  · rintro ⟨row, isRow, rfl⟩
    obtain ⟨scalar, has, inside, first, rfl⟩ :=
      (made.mem_rows_iff wellFormed member).mp (List.mem_flatMap.mp isRow)
    exact ⟨scalar, has, inside, first, rfl⟩
  · rintro ⟨scalar, has, inside, first, rfl⟩
    exact ⟨_, List.mem_flatMap.mpr
      ((made.mem_rows_iff wellFormed member).mpr ⟨scalar, has, inside, first, rfl⟩), rfl⟩

theorem results_agree (made : InnerLayer.Made circuit table group layer parts)
    (ready : Ready circuit table initial params values group) :
    ∀ result ∈ (parts.flatMap (·.2)).map
        (Row.result group.kind circuit.groupSize values params),
      Buffer.Agrees (table.valueAt circuit initial params) result.1 result.2 := by
  intro result isResult lane within
  obtain ⟨scalar, has, inside, first, rfl⟩ := (mem_results wellFormed member made).mp isResult
  simp only [Row.result, List.length_map, List.length_range] at within ⊢
  have laneHas : circuit.Has ⟨scalar.node, scalar.group, lane⟩ :=
    ⟨has.reachable, has.group_lt, within⟩
  have computed := lane_eq_value wellFormed filled member ready laneHas inside
  have target : (Row.ofGroup circuit table group.kind scalar.node scalar.group).start + lane =
      table.slot circuit ⟨scalar.node, scalar.group, lane⟩ := by
    rw [Row.start_eq, SlotTable.slot]
  rw [List.getElem?_map, List.getElem?_range within, Option.map_some, target,
    filled.valueAt_slot wellFormed laneHas]
  exact congrArg some computed

theorem covers_results (made : InnerLayer.Made circuit table group layer parts) {offset : Nat} :
    Buffer.Covers ((parts.flatMap (·.2)).map
        (Row.result group.kind circuit.groupSize values params)) offset ↔
      ∃ id ∈ group.nodes, (table.valuesAt id).contains offset = true := by
  constructor
  · rintro ⟨result, isResult, above, below⟩
    obtain ⟨scalar, has, inside, -, rfl⟩ := (mem_results wellFormed member made).mp isResult
    have written := filled.group_inside wellFormed has
    simp only [Row.result, List.length_map, List.length_range, Row.start_eq] at above below
    refine ⟨scalar.node, inside, ?_⟩
    rw [Span.contains_iff]
    omega
  · rintro ⟨id, inside, contained⟩
    have reachable := ((Layout.mem_nodes_inner member).mp inside).1
    obtain ⟨scalar, has, rfl, rfl⟩ := filled.exists_scalar wellFormed reachable contained
    have firstHas := wellFormed.has_first has.reachable has.group_lt
    refine ⟨_, (mem_results wellFormed member made).mpr ⟨_, firstHas, inside, rfl, rfl⟩, ?_⟩
    have lane := has.lane_lt
    simp only [Row.result, List.length_map, List.length_range, Row.start_eq, SlotTable.slot]
    omega

theorem forwardLayer_eq (made : InnerLayer.Made circuit table group layer parts)
    (enough : table.numValues ≤ values.size) (enoughParams : table.numSumParams ≤ params.size)
    (ready : Ready circuit table initial params values group) :
    ∃ after, forwardLayer values params layer = .ok ⟨after, none⟩ ∧
      Evaluated circuit table initial params values after group := by
  have run := runPartitions_eq made.partitions (filled.groupSize_lt wellFormed)
    (rows_apart wellFormed filled member made)
    (rows_fit wellFormed filled member made enough enoughParams)
  have agrees := results_agree wellFormed filled member made ready
  refine ⟨Buffer.writeAll values ((parts.flatMap (·.2)).map
    (Row.result group.kind circuit.groupSize values params)), ?_, ?_, ?_, ?_⟩
  · rw [forwardLayer, made.kind_eq, made.groupSize_eq, run]
  · exact Buffer.size_writeAll _ _
  · intro scalar has inside
    have contained := filled.slot_inside wellFormed has
    rw [Buffer.getElem?_writeAll_of_covers agrees
      ((covers_results wellFormed filled member made).mpr ⟨_, inside, contained⟩)
      (Nat.lt_of_lt_of_le (filled.slot_lt wellFormed has) enough),
      filled.valueAt_slot wellFormed has]
  · intro offset outside
    apply Buffer.getElem?_writeAll_of_not_covers
    rw [covers_results wellFormed filled member made]
    rintro ⟨id, inside, contained⟩
    exact outside id inside contained

end Layer

/-! ## All layers -/

def Done (circuit : Circuit) (table : SlotTable) (initial params values : Array F)
    (rest : List InnerGroup) : Prop :=
  ∀ scalar, circuit.Has scalar → (∀ group ∈ rest, scalar.node ∉ group.nodes) →
    values[table.slot circuit scalar]? = some (table.valueOf circuit initial params scalar)

section Layers

variable (wellFormed : circuit.WellFormed) (filled : table.Filled circuit served)
include wellFormed

theorem Done.ready {rest : List InnerGroup}
    (members : ∀ later ∈ group :: rest, later ∈ (Layout.ofCircuit circuit).inner)
    (ranks : (group :: rest).Pairwise fun before after => before.rank < after.rank)
    (done : Done circuit table initial params values (group :: rest)) :
    Ready circuit table initial params values group := by
  intro scalar has inside operand isOperand
  apply done operand (wellFormed.has_operand has isOperand)
  intro later isLater
  have notEarlier : group.rank ≤ later.rank := by
    cases isLater with
    | head => exact Nat.le_refl _
    | tail _ isLater => exact Nat.le_of_lt ((List.pairwise_cons.mp ranks).1 later isLater)
  exact Layout.child_not_mem wellFormed (members group List.mem_cons_self) (members later isLater)
    notEarlier inside (Circuit.child_of_mem_operands isOperand)

include filled

theorem Done.step {rest : List InnerGroup} {after : Array F}
    (member : group ∈ (Layout.ofCircuit circuit).inner)
    (done : Done circuit table initial params values (group :: rest))
    (result : Evaluated circuit table initial params values after group) :
    Done circuit table initial params after rest := by
  intro scalar has outside
  by_cases inside : scalar.node ∈ group.nodes
  · exact result.evaluated scalar has inside
  · have contained := filled.slot_inside wellFormed has
    rw [result.others]
    · apply done scalar has
      intro later isLater
      cases isLater with
      | head => exact inside
      | tail _ isLater => exact outside later isLater
    · intro id isMember holds
      have different : id ≠ scalar.node := by
        rintro rfl
        exact inside isMember
      have apart := filled.values_apart wellFormed
        ((Layout.mem_nodes_inner member).mp isMember).1 has.reachable different
      exact apart.not_contains holds contained

theorem done_inputs (enough : table.numValues ≤ initial.size) :
    Done circuit table initial params initial (Layout.ofCircuit circuit).inner := by
  intro scalar has outside
  have input : (circuit.node scalar.node).tag = .input := by
    by_contra inner
    obtain ⟨group, member, inside⟩ := Layout.exists_inner wellFormed has.reachable inner
    exact outside group member inside
  obtain ⟨dist, kind⟩ := Node.tag_eq_input.mp input
  have bound := Nat.lt_of_lt_of_le (filled.slot_lt wellFormed has) enough
  rw [SlotTable.valueOf, Circuit.value_input kind, Buffer.number,
    Array.getElem?_eq_getElem bound, Option.getD_some]

theorem runLayers_eq {groups : List InnerGroup} {layers : List InnerLayer}
    (made : List.Forall₂ (fun group layer => ∃ parts,
      InnerLayer.Made circuit table group layer parts) groups layers)
    (members : ∀ group ∈ groups, group ∈ (Layout.ofCircuit circuit).inner)
    (ranks : groups.Pairwise fun before after => before.rank < after.rank)
    (enough : table.numValues ≤ values.size) (enoughParams : table.numSumParams ≤ params.size)
    (done : Done circuit table initial params values groups) :
    ∃ after, runLayers params layers values = .ok ⟨after, none⟩ ∧ after.size = values.size ∧
      Done circuit table initial params after [] ∧
      ∀ offset, (∀ group ∈ groups, ∀ id ∈ group.nodes,
        ¬ (table.valuesAt id).contains offset = true) → after[offset]? = values[offset]? := by
  -- `Done` carries the induction: each layer takes its own node vectors out of the rest.
  induction made generalizing values with
  | nil => exact ⟨values, rfl, rfl, done, fun _ _ => rfl⟩
  | @cons group layer groups layers first rest ih =>
      obtain ⟨parts, first⟩ := first
      have member := members group List.mem_cons_self
      obtain ⟨between, ran, result⟩ := forwardLayer_eq wellFormed filled member first enough
        enoughParams (done.ready wellFormed members ranks)
      obtain ⟨after, finished, size, last, others⟩ :=
        ih (fun later isLater => members later (List.mem_cons_of_mem _ isLater))
          (List.pairwise_cons.mp ranks).2 (by rw [result.size_eq]; exact enough)
          (done.step wellFormed filled member result)
      refine ⟨after, ?_, size.trans result.size_eq, last, ?_⟩
      · rw [runLayers, ran]
        exact finished
      · intro offset outside
        rw [others offset fun later isLater => outside later (List.mem_cons_of_mem _ isLater),
          result.others offset (outside group List.mem_cons_self)]

end Layers

end Execution

/-! ## A plan -/

/-- What a forward evaluation leaves in the buffer of values. -/
structure SlotTable.Forwarded (circuit : Circuit) (table : SlotTable)
    (values params after : Array F) : Prop where
  size_eq : after.size = values.size
  inner : ∀ scalar, circuit.Has scalar → (circuit.node scalar.node).tag ≠ .input →
    after[table.slot circuit scalar]? = some (table.valueOf circuit values params scalar)
  inputs : ∀ id ∈ circuit.reachable, (circuit.node id).tag = .input →
    ∀ offset, (table.valuesAt id).contains offset = true → after[offset]? = values[offset]?
  beyond : ∀ offset, table.numValues ≤ offset → after[offset]? = values[offset]?

theorem SlotTable.Forwarded.unique {first second : Array F} (wellFormed : circuit.WellFormed)
    (filled : table.Filled circuit served) (left : table.Forwarded circuit values params first)
    (right : table.Forwarded circuit values params second) : first = second := by
  apply Array.ext_getElem?
  intro offset
  by_cases inside : offset < table.numValues
  · obtain ⟨span, isSpan, contained⟩ :=
      (filled.values_consecutive wellFormed).exists_contains (Nat.zero_le offset) inside
    obtain ⟨id, inOrder, rfl⟩ := List.mem_map.mp isSpan
    have reachable := (Layout.mem_order wellFormed).mp inOrder
    by_cases input : (circuit.node id).tag = .input
    · rw [left.inputs id reachable input offset contained,
        right.inputs id reachable input offset contained]
    · obtain ⟨scalar, has, rfl, rfl⟩ := filled.exists_scalar wellFormed reachable contained
      rw [left.inner scalar has input, right.inner scalar has input]
  · rw [left.beyond offset (Nat.le_of_not_lt inside), right.beyond offset (Nat.le_of_not_lt inside)]

section Plan

variable {options : Options} {plan : Plan}

theorem Plan.Made.forward_ok (wellFormed : circuit.WellFormed)
    (made : Plan.Made circuit options plan) (enough : plan.slots.numValues ≤ values.size)
    (enoughParams : plan.slots.numSumParams ≤ params.size) :
    ∃ after, Execution.forward plan values params = .ok ⟨after, none⟩ ∧
      plan.slots.Forwarded circuit values params after := by
  obtain ⟨served, filled⟩ := SlotTable.exists_filled wellFormed made.slots
  have layers := (mapM_eq_ok.mp made.innerLayers).imp fun group layer success =>
    InnerLayer.exists_made success
  obtain ⟨after, ran, size, done, others⟩ := Execution.runLayers_eq wellFormed filled layers
    (fun _ member => member) (Layout.inner_ranks circuit) enough enoughParams
    (Execution.done_inputs wellFormed filled enough)
  refine ⟨after, ?_, size, ?_, ?_, ?_⟩
  · have lengths : (do
        checkLength .nodeValue plan.slots.numValues values.size
        checkLength .sumParameter plan.slots.numSumParams params.size) = .ok () :=
      unit_bind_eq_ok.mpr ⟨require_eq_ok.mpr enough, require_eq_ok.mpr enoughParams⟩
    rw [Execution.forward, lengths]
    exact ran
  · intro scalar has _
    exact done scalar has fun _ member => absurd member List.not_mem_nil
  · intro id reachable input offset contained
    apply others
    intro group member other inside holds
    have different : other ≠ id := by
      rintro rfl
      exact Layout.tag_of_mem_inner member inside input
    have apart := filled.values_apart wellFormed
      ((Layout.mem_nodes_inner member).mp inside).1 reachable different
    exact apart.not_contains holds contained
  · intro offset above
    apply others
    intro group member id inside holds
    have bound := filled.values_bound wellFormed ((Layout.mem_nodes_inner member).mp inside).1
    have below := (Span.contains_iff.mp holds).2
    omega

theorem Plan.forward_eq_value (accepted : circuit.Accepted)
    (compiled : Plan.ofCircuit circuit options = .ok plan)
    (enough : plan.slots.numValues ≤ values.size)
    (enoughParams : plan.slots.numSumParams ≤ params.size) :
    ∃ after, Execution.forward plan values params = .ok ⟨after, none⟩ ∧
      plan.slots.Forwarded circuit values params after ∧
      ∀ (otherOptions : Options) (otherPlan : Plan),
        Plan.ofCircuit circuit otherOptions = .ok otherPlan →
        Execution.forward otherPlan values params = .ok ⟨after, none⟩ := by
  have wellFormed := accepted.wellFormed
  have made := Plan.ofCircuit_made compiled
  obtain ⟨served, filled⟩ := SlotTable.exists_filled wellFormed made.slots
  obtain ⟨after, success, forwarded⟩ := made.forward_ok wellFormed enough enoughParams
  refine ⟨after, success, forwarded, ?_⟩
  intro otherOptions otherPlan otherCompiled
  have otherMade := Plan.ofCircuit_made otherCompiled
  have sameSlots : otherPlan.slots = plan.slots :=
    Except.ok.inj (otherMade.slots.symm.trans made.slots)
  obtain ⟨otherAfter, otherSuccess, otherForwarded⟩ := otherMade.forward_ok wellFormed
    (by rw [sameSlots]; exact enough) (by rw [sameSlots]; exact enoughParams)
  rw [sameSlots] at otherForwarded
  rw [otherSuccess, forwarded.unique wellFormed filled otherForwarded]

theorem Plan.twin_forward : ∃ (plan : Plan) (values params after : Array Float32),
    Plan.ofCircuit Circuit.twin {} = .ok plan ∧
      Execution.forward plan values params = .ok ⟨after, none⟩ ∧
      plan.slots.Forwarded Circuit.twin values params after := by
  have passes : (Plan.ofCircuit Circuit.twin {}).isOk = true := by decide +kernel
  obtain ⟨plan, compiled⟩ := exists_of_isOk passes
  have enough (count : Nat) : count ≤ (Array.replicate count (1 : Float32)).size :=
    Nat.le_of_eq Array.size_replicate.symm
  obtain ⟨after, success, forwarded, -⟩ := Plan.forward_eq_value Circuit.twin_accepted compiled
    (enough plan.slots.numValues) (enough plan.slots.numSumParams)
  exact ⟨plan, _, _, after, compiled, success, forwarded⟩

end Plan
end CircuitPlan
