import Mathlib.Data.Nat.Init
import CircuitPlan.Proofs.Layout.Order

namespace CircuitPlan

namespace Layout

variable {circuit : Circuit} {id child : NodeId} {level : Nat} {kind : LayerKind}

theorem depth_input (wellFormed : circuit.WellFormed) (reachable : id ∈ circuit.reachable)
    (input : (circuit.node id).tag = .input) : depth circuit id = 0 := by
  obtain ⟨dist, kind⟩ := Node.tag_eq_input.mp input
  rw [depth_eq_level wellFormed reachable, Layout.level, kind]

theorem exists_child_below (wellFormed : circuit.WellFormed) (reachable : id ∈ circuit.reachable)
    (kind : (circuit.node id).kind = .product) :
    ∃ child ∈ (circuit.node id).children, depth circuit child + 1 = depth circuit id := by
  have inner : (circuit.node id).tag ≠ .input := by simp [Node.tag_eq_product.mpr kind]
  obtain ⟨child, isChild, deepest⟩ := exists_foldl_max (depth circuit)
    (wellFormed.children_ne_nil reachable inner)
  refine ⟨child, isChild, ?_⟩
  rw [depth_eq_level wellFormed reachable, Layout.level, kind, deepest, Nat.add_comm]
  rfl

theorem exists_child_beside (wellFormed : circuit.WellFormed) (reachable : id ∈ circuit.reachable)
    (kind : (circuit.node id).kind = .sum) :
    ∃ child ∈ (circuit.node id).children, depth circuit child = depth circuit id := by
  have inner : (circuit.node id).tag ≠ .input := by simp [Node.tag_eq_sum.mpr kind]
  obtain ⟨child, isChild, deepest⟩ := exists_foldl_max (depth circuit)
    (wellFormed.children_ne_nil reachable inner)
  refine ⟨child, isChild, ?_⟩
  rw [depth_eq_level wellFormed reachable, Layout.level, kind, deepest]
  rfl

def Occupied (circuit : Circuit) (kind : LayerKind) (level : Nat) : Prop :=
  ∃ id ∈ circuit.reachable, depth circuit id = level ∧ (circuit.node id).layerKind? = some kind

def deepest (circuit : Circuit) : Nat := (circuit.reachable.map (depth circuit)).foldl max 0

theorem Occupied.product_of_sum (wellFormed : circuit.WellFormed)
    (occupied : Occupied circuit .sum level) : Occupied circuit .product level := by
  obtain ⟨id, reachable, rfl, same⟩ := occupied
  have kind := layerKind_eq_sum.mp same
  obtain ⟨child, isChild, beside⟩ := exists_child_beside wellFormed reachable kind
  exact ⟨child, wellFormed.child_reachable reachable isChild, beside,
    layerKind_eq_product.mpr (wellFormed.child_of_sum reachable kind isChild)⟩

theorem Occupied.sum_of_product (wellFormed : circuit.WellFormed) (positive : 0 < level)
    (occupied : Occupied circuit .product (level + 1)) : Occupied circuit .sum level := by
  obtain ⟨id, reachable, top, same⟩ := occupied
  have kind := layerKind_eq_product.mp same
  obtain ⟨child, isChild, below⟩ := exists_child_below wellFormed reachable kind
  have childReachable := wellFormed.child_reachable reachable isChild
  have childDepth : depth circuit child = level := Nat.succ.inj (below.trans top)
  refine ⟨child, childReachable, childDepth, ?_⟩
  -- It is no product, and an input would have depth 0.
  cases childKind : (circuit.node child).kind with
  | input dist =>
      have zero := depth_input wellFormed childReachable (Node.tag_eq_input.mpr ⟨dist, childKind⟩)
      omega
  | product =>
      have factor := (wellFormed.child_of_product reachable kind isChild).1
      exact absurd (Node.tag_eq_product.mpr childKind) factor
  | sum => exact layerKind_eq_sum.mpr childKind

theorem occupied_deepest (wellFormed : circuit.WellFormed) (positive : 0 < deepest circuit) :
    Occupied circuit .product (deepest circuit) := by
  obtain ⟨id, reachable, top⟩ := exists_foldl_max (depth circuit)
    (List.ne_nil_of_mem circuit.root_reachable)
  change depth circuit id = deepest circuit at top
  have inner : (circuit.node id).tag ≠ .input := by
    intro input
    rw [depth_input wellFormed reachable input] at top
    omega
  obtain ⟨kind, same⟩ := Option.ne_none_iff_exists'.mp (layerKind_eq_none.not.mpr inner)
  have occupied : Occupied circuit kind (deepest circuit) := ⟨id, reachable, top, same⟩
  cases kind with
  | product => exact occupied
  | sum => exact occupied.product_of_sum wellFormed

theorem occupied_product (wellFormed : circuit.WellFormed) (positive : 0 < level)
    (inside : level ≤ deepest circuit) : Occupied circuit .product level := by
  induction inside using Nat.decreasingInduction with
  | self => exact occupied_deepest wellFormed positive
  | of_succ level below ih =>
      have above := ih (Nat.succ_pos level)
      exact (above.sum_of_product wellFormed positive).product_of_sum wellFormed

theorem occupied_sum (wellFormed : circuit.WellFormed) (positive : 0 < level)
    (below : level < deepest circuit) : Occupied circuit .sum level :=
  (occupied_product wellFormed (Nat.succ_pos level) below).sum_of_product wellFormed positive

def alternating (depth : Nat) : List (LayerKind × Nat) :=
  (List.range depth).flatMap fun below => [(.product, below + 1), (.sum, below + 1)]

theorem alternating_succ (depth : Nat) :
    alternating (depth + 1) = alternating depth ++ [(.product, depth + 1), (.sum, depth + 1)] := by
  rw [alternating, List.range_succ, List.flatMap_append]
  simp [alternating]

theorem mem_alternating {depth : Nat} :
    (kind, level) ∈ alternating depth ↔ 0 < level ∧ level ≤ depth := by
  simp only [alternating, List.mem_flatMap, List.mem_range, List.mem_cons, List.not_mem_nil,
    or_false, Prod.mk.injEq]
  constructor
  · rintro ⟨below, inside, ⟨-, rfl⟩ | ⟨-, rfl⟩⟩ <;> omega
  · rintro ⟨positive, inside⟩
    refine ⟨level - 1, by omega, ?_⟩
    cases kind <;> simp <;> omega

open Classical in
theorem inner_places (circuit : Circuit) :
    ((ofCircuit circuit).inner.map fun group => (group.kind, group.depth)) =
      (alternating (deepest circuit)).filter fun place =>
        decide (Occupied circuit place.1 place.2) := by
  have made : (ofCircuit circuit).inner = ((alternating (deepest circuit)).map fun place =>
      innerGroup circuit (depths circuit.arena) circuit.reachable place.2 place.1).filter
        fun group => !group.nodes.isEmpty := by
    rw [alternating, List.map_flatMap]
    rfl
  have nonempty (place : LayerKind × Nat) :
      (!(innerGroup circuit (depths circuit.arena) circuit.reachable place.2
        place.1).nodes.isEmpty) = decide (Occupied circuit place.1 place.2) := by
    rw [Bool.eq_iff_iff, decide_eq_true_iff, Bool.not_eq_true',
      List.isEmpty_eq_false_iff_exists_mem]
    simp [innerGroup, Occupied, depth]
  rw [made, List.filter_map, List.map_map]
  simp only [Function.comp_def, nonempty]
  exact List.map_id _

theorem inner_alternate (wellFormed : circuit.WellFormed) :
    ((ofCircuit circuit).inner.map fun group => (group.kind, group.depth)) =
        alternating (deepest circuit) ∨
      ∃ below, deepest circuit = below + 1 ∧
        ((ofCircuit circuit).inner.map fun group => (group.kind, group.depth)) =
          alternating below ++ [(.product, below + 1)] := by
  classical
  rw [inner_places]
  cases top : deepest circuit with
  | zero => exact .inl rfl
  | succ below =>
      have full : ((alternating below).filter fun place =>
          decide (Occupied circuit place.1 place.2)) = alternating below := by
        rw [List.filter_eq_self]
        rintro ⟨kind, level⟩ member
        obtain ⟨positive, inside⟩ := mem_alternating.mp member
        apply decide_eq_true
        cases kind with
        | product => exact occupied_product wellFormed positive (by omega)
        | sum => exact occupied_sum wellFormed positive (by omega)
      have products : Occupied circuit .product (below + 1) :=
        occupied_product wellFormed (Nat.succ_pos below) (Nat.le_of_eq top.symm)
      rw [alternating_succ, List.filter_append, full]
      by_cases sums : Occupied circuit .sum (below + 1)
      · exact .inl (by simp [products, sums])
      · exact .inr ⟨below, rfl, by simp [products, sums]⟩

theorem signed_ascending (circuit : Circuit) :
    (signed circuit).Pairwise fun before after => before.2 < after.2 := by
  refine List.Pairwise.filterMap _ ?_ circuit.reachable_ascending
  intro first second lower entry made other otherMade
  obtain ⟨_, -, rfl⟩ := Option.map_eq_some_iff.mp made
  obtain ⟨_, -, rfl⟩ := Option.map_eq_some_iff.mp otherMade
  exact lower

theorem inputs_by_first (circuit : Circuit) :
    (ofCircuit circuit).inputs.Pairwise fun before after =>
      ∀ id ∈ after.nodes, ∃ first ∈ before.nodes, first < id := by
  have ascending := signed_ascending circuit
  have distinct : (signed circuit).Nodup := by
    refine ascending.imp ?_
    rintro entry _ lower rfl
    exact Nat.lt_irrefl _ lower
  rw [inputs_eq, ← map_firsts (·.1) distinct, List.map_map, List.pairwise_map]
  refine (ascending.filter _).imp_of_mem ?_
  intro before after isBefore isAfter earlier id inside
  have beforePresent := List.mem_of_mem_filter isBefore
  refine ⟨before.2, ?_, ?_⟩
  · exact List.mem_map_of_mem (List.mem_filter.mpr ⟨beforePresent, beq_self_eq_true _⟩)
  · -- The entry `after` comes first among those with its signature.
    obtain ⟨entry, present, rfl⟩ := List.mem_map.mp inside
    obtain ⟨rest, split⟩ := List.head?_eq_some_iff.mp
      (beq_iff_eq.mp (List.mem_filter.mp isAfter).2)
    have order := ascending.filter fun entry => entry.1 == after.1
    rw [split, List.pairwise_cons] at order
    change entry ∈ (signed circuit).filter fun entry => entry.1 == after.1 at present
    rw [split] at present
    rcases List.mem_cons.mp present with rfl | later
    · exact earlier
    · exact Nat.lt_trans earlier (order.1 entry later)

theorem inputs_nonempty {group : InputGroup} (member : group ∈ (ofCircuit circuit).inputs) :
    group.nodes ≠ [] := by
  rw [inputs_eq] at member
  obtain ⟨signature, used, rfl⟩ := List.mem_map.mp member
  obtain ⟨entry, present, rfl⟩ := List.mem_map.mp (List.mem_eraseDups.mp used)
  have inside : entry ∈ (signed circuit).filter fun other => other.1 == entry.1 :=
    List.mem_filter.mpr ⟨present, beq_self_eq_true _⟩
  exact List.ne_nil_of_mem (List.mem_map_of_mem (f := (·.2)) inside)

/-- Which layers a circuit has and which node vectors lie in them. -/
structure Layered (circuit : Circuit) : Prop where
  all : (ofCircuit circuit).order.Perm circuit.reachable
  reachable_nodup : circuit.reachable.Nodup
  inputs_nonempty : ∀ group ∈ (ofCircuit circuit).inputs, group.nodes ≠ []
  inputs_ascending : ∀ group ∈ (ofCircuit circuit).inputs, group.nodes.Pairwise (· < ·)
  inputs_signature : ∀ group ∈ (ofCircuit circuit).inputs, ∀ id ∈ group.nodes,
    signature? circuit id = some group.signature ∧ depth circuit id = 0
  inputs_distinct : (ofCircuit circuit).inputs.Pairwise fun before after =>
    before.signature ≠ after.signature
  inputs_by_first : (ofCircuit circuit).inputs.Pairwise fun before after =>
    ∀ id ∈ after.nodes, ∃ first ∈ before.nodes, first < id
  inner_alternate :
    ((ofCircuit circuit).inner.map fun group => (group.kind, group.depth)) =
        alternating (deepest circuit) ∨
      ∃ below, deepest circuit = below + 1 ∧
        ((ofCircuit circuit).inner.map fun group => (group.kind, group.depth)) =
          alternating below ++ [(.product, below + 1)]
  inner_nonempty : ∀ group ∈ (ofCircuit circuit).inner, group.nodes ≠ []
  inner_kind : ∀ group ∈ (ofCircuit circuit).inner, ∀ id ∈ group.nodes,
    (circuit.node id).layerKind? = some group.kind ∧ depth circuit id = group.depth
  factors : ∀ group ∈ (ofCircuit circuit).inner, group.kind = .product → ∀ id ∈ group.nodes,
    (∀ child ∈ (circuit.node id).children,
      (∃ inputs ∈ (ofCircuit circuit).inputs, child ∈ inputs.nodes) ∨
        ∃ sums ∈ (ofCircuit circuit).inner, sums.kind = .sum ∧ sums.depth < group.depth ∧
          child ∈ sums.nodes) ∧
    ∃ child ∈ (circuit.node id).children, depth circuit child + 1 = group.depth
  terms : ∀ group ∈ (ofCircuit circuit).inner, group.kind = .sum → ∀ id ∈ group.nodes,
    (∀ child ∈ (circuit.node id).children,
      ∃ products ∈ (ofCircuit circuit).inner, products.kind = .product ∧
        products.depth ≤ group.depth ∧ child ∈ products.nodes) ∧
    ∃ child ∈ (circuit.node id).children, depth circuit child = group.depth

section Children

variable {group : InnerGroup} (wellFormed : circuit.WellFormed)
  (member : group ∈ (ofCircuit circuit).inner) (inside : id ∈ group.nodes)
include wellFormed member inside

theorem factor_earlier (isProduct : group.kind = .product)
    (isChild : child ∈ (circuit.node id).children) :
    (∃ inputs ∈ (ofCircuit circuit).inputs, child ∈ inputs.nodes) ∨
      ∃ sums ∈ (ofCircuit circuit).inner, sums.kind = .sum ∧ sums.depth < group.depth ∧
        child ∈ sums.nodes := by
  obtain ⟨reachable, depthEq, same⟩ := (mem_nodes_inner member).mp inside
  rw [isProduct, layerKind_eq_product] at same
  have childReachable := wellFormed.child_reachable reachable isChild
  have factor := (wellFormed.child_of_product reachable same isChild).1
  by_cases input : (circuit.node child).tag = .input
  · exact .inl (exists_inputs childReachable input)
  · obtain ⟨sums, sumsMember, childInside⟩ := exists_inner wellFormed childReachable input
    obtain ⟨-, childDepth, childKind⟩ := (mem_nodes_inner sumsMember).mp childInside
    refine .inr ⟨sums, sumsMember, ?_, ?_, childInside⟩
    · cases kind : sums.kind with
      | product =>
          rw [kind, layerKind_eq_product, ← Node.tag_eq_product] at childKind
          exact absurd childKind factor
      | sum => rfl
    · rw [← childDepth, ← depthEq]
      exact depth_child_lt wellFormed reachable same isChild

theorem term_earlier (isSum : group.kind = .sum) (isChild : child ∈ (circuit.node id).children) :
    ∃ products ∈ (ofCircuit circuit).inner, products.kind = .product ∧
      products.depth ≤ group.depth ∧ child ∈ products.nodes := by
  obtain ⟨reachable, depthEq, same⟩ := (mem_nodes_inner member).mp inside
  rw [isSum, layerKind_eq_sum] at same
  have childReachable := wellFormed.child_reachable reachable isChild
  have term := wellFormed.child_of_sum reachable same isChild
  have inner : (circuit.node child).tag ≠ .input := by simp [Node.tag_eq_product.mpr term]
  obtain ⟨products, productsMember, childInside⟩ := exists_inner wellFormed childReachable inner
  obtain ⟨-, childDepth, childKind⟩ := (mem_nodes_inner productsMember).mp childInside
  rw [layerKind_eq_product.mpr term, Option.some.injEq] at childKind
  refine ⟨products, productsMember, childKind.symm, ?_, childInside⟩
  rw [← childDepth, ← depthEq]
  exact depth_child_le wellFormed reachable same isChild

end Children

theorem ofCircuit_layered (accepted : circuit.Accepted) : Layered circuit := by
  have wellFormed := accepted.wellFormed
  constructor
  case all => exact order_perm wellFormed
  case reachable_nodup => exact circuit.reachable_nodup
  case inputs_nonempty => exact fun group member => inputs_nonempty member
  case inputs_ascending =>
    intro group member
    rw [nodes_of_mem_inputs member]
    exact circuit.reachable_ascending.filter _
  case inputs_signature =>
    intro group member id inside
    obtain ⟨reachable, signed⟩ := (mem_nodes_inputs member).mp inside
    exact ⟨signed, depth_input wellFormed reachable (tag_of_mem_inputs member inside)⟩
  case inputs_distinct => exact inputs_signatures circuit
  case inputs_by_first => exact inputs_by_first circuit
  case inner_alternate => exact inner_alternate wellFormed
  case inner_nonempty => exact fun group member => (mem_inner.mp member).1
  case inner_kind =>
    intro group member id inside
    obtain ⟨-, depthEq, same⟩ := (mem_nodes_inner member).mp inside
    exact ⟨same, depthEq⟩
  case factors =>
    intro group member isProduct id inside
    obtain ⟨reachable, depthEq, same⟩ := (mem_nodes_inner member).mp inside
    rw [isProduct, layerKind_eq_product] at same
    rw [← depthEq]
    exact ⟨fun child isChild => depthEq ▸ factor_earlier wellFormed member inside isProduct isChild,
      exists_child_below wellFormed reachable same⟩
  case terms =>
    intro group member isSum id inside
    obtain ⟨reachable, depthEq, same⟩ := (mem_nodes_inner member).mp inside
    rw [isSum, layerKind_eq_sum] at same
    rw [← depthEq]
    exact ⟨fun child isChild => depthEq ▸ term_earlier wellFormed member inside isSum isChild,
      exists_child_beside wellFormed reachable same⟩

theorem twin_layered : Layered Circuit.twin ∧
    (ofCircuit Circuit.twin).inputs = [⟨"Categorical", [0, 1, 4, 5]⟩] ∧
    (ofCircuit Circuit.twin).inner = [⟨.product, 1, [2, 6]⟩, ⟨.sum, 1, [3, 7]⟩, ⟨.product, 2, [8]⟩,
      ⟨.sum, 2, [9]⟩] :=
  ⟨ofCircuit_layered Circuit.twin_accepted, by decide +kernel, by decide +kernel⟩

end Layout
end CircuitPlan
