import Mathlib.Data.List.Nodup
import CircuitPlan.Proofs.Layout.Depth

namespace CircuitPlan

theorem nodup_eraseDups {α : Type} [BEq α] [LawfulBEq α] (xs : List α) : xs.eraseDups.Nodup := by
  induction length : xs.length using Nat.strongRecOn generalizing xs with
  | _ n ih =>
      cases xs with
      | nil => simp
      | cons x xs =>
          rw [List.eraseDups_cons, List.nodup_cons]
          constructor
          · simp [List.mem_eraseDups]
          · subst length
            exact ih _ (Nat.lt_succ_of_le (List.length_filter_le _ _)) _ rfl

theorem map_firsts {α β : Type} [BEq α] [LawfulBEq α] [BEq β] [LawfulBEq β] (key : α → β)
    {xs : List α} (distinct : xs.Nodup) :
    (xs.filter fun x => (xs.filter fun y => key y == key x).head? == some x).map key =
      (xs.map key).eraseDups := by
  -- Dropping all entries with the key of the first one leaves the others first where they were.
  induction length : xs.length using Nat.strongRecOn generalizing xs with
  | _ n ih =>
      cases xs with
      | nil => simp
      | cons first rest =>
          obtain ⟨fresh, distinctRest⟩ := List.nodup_cons.mp distinct
          let others := rest.filter fun x => !key x == key first
          have shorter : others.length < n := by
            rw [← length]
            exact Nat.lt_succ_of_le (List.length_filter_le _ _)
          have later : (rest.filter fun x =>
                ((first :: rest).filter fun y => key y == key x).head? == some x) =
              others.filter fun x => (others.filter fun y => key y == key x).head? == some x := by
            rw [List.filter_filter]
            apply List.filter_congr
            intro x member
            by_cases same : key x = key first
            · have different : first ≠ x := by
                rintro rfl
                exact fresh member
              simp [same, different]
            · have keep : (others.filter fun y => key y == key x) =
                  rest.filter fun y => key y == key x := by
                rw [List.filter_filter]
                apply List.filter_congr
                intro y _
                by_cases alike : key y = key x
                · simp [alike, same]
                · simp [alike]
              rw [keep]
              simp [same, Ne.symm same]
          rw [List.filter_cons_of_pos (by simp), later, List.map_cons,
            ih others.length shorter (distinctRest.filter _) rfl, List.map_cons,
            List.eraseDups_cons, List.filter_map]
          rfl

def LayerKind.rank (kind : LayerKind) (depth : Nat) : Nat :=
  match kind with
  | .product => 2 * depth
  | .sum => 2 * depth + 1

def InnerGroup.rank (group : InnerGroup) : Nat := group.kind.rank group.depth

namespace Layout

variable {circuit : Circuit} {id child : NodeId} {group : InnerGroup}

theorem mem_inner {circuit : Circuit} {group : InnerGroup} :
    group ∈ (ofCircuit circuit).inner ↔ group.nodes ≠ [] ∧
      ∃ below < ((circuit.reachable.map (depth circuit)).foldl max 0), ∃ kind,
        group = innerGroup circuit (depths circuit.arena) circuit.reachable (below + 1) kind := by
  simp only [ofCircuit, List.mem_filter, List.mem_flatMap, List.mem_range, List.map_cons,
    List.map_nil, List.mem_cons, List.not_mem_nil, or_false]
  constructor
  · rintro ⟨⟨below, bound, rfl | rfl⟩, nonempty⟩
    · exact ⟨by simpa using nonempty, below, bound, .product, rfl⟩
    · exact ⟨by simpa using nonempty, below, bound, .sum, rfl⟩
  · rintro ⟨nonempty, below, bound, kind, rfl⟩
    refine ⟨⟨below, bound, ?_⟩, by simpa using nonempty⟩
    cases kind with
    | product => exact .inl rfl
    | sum => exact .inr rfl

theorem nodes_of_mem_inner (member : group ∈ (ofCircuit circuit).inner) :
    group.nodes = circuit.reachable.filter fun id =>
      depth circuit id == group.depth && (circuit.node id).layerKind? == some group.kind := by
  obtain ⟨-, below, -, kind, rfl⟩ := mem_inner.mp member
  rfl

theorem mem_nodes_inner (member : group ∈ (ofCircuit circuit).inner) :
    id ∈ group.nodes ↔ id ∈ circuit.reachable ∧ depth circuit id = group.depth ∧
      (circuit.node id).layerKind? = some group.kind := by
  rw [nodes_of_mem_inner member]
  simp

theorem layerKind_eq_none {node : Node} : node.layerKind? = none ↔ node.tag = .input := by
  unfold Node.layerKind? Node.tag
  cases node.kind <;> simp [NodeKind.tag]

theorem layerKind_eq_product {node : Node} :
    node.layerKind? = some .product ↔ node.kind = .product := by
  unfold Node.layerKind?
  cases node.kind <;> simp

theorem layerKind_eq_sum {node : Node} : node.layerKind? = some .sum ↔ node.kind = .sum := by
  unfold Node.layerKind?
  cases node.kind <;> simp

theorem exists_inner (wellFormed : circuit.WellFormed) (reachable : id ∈ circuit.reachable)
    (inner : (circuit.node id).tag ≠ .input) :
    ∃ group ∈ (ofCircuit circuit).inner, id ∈ group.nodes := by
  obtain ⟨kind, same⟩ := Option.ne_none_iff_exists'.mp (layerKind_eq_none.not.mpr inner)
  have positive := depth_pos wellFormed reachable inner
  have deepest := le_foldl_max (List.mem_map_of_mem (f := depth circuit) reachable) 0
  let group := innerGroup circuit (depths circuit.arena) circuit.reachable
    (depth circuit id - 1 + 1) kind
  have inside : id ∈ group.nodes := by
    refine List.mem_filter.mpr ⟨reachable, ?_⟩
    rw [Nat.sub_add_cancel positive]
    simp [same, depth]
  refine ⟨group, mem_inner.mpr ⟨List.ne_nil_of_mem inside, depth circuit id - 1, ?_, kind, rfl⟩,
    inside⟩
  exact Nat.lt_of_lt_of_le (Nat.sub_lt positive Nat.one_pos) deepest

theorem inner_ranks (circuit : Circuit) :
    (ofCircuit circuit).inner.Pairwise fun before after => before.rank < after.rank := by
  apply List.Pairwise.filter
  rw [List.pairwise_flatMap]
  constructor
  · intro below _
    simp [innerGroup, InnerGroup.rank, LayerKind.rank]
  · refine List.pairwise_lt_range.imp ?_
    intro low high lower before beforeMember after afterMember
    simp only [List.map_cons, List.map_nil, List.mem_cons, List.not_mem_nil, or_false]
      at beforeMember afterMember
    rcases beforeMember with rfl | rfl <;> rcases afterMember with rfl | rfl <;>
      simp only [innerGroup, InnerGroup.rank, LayerKind.rank] <;> omega

theorem child_earlier (wellFormed : circuit.WellFormed)
    (member : group ∈ (ofCircuit circuit).inner) (inside : id ∈ group.nodes)
    (isChild : child ∈ (circuit.node id).children) (inner : (circuit.node child).tag ≠ .input) :
    ∃ earlier ∈ (ofCircuit circuit).inner, child ∈ earlier.nodes ∧ earlier.rank < group.rank := by
  obtain ⟨reachable, depthEq, kindEq⟩ := (mem_nodes_inner member).mp inside
  obtain ⟨earlier, earlierMember, childInside⟩ :=
    exists_inner wellFormed (wellFormed.child_reachable reachable isChild) inner
  refine ⟨earlier, earlierMember, childInside, ?_⟩
  obtain ⟨-, childDepth, childKind⟩ := (mem_nodes_inner earlierMember).mp childInside
  unfold InnerGroup.rank
  cases kind : group.kind with
  | product =>
      rw [kind, layerKind_eq_product] at kindEq
      have lower := depth_child_lt wellFormed reachable kindEq isChild
      rw [childDepth, depthEq] at lower
      cases earlier.kind <;> simp only [LayerKind.rank] <;> omega
  | sum =>
      rw [kind, layerKind_eq_sum] at kindEq
      have lower := depth_child_le wellFormed reachable kindEq isChild
      rw [layerKind_eq_product.mpr (wellFormed.child_of_sum reachable kindEq isChild),
        Option.some.injEq] at childKind
      rw [childDepth, depthEq] at lower
      rw [← childKind]
      simp only [LayerKind.rank]
      omega

theorem rank_eq {other : InnerGroup} (member : group ∈ (ofCircuit circuit).inner)
    (otherMember : other ∈ (ofCircuit circuit).inner) (inside : id ∈ group.nodes)
    (otherInside : id ∈ other.nodes) : group.rank = other.rank := by
  obtain ⟨-, depthEq, kindEq⟩ := (mem_nodes_inner member).mp inside
  obtain ⟨-, otherDepth, otherKind⟩ := (mem_nodes_inner otherMember).mp otherInside
  rw [kindEq, Option.some.injEq] at otherKind
  rw [InnerGroup.rank, InnerGroup.rank, otherKind, ← depthEq, otherDepth]

theorem child_not_mem {later : InnerGroup} (wellFormed : circuit.WellFormed)
    (member : group ∈ (ofCircuit circuit).inner) (laterMember : later ∈ (ofCircuit circuit).inner)
    (notEarlier : group.rank ≤ later.rank) (inside : id ∈ group.nodes)
    (isChild : child ∈ (circuit.node id).children) : child ∉ later.nodes := by
  intro childInside
  have inner : (circuit.node child).tag ≠ .input := by
    rw [ne_eq, ← layerKind_eq_none, ((mem_nodes_inner laterMember).mp childInside).2.2]
    exact Option.some_ne_none _
  obtain ⟨earlier, earlierMember, childEarlier, lower⟩ :=
    child_earlier wellFormed member inside isChild inner
  rw [rank_eq earlierMember laterMember childEarlier childInside] at lower
  exact Nat.not_lt_of_le notEarlier lower

def signature? (circuit : Circuit) (id : NodeId) : Option String :=
  (circuit.node id).kind.dist?.map (·.signature)

theorem signature_ne_none : signature? circuit id ≠ none ↔ (circuit.node id).tag = .input := by
  unfold signature? Node.tag
  cases (circuit.node id).kind <;> simp [NodeKind.dist?, NodeKind.tag]

def signed (circuit : Circuit) : List (String × NodeId) :=
  circuit.reachable.filterMap fun id =>
    (circuit.node id).kind.dist?.map fun dist => (dist.signature, id)

theorem mem_signed {signature : String} :
    (signature, id) ∈ signed circuit ↔
      id ∈ circuit.reachable ∧ signature? circuit id = some signature := by
  simp only [signed, List.mem_filterMap, Option.map_eq_some_iff, signature?, Prod.mk.injEq]
  constructor
  · rintro ⟨other, reachable, dist, same, signed, rfl⟩
    exact ⟨reachable, dist, same, signed⟩
  · rintro ⟨reachable, dist, same, signed⟩
    exact ⟨id, reachable, dist, same, signed, rfl⟩

theorem inputs_eq (circuit : Circuit) :
    (ofCircuit circuit).inputs = ((signed circuit).map (·.1)).eraseDups.map fun signature =>
      ⟨signature, ((signed circuit).filter fun entry => entry.1 == signature).map (·.2)⟩ := rfl

theorem nodes_of_mem_inputs {group : InputGroup} (member : group ∈ (ofCircuit circuit).inputs) :
    group.nodes =
      circuit.reachable.filter fun id => signature? circuit id == some group.signature := by
  rw [inputs_eq] at member
  obtain ⟨signature, -, rfl⟩ := List.mem_map.mp member
  dsimp only
  rw [signed, List.filter_filterMap, List.map_filterMap, ← List.filterMap_eq_filter]
  congr 1
  funext id
  unfold signature?
  cases found : (circuit.node id).kind.dist? with
  | none => simp [Option.guard, found]
  | some dist =>
      by_cases same : dist.signature = signature
      · simp [Option.guard, Option.filter, found, same]
      · simp [Option.guard, Option.filter, found, same]

theorem mem_nodes_inputs {group : InputGroup} (member : group ∈ (ofCircuit circuit).inputs) :
    id ∈ group.nodes ↔
      id ∈ circuit.reachable ∧ signature? circuit id = some group.signature := by
  rw [nodes_of_mem_inputs member]
  simp

theorem exists_inputs (reachable : id ∈ circuit.reachable)
    (input : (circuit.node id).tag = .input) :
    ∃ group ∈ (ofCircuit circuit).inputs, id ∈ group.nodes := by
  obtain ⟨signature, same⟩ := Option.ne_none_iff_exists'.mp (signature_ne_none.mpr input)
  have present : (signature, id) ∈ signed circuit := mem_signed.mpr ⟨reachable, same⟩
  rw [inputs_eq]
  refine ⟨_, List.mem_map.mpr ⟨signature, ?_, rfl⟩, ?_⟩
  · exact List.mem_eraseDups.mpr (List.mem_map_of_mem present)
  · exact List.mem_map.mpr ⟨(signature, id), List.mem_filter.mpr ⟨present, by simp⟩, rfl⟩

theorem inputs_signatures (circuit : Circuit) :
    (ofCircuit circuit).inputs.Pairwise fun before after =>
      before.signature ≠ after.signature := by
  rw [inputs_eq, List.pairwise_map]
  exact nodup_eraseDups _

theorem mem_order (wellFormed : circuit.WellFormed) :
    id ∈ (ofCircuit circuit).order ↔ id ∈ circuit.reachable := by
  rw [order, List.mem_append, List.mem_flatMap, List.mem_flatMap]
  constructor
  · rintro (⟨group, member, inside⟩ | ⟨group, member, inside⟩)
    · exact ((mem_nodes_inputs member).mp inside).1
    · exact ((mem_nodes_inner member).mp inside).1
  · intro reachable
    by_cases input : (circuit.node id).tag = .input
    · exact .inl (exists_inputs reachable input)
    · exact .inr (exists_inner wellFormed reachable input)

theorem tag_of_mem_inputs {group : InputGroup} (member : group ∈ (ofCircuit circuit).inputs)
    (inside : id ∈ group.nodes) : (circuit.node id).tag = .input := by
  rw [← signature_ne_none, ((mem_nodes_inputs member).mp inside).2]
  exact Option.some_ne_none _

theorem tag_of_mem_inner (member : group ∈ (ofCircuit circuit).inner)
    (inside : id ∈ group.nodes) : (circuit.node id).tag ≠ .input := by
  rw [ne_eq, ← layerKind_eq_none, ((mem_nodes_inner member).mp inside).2.2]
  exact Option.some_ne_none _

theorem order_nodup (circuit : Circuit) : (ofCircuit circuit).order.Nodup := by
  rw [order, List.nodup_append']
  refine ⟨?_, ?_, ?_⟩
  · rw [List.nodup_flatMap]
    constructor
    · intro group member
      rw [nodes_of_mem_inputs member]
      exact circuit.reachable_nodup.filter _
    · refine (inputs_signatures circuit).imp_of_mem ?_
      intro before after beforeMember afterMember apart id inBefore inAfter
      have left := ((mem_nodes_inputs beforeMember).mp inBefore).2
      have right := ((mem_nodes_inputs afterMember).mp inAfter).2
      exact apart (Option.some.inj (left.symm.trans right))
  · rw [List.nodup_flatMap]
    constructor
    · intro group member
      rw [nodes_of_mem_inner member]
      exact circuit.reachable_nodup.filter _
    · refine (inner_ranks circuit).imp_of_mem ?_
      intro before after beforeMember afterMember lower id inBefore inAfter
      obtain ⟨-, beforeDepth, beforeKind⟩ := (mem_nodes_inner beforeMember).mp inBefore
      obtain ⟨-, afterDepth, afterKind⟩ := (mem_nodes_inner afterMember).mp inAfter
      have sameKind := Option.some.inj (beforeKind.symm.trans afterKind)
      rw [InnerGroup.rank, InnerGroup.rank, sameKind, ← beforeDepth, ← afterDepth] at lower
      exact Nat.lt_irrefl _ lower
  · intro id inInputs inInner
    obtain ⟨inputs, inputsMember, inInputs⟩ := List.mem_flatMap.mp inInputs
    obtain ⟨inner, innerMember, inInner⟩ := List.mem_flatMap.mp inInner
    exact tag_of_mem_inner innerMember inInner (tag_of_mem_inputs inputsMember inInputs)

theorem order_perm (wellFormed : circuit.WellFormed) :
    (ofCircuit circuit).order.Perm circuit.reachable := by
  rw [List.perm_ext_iff_of_nodup (order_nodup circuit) circuit.reachable_nodup]
  exact fun id => mem_order wellFormed

end Layout
end CircuitPlan
