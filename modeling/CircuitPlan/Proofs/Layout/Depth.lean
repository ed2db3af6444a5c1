import Mathlib.Data.List.Induction
import CircuitPlan.Layout
import CircuitPlan.Proofs.Circuit.Reachability

namespace CircuitPlan

theorem start_le_foldl_max (xs : List Nat) (start : Nat) : start ≤ xs.foldl max start := by
  induction xs generalizing start with
  | nil => exact Nat.le_refl start
  | cons x xs ih => exact Nat.le_trans (Nat.le_max_left start x) (ih _)

theorem le_foldl_max {xs : List Nat} {x : Nat} (member : x ∈ xs) (start : Nat) :
    x ≤ xs.foldl max start := by
  induction xs generalizing start with
  | nil => simp at member
  | cons y ys ih =>
      rcases List.mem_cons.mp member with rfl | rest
      · exact Nat.le_trans (Nat.le_max_right start x) (start_le_foldl_max ys _)
      · exact ih rest _

theorem foldl_max_mem (xs : List Nat) (start : Nat) :
    xs.foldl max start = start ∨ xs.foldl max start ∈ xs := by
  induction xs generalizing start with
  | nil => exact .inl rfl
  | cons x xs ih =>
      rw [List.foldl_cons]
      rcases ih (max start x) with same | later
      · rw [same]
        rcases Nat.le_total start x with below | above
        · rw [Nat.max_eq_right below]
          exact .inr List.mem_cons_self
        · exact .inl (Nat.max_eq_left above)
      · exact .inr (List.mem_cons_of_mem x later)

theorem foldl_max_le {xs : List Nat} {bound : Nat} :
    xs.foldl max 0 ≤ bound ↔ ∀ x ∈ xs, x ≤ bound := by
  constructor
  · exact fun least x member => Nat.le_trans (le_foldl_max member 0) least
  · intro each
    rcases foldl_max_mem xs 0 with zero | attained
    · exact Nat.le_trans (Nat.le_of_eq zero) (Nat.zero_le bound)
    · exact each _ attained

theorem exists_foldl_max {α : Type} (f : α → Nat) {xs : List α} (nonempty : xs ≠ []) :
    ∃ x ∈ xs, f x = (xs.map f).foldl max 0 := by
  rcases foldl_max_mem (xs.map f) 0 with zero | attained
  · obtain ⟨x, member⟩ := List.exists_mem_of_ne_nil xs nonempty
    have least := le_foldl_max (List.mem_map_of_mem (f := f) member) 0
    rw [zero] at least ⊢
    exact ⟨x, member, Nat.eq_zero_of_le_zero least⟩
  · exact List.mem_map.mp attained

namespace Layout

theorem level_congr {before after : List Nat} {node : Node}
    (same : ∀ child ∈ node.children, before.getD child 0 = after.getD child 0) :
    level before node = level after node := by
  unfold level
  rw [List.map_congr_left same]

theorem depths_append (arena : Arena) (node : Node) :
    depths (arena ++ [node]) = depths arena ++ [level (depths arena) node] := by
  simp [depths, List.foldl_append]

theorem length_depths (arena : Arena) : (depths arena).length = arena.length := by
  induction arena using List.reverseRecOn with
  | nil => rfl
  | append_singleton arena node ih => rw [depths_append]; simp [ih]

theorem getD_depths {arena : Arena} {id : NodeId} (inside : id < arena.length)
    (earlier : ∀ child ∈ (arena.node id).children, child < id) :
    (depths arena).getD id 0 = level (depths arena) (arena.node id) := by
  induction arena using List.reverseRecOn with
  | nil => simp at inside
  | append_singleton arena node ih =>
      have prior (child : NodeId) (before : child < arena.length) :
          (depths arena).getD child 0 = (depths (arena ++ [node])).getD child 0 := by
        rw [depths_append, List.getD_eq_getElem?_getD, List.getD_eq_getElem?_getD,
          List.getElem?_append_left (by rw [length_depths]; exact before)]
      by_cases old : id < arena.length
      · rw [Arena.node_append_left old] at earlier ⊢
        rw [← prior id old, ih old earlier]
        apply level_congr
        intro child member
        exact prior child (Nat.lt_trans (earlier child member) old)
      · rw [List.length_append, List.length_singleton] at inside
        obtain rfl : id = arena.length := Nat.eq_of_lt_succ_of_not_lt inside old
        rw [Arena.node_append_self] at earlier ⊢
        rw [← level_congr fun child member => prior child (earlier child member), depths_append,
          List.getD_eq_getElem?_getD]
        simp [length_depths]

def depth (circuit : Circuit) (id : NodeId) : Nat := (depths circuit.arena).getD id 0

section Depth

variable {circuit : Circuit} {id child : NodeId}

theorem depth_eq_level (wellFormed : circuit.WellFormed) (reachable : id ∈ circuit.reachable) :
    depth circuit id = level (depths circuit.arena) (circuit.node id) :=
  getD_depths (wellFormed.lt_length reachable) (wellFormed.admits reachable).children_earlier

theorem depth_child_lt (wellFormed : circuit.WellFormed) (reachable : id ∈ circuit.reachable)
    (kind : (circuit.node id).kind = .product) (isChild : child ∈ (circuit.node id).children) :
    depth circuit child < depth circuit id := by
  rw [depth_eq_level wellFormed reachable, level, kind, Nat.add_comm]
  exact Nat.lt_succ_of_le (le_foldl_max (List.mem_map_of_mem isChild) 0)

theorem depth_child_le (wellFormed : circuit.WellFormed) (reachable : id ∈ circuit.reachable)
    (kind : (circuit.node id).kind = .sum) (isChild : child ∈ (circuit.node id).children) :
    depth circuit child ≤ depth circuit id := by
  rw [depth_eq_level wellFormed reachable, level, kind]
  exact le_foldl_max (List.mem_map_of_mem isChild) 0

theorem depth_product_pos (wellFormed : circuit.WellFormed) (reachable : id ∈ circuit.reachable)
    (kind : (circuit.node id).kind = .product) : 0 < depth circuit id := by
  rw [depth_eq_level wellFormed reachable, level, kind, Nat.add_comm]
  exact Nat.succ_pos _

end Depth

end Layout

theorem Node.tag_eq_product {node : Node} : node.tag = .product ↔ node.kind = .product := by
  unfold Node.tag
  cases node.kind <;> simp [NodeKind.tag]

theorem Node.tag_eq_sum {node : Node} : node.tag = .sum ↔ node.kind = .sum := by
  unfold Node.tag
  cases node.kind <;> simp [NodeKind.tag]

theorem Node.tag_eq_input {node : Node} : node.tag = .input ↔ ∃ dist, node.kind = .input dist := by
  unfold Node.tag
  cases node.kind <;> simp [NodeKind.tag]

theorem Arena.Admits.children_ne_nil {arena : Arena} {groupSize : Nat} {id : NodeId} {node : Node}
    (admitted : arena.Admits groupSize id node) (inner : node.tag ≠ .input) :
    node.children ≠ [] := by
  cases kind : node.kind with
  | input dist => exact absurd (Node.tag_eq_input.mpr ⟨dist, kind⟩) inner
  | product => exact (admitted.kind_rules.of_product kind).1
  | sum => exact (admitted.kind_rules.of_sum kind).1

namespace Circuit.WellFormed

variable {circuit : Circuit} {id child : NodeId}

theorem child_of_product (wellFormed : circuit.WellFormed) (reachable : id ∈ circuit.reachable)
    (kind : (circuit.node id).kind = .product) (isChild : child ∈ (circuit.node id).children) :
    (circuit.node child).tag ≠ .product ∧
      (circuit.node child).numGroups = (circuit.node id).numGroups := by
  obtain ⟨-, each, -⟩ := (wellFormed.admits reachable).kind_rules.of_product kind
  exact each child isChild

theorem child_of_sum (wellFormed : circuit.WellFormed) (reachable : id ∈ circuit.reachable)
    (kind : (circuit.node id).kind = .sum) (isChild : child ∈ (circuit.node id).children) :
    (circuit.node child).kind = .product := by
  obtain ⟨-, each, -⟩ := (wellFormed.admits reachable).kind_rules.of_sum kind
  exact Node.tag_eq_product.mp (each child isChild).1

theorem children_ne_nil (wellFormed : circuit.WellFormed) (reachable : id ∈ circuit.reachable)
    (inner : (circuit.node id).tag ≠ .input) : (circuit.node id).children ≠ [] :=
  (wellFormed.admits reachable).children_ne_nil inner

end Circuit.WellFormed

namespace Layout

variable {circuit : Circuit} {id child : NodeId}

theorem depth_pos (wellFormed : circuit.WellFormed) (reachable : id ∈ circuit.reachable)
    (inner : (circuit.node id).tag ≠ .input) : 0 < depth circuit id := by
  cases kind : (circuit.node id).kind with
  | input dist => exact absurd (Node.tag_eq_input.mpr ⟨dist, kind⟩) inner
  | product => exact depth_product_pos wellFormed reachable kind
  | sum =>
      obtain ⟨child, isChild⟩ := List.exists_mem_of_ne_nil _
        (wellFormed.children_ne_nil reachable inner)
      have positive := depth_product_pos wellFormed
        (wellFormed.child_reachable reachable isChild)
        (wellFormed.child_of_sum reachable kind isChild)
      exact Nat.lt_of_lt_of_le positive (depth_child_le wellFormed reachable kind isChild)

end Layout

end CircuitPlan
