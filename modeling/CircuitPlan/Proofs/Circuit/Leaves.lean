import CircuitPlan.Proofs.Circuit.Acceptance
import CircuitPlan.Proofs.Scope

namespace CircuitPlan

namespace Arena

variable {arena : Arena} {groupSize : Nat} {id : NodeId} {node : Node} {children : List NodeId}
  {var : Nat}

theorem mem_covered : var ∈ (arena.covered children).vars ↔
    ∃ child ∈ children, var ∈ (arena.node child).scope.vars := by
  have gathered (scope : Scope) :
      var ∈ (children.foldl (fun scope child => scope.union (arena.node child).scope) scope).vars ↔
        var ∈ scope.vars ∨ ∃ child ∈ children, var ∈ (arena.node child).scope.vars := by
    induction children generalizing scope with
    | nil => simp
    | cons child rest ih =>
        rw [List.foldl_cons, ih, Scope.mem_union, List.exists_mem_cons_iff, or_assoc]
  rw [covered, gathered]
  exact or_iff_right Scope.not_mem_empty

theorem Admits.mem_scope (admitted : arena.Admits groupSize id node) (inner : node.tag ≠ .input) :
    var ∈ node.scope.vars ↔ ∃ child ∈ node.children, var ∈ (arena.node child).scope.vars := by
  cases kind : node.kind with
  | input dist => simp [Node.tag, NodeKind.tag, kind] at inner
  | product =>
      obtain ⟨-, -, -, coverage⟩ := admitted.kind_rules.of_product kind
      rw [← coverage, mem_covered]
  | sum =>
      obtain ⟨nonempty, each, -⟩ := admitted.kind_rules.of_sum kind
      obtain ⟨first, isFirst⟩ := List.exists_mem_of_ne_nil _ nonempty
      constructor
      · intro member
        exact ⟨first, isFirst, (each first isFirst).2 ▸ member⟩
      · rintro ⟨child, isChild, member⟩
        exact (each child isChild).2 ▸ member

end Arena

namespace Circuit

variable {circuit : Circuit} {id leaf : NodeId} {var : Nat}

inductive IsLeaf (circuit : Circuit) (leaf : NodeId) : NodeId → Prop
  | input (input : (circuit.node leaf).tag = .input) : IsLeaf circuit leaf leaf
  | inner {id child : NodeId} (inner : (circuit.node id).tag ≠ .input)
      (isChild : child ∈ (circuit.node id).children) (below : IsLeaf circuit leaf child) :
      IsLeaf circuit leaf id

theorem isLeaf_of_input (input : (circuit.node id).tag = .input) :
    circuit.IsLeaf leaf id ↔ leaf = id := by
  constructor
  · intro isLeaf
    cases isLeaf with
    | input => rfl
    | inner inner => exact absurd input inner
  · rintro rfl
    exact .input input

theorem isLeaf_of_inner (inner : (circuit.node id).tag ≠ .input) :
    circuit.IsLeaf leaf id ↔ ∃ child ∈ (circuit.node id).children, circuit.IsLeaf leaf child := by
  constructor
  · intro isLeaf
    cases isLeaf with
    | input input => exact absurd input inner
    | inner _ isChild below => exact ⟨_, isChild, below⟩
  · rintro ⟨child, isChild, below⟩
    exact .inner inner isChild below

def Reads (circuit : Circuit) (id : NodeId) (var : Nat) : Prop :=
  ∃ leaf, circuit.IsLeaf leaf id ∧ var ∈ (circuit.node leaf).scope.vars

theorem reads_of_input (input : (circuit.node id).tag = .input) :
    circuit.Reads id var ↔ var ∈ (circuit.node id).scope.vars := by
  simp only [Reads, isLeaf_of_input input, exists_eq_left]

theorem reads_of_inner (inner : (circuit.node id).tag ≠ .input) :
    circuit.Reads id var ↔ ∃ child ∈ (circuit.node id).children, circuit.Reads child var := by
  simp only [Reads, isLeaf_of_inner inner]
  tauto

namespace WellFormed

variable (wellFormed : circuit.WellFormed)
include wellFormed

theorem child_lt_length (inside : id < circuit.arena.length) {child : NodeId}
    (isChild : child ∈ (circuit.node id).children) : child < circuit.arena.length :=
  Nat.lt_trans ((wellFormed.sound id inside).children_earlier child isChild) inside

theorem mem_scope_iff_reads (inside : id < circuit.arena.length) :
    var ∈ (circuit.node id).scope.vars ↔ circuit.Reads id var := by
  induction id using Nat.strongRecOn with
  | _ id ih =>
      have admitted := wellFormed.sound id inside
      by_cases input : (circuit.node id).tag = .input
      · exact (reads_of_input input).symm
      · rw [reads_of_inner input]
        refine (admitted.mem_scope input).trans ?_
        apply exists_congr
        intro child
        apply and_congr_right
        intro isChild
        exact ih child (admitted.children_earlier child isChild)
          (wellFormed.child_lt_length inside isChild)

theorem factors_apart (inside : id < circuit.arena.length)
    (kind : (circuit.node id).kind = .product) :
    (circuit.node id).children.Pairwise fun left right =>
      ∀ var, ¬ (circuit.Reads left var ∧ circuit.Reads right var) := by
  obtain ⟨-, -, apart, -⟩ := (wellFormed.sound id inside).kind_rules.of_product kind
  refine apart.imp_of_mem ?_
  intro left right isLeft isRight disjoint var
  rw [← wellFormed.mem_scope_iff_reads (wellFormed.child_lt_length inside isLeft),
    ← wellFormed.mem_scope_iff_reads (wellFormed.child_lt_length inside isRight)]
  rintro ⟨inLeft, inRight⟩
  exact Scope.disjoint_iff.mp disjoint var inLeft inRight

theorem terms_alike (inside : id < circuit.arena.length) (kind : (circuit.node id).kind = .sum)
    {child : NodeId} (isChild : child ∈ (circuit.node id).children) :
    circuit.Reads child var ↔ var ∈ (circuit.node id).scope.vars := by
  obtain ⟨-, each, -⟩ := (wellFormed.sound id inside).kind_rules.of_sum kind
  rw [← wellFormed.mem_scope_iff_reads (wellFormed.child_lt_length inside isChild)]
  exact iff_of_eq (congrArg (var ∈ Scope.vars ·) (each child isChild).2)

end WellFormed

/-- The declared scopes tell which variables are read below a node vector. -/
structure SmoothDecomposable (circuit : Circuit) : Prop where
  scope : ∀ id < circuit.arena.length, ∀ var,
    var ∈ (circuit.node id).scope.vars ↔ circuit.Reads id var
  decomposable : ∀ id < circuit.arena.length, (circuit.node id).kind = .product →
    (circuit.node id).children.Pairwise fun left right =>
      ∀ var, ¬ (circuit.Reads left var ∧ circuit.Reads right var)
  smooth : ∀ id < circuit.arena.length, (circuit.node id).kind = .sum →
    ∀ child ∈ (circuit.node id).children, ∀ var,
      circuit.Reads child var ↔ var ∈ (circuit.node id).scope.vars
  free : ∀ id < circuit.arena.length, padding ∉ (circuit.node id).scope.vars

theorem Accepted.smoothDecomposable (accepted : circuit.Accepted) :
    circuit.SmoothDecomposable := by
  have wellFormed := accepted.wellFormed
  constructor
  case scope => exact fun id inside var => wellFormed.mem_scope_iff_reads inside
  case decomposable => exact fun id inside kind => wellFormed.factors_apart inside kind
  case smooth =>
    exact fun id inside kind child isChild var => wellFormed.terms_alike inside kind isChild
  case free => exact fun id inside => (wellFormed.sound id inside).scope_free

theorem twin_smoothDecomposable : twin.SmoothDecomposable ∧ twin.Reads 8 3 ∧
    ¬ (twin.Reads 3 0 ∧ twin.Reads 7 0) := by
  have holds := Accepted.smoothDecomposable twin_accepted
  have inside : 8 < twin.arena.length := by decide
  have kind : (twin.node 8).kind = .product := rfl
  have factors : (twin.node 8).children = [3, 7] := rfl
  have apart := holds.decomposable 8 inside kind
  rw [factors, List.pairwise_pair] at apart
  exact ⟨holds, (holds.scope 8 inside 3).mp (by decide), apart 0⟩

end Circuit
end CircuitPlan
