import CircuitPlan.Circuit
import CircuitPlan.Proofs.Circuit.Acceptance

namespace CircuitPlan

namespace Circuit

section Below

variable {arena : Arena} {bound : Nat} {frontier : List NodeId} {id : NodeId}

theorem reachableBelow_lt (member : id ∈ reachableBelow arena bound frontier) : id < bound := by
  induction bound generalizing frontier with
  | zero => simp [reachableBelow] at member
  | succ last ih =>
      rw [reachableBelow] at member
      split at member
      · rcases List.mem_append.mp member with below | top
        · exact Nat.lt_succ_of_lt (ih below)
        · rw [List.mem_singleton.mp top]
          exact Nat.lt_succ_self last
      · exact Nat.lt_succ_of_lt (ih member)

theorem reachableBelow_ascending (arena : Arena) (bound : Nat) (frontier : List NodeId) :
    (reachableBelow arena bound frontier).Pairwise (· < ·) := by
  induction bound generalizing frontier with
  | zero => exact .nil
  | succ last ih =>
      rw [reachableBelow]
      split
      · refine List.pairwise_append.mpr ⟨ih _, List.pairwise_singleton _ _, ?_⟩
        intro low member high top
        rw [List.mem_singleton.mp top]
        exact reachableBelow_lt member
      · exact ih frontier

theorem mem_reachableBelow_of_frontier (member : id ∈ frontier) (below : id < bound) :
    id ∈ reachableBelow arena bound frontier := by
  induction bound generalizing frontier with
  | zero => exact absurd below (Nat.not_lt_zero id)
  | succ last ih =>
      rw [reachableBelow]
      by_cases top : id = last
      · subst top
        simp [member]
      · have lower : id < last := Nat.lt_of_le_of_ne (Nat.le_of_lt_succ below) top
        split
        · exact List.mem_append_left _ (ih (List.mem_append_right _ member) lower)
        · exact ih member lower

theorem child_mem_reachableBelow {child : NodeId}
    (member : id ∈ reachableBelow arena bound frontier)
    (isChild : child ∈ (arena.node id).children) (earlier : child < id) :
    child ∈ reachableBelow arena bound frontier := by
  induction bound generalizing frontier with
  | zero => simp [reachableBelow] at member
  | succ last ih =>
      rw [reachableBelow] at member ⊢
      split at member
      · rename_i present
        rw [if_pos present]
        rcases List.mem_append.mp member with below | top
        · exact List.mem_append_left _ (ih below)
        · rw [List.mem_singleton.mp top] at isChild earlier
          exact List.mem_append_left _
            (mem_reachableBelow_of_frontier (List.mem_append_left _ isChild) earlier)
      · rename_i absent
        rw [if_neg absent]
        exact ih member

theorem reachableBelow_induction {motive : NodeId → Prop} (first : ∀ id ∈ frontier, motive id)
    (step : ∀ id, motive id → ∀ child ∈ (arena.node id).children, motive child)
    (member : id ∈ reachableBelow arena bound frontier) : motive id := by
  induction bound generalizing frontier with
  | zero => simp [reachableBelow] at member
  | succ last ih =>
      rw [reachableBelow] at member
      split at member
      case isTrue present =>
        have own := first last present
        rcases List.mem_append.mp member with below | top
        · apply ih _ below
          intro other isOther
          rcases List.mem_append.mp isOther with isChild | isFirst
          · exact step last own other isChild
          · exact first other isFirst
        · rw [List.mem_singleton.mp top]
          exact own
      case isFalse absent => exact ih first member

end Below

variable {circuit : Circuit} {id : NodeId}

theorem reachable_ascending (circuit : Circuit) : circuit.reachable.Pairwise (· < ·) :=
  reachableBelow_ascending _ _ _

theorem reachable_nodup (circuit : Circuit) : circuit.reachable.Nodup :=
  circuit.reachable_ascending.imp Nat.ne_of_lt

theorem root_reachable (circuit : Circuit) : circuit.root ∈ circuit.reachable :=
  mem_reachableBelow_of_frontier (List.mem_singleton_self _) (Nat.lt_succ_self _)

namespace WellFormed

theorem lt_length (wellFormed : circuit.WellFormed) (reachable : id ∈ circuit.reachable) :
    id < circuit.arena.length :=
  Nat.lt_of_le_of_lt (Nat.le_of_lt_succ (reachableBelow_lt reachable)) wellFormed.root_lt

theorem admits (wellFormed : circuit.WellFormed) (reachable : id ∈ circuit.reachable) :
    circuit.arena.Admits circuit.groupSize id (circuit.node id) :=
  wellFormed.sound id (wellFormed.lt_length reachable)

theorem child_reachable (wellFormed : circuit.WellFormed) (reachable : id ∈ circuit.reachable)
    {child : NodeId} (isChild : child ∈ (circuit.node id).children) :
    child ∈ circuit.reachable :=
  child_mem_reachableBelow reachable isChild
    ((wellFormed.admits reachable).children_earlier child isChild)

theorem reachable_induction (wellFormed : circuit.WellFormed) {motive : NodeId → Prop}
    (root : motive circuit.root)
    (step : ∀ id ∈ circuit.reachable, motive id →
      ∀ child ∈ (circuit.node id).children, motive child)
    (reachable : id ∈ circuit.reachable) : motive id := by
  have both : id ∈ circuit.reachable ∧ motive id := by
    apply reachableBelow_induction (motive := fun id => id ∈ circuit.reachable ∧ motive id) _ _
      reachable
    · intro first isRoot
      rw [List.mem_singleton.mp isRoot]
      exact ⟨circuit.root_reachable, root⟩
    · rintro parent ⟨present, own⟩ child isChild
      exact ⟨wellFormed.child_reachable present isChild, step parent present own child isChild⟩
  exact both.2

end WellFormed

end Circuit
end CircuitPlan
