import Mathlib.Algebra.GroupWithZero.Nat
import Mathlib.Logic.Relation
import CircuitPlan.Proofs.Layer.Widths

namespace CircuitPlan.Widths

def widthOf (widths : List Nat) (fanIn : Nat) : Except Fault Nat := do
  return widths.getD (← place widths fanIn) 0

def paddedSlots (fanIns widths : List Nat) : Except Fault Nat := do
  let gaps ← fanIns.mapM fun fanIn => do return (← widthOf widths fanIn) - fanIn
  return gaps.sum

def addedSlots (amounts widths : List Nat) (index : Nat) : Nat :=
  amounts.getD index 0 * (widths.getD (index + 1) 0 - widths.getD index 0)

section Cost

variable {fanIns widths amounts places : List Nat} {fanIn width index position slots : Nat}

end Cost

/-- One merge: the partition `index` is left out, and none could be left out for less padding, or
for the same padding at a smaller index. Amounts of padding are compared through `reading`. -/
inductive MergeStep (reading : Nat → Nat) (fanIns widths after : List Nat) : Prop
  | merge {amounts : List Nat} {index slots : Nat} (inside : index + 1 < widths.length)
      (removed : after = widths.eraseIdx index) (counted : counts fanIns widths = .ok amounts)
      (padded : paddedSlots fanIns widths = .ok slots)
      (raised : paddedSlots fanIns after = .ok (slots + addedSlots amounts widths index))
      (least : ∀ other, other + 1 < widths.length → ∃ added,
        paddedSlots fanIns (widths.eraseIdx other) = .ok (slots + added) ∧
        reading (addedSlots amounts widths index) ≤ reading added ∧
        (other < index → reading (addedSlots amounts widths index) < reading added))

section Merges

variable {reading : Nat → Nat} {fanIns widths after merged amounts : List Nat} {times other : Nat}

theorem MergeStep.sublist (step : MergeStep reading fanIns widths after) :
    after.Sublist widths := by
  obtain ⟨-, rfl, -, -, -, -⟩ := step
  exact List.eraseIdx_sublist widths _

theorem MergeStep.length_eq (step : MergeStep reading fanIns widths after) :
    after.length + 1 = widths.length := by
  obtain ⟨inside, rfl, -, -, -, -⟩ := step
  have shorter := List.length_eraseIdx_of_lt (Nat.lt_of_succ_lt inside)
  omega

end Merges

end CircuitPlan.Widths
