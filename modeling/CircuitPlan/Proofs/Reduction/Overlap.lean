import CircuitPlan.Proofs.Reduction.Completion

namespace CircuitPlan.Reduction

variable {options : ReductionOptions} {sets : List TieGroup}

def Overlapping (sets : List TieGroup) : Prop :=
  ∃ (first second : Nat) (left right : TieGroup), first < second ∧
    sets[first]? = some left ∧ sets[second]? = some right ∧
      2 ≤ left.numReplicas ∧ 2 ≤ right.numReplicas ∧
        ∃ offset, left.target.contains offset = true ∧ right.target.contains offset = true

theorem overlapping_iff : Overlapping sets ↔ ¬ (shared sets).Pairwise TieGroup.Clear := by
  rw [shared, List.pairwise_filter, List.pairwise_iff_getElem]
  simp only [decide_eq_true_iff, TieGroup.Clear]
  push Not
  constructor
  · rintro ⟨first, second, left, right, before, isLeft, isRight, several, alsoSeveral, meet⟩
    obtain ⟨inside, rfl⟩ := List.getElem?_eq_some_iff.mp isLeft
    obtain ⟨alsoInside, rfl⟩ := List.getElem?_eq_some_iff.mp isRight
    exact ⟨first, second, inside, alsoInside, before, several, alsoSeveral, meet⟩
  · rintro ⟨first, second, inside, alsoInside, before, several, alsoSeveral, meet⟩
    exact ⟨first, second, _, _, before, List.getElem?_eq_getElem inside,
      List.getElem?_eq_getElem alsoInside, several, alsoSeveral, meet⟩

section

variable (small : options.blockSize < UInt32.size) (placed : Placed (shared sets))
  (few : ∀ set ∈ shared sets, set.cardinality ≤ options.maxTied)
include small placed few

theorem ofTies_eq_require : ∃ (reduction : Reduction) (answer : Bool),
    (answer = true ↔ ¬ Overlapping sets) ∧
      ofTies options sets =
        (require (answer = true) (.fault .overlappingTargets) >>= fun _ => pure reduction) := by
  have cutOk : (shared sets).mapM (TieGroup.jobs options) =
      .ok ((shared sets).map (TieGroup.cut options)) :=
    mapM_ok fun set isShared => TieGroup.jobs_eq small (few set isShared)
  obtain ⟨buckets, bucketsOk⟩ := exists_buckets small placed
  obtain ⟨answer, compared, isApart⟩ := writesApart_of_buckets small bucketsOk
  refine ⟨⟨buckets⟩, answer, ?_, ?_⟩
  · rw [isApart, overlapping_iff, not_not]
  · rw [ofTies, ← shared, cutOk, ok_bind, bucketsOk, Except.mapError, ok_bind]
    dsimp only
    rw [compared, Except.mapError, ok_bind]

end

/-- Comparing neighbours decides whether jobs overlap, and so tie groups are stopped exactly when
their targets do. -/
structure DetectsOverlap (options : ReductionOptions) (sets : List TieGroup) : Prop where
  compared : ∀ reduction : Reduction, reduction.Compared
  stops : ofTies options sets = .error (.fault .overlappingTargets) ↔ Overlapping sets
  passes : (∃ reduction, ofTies options sets = .ok reduction) ↔ ¬ Overlapping sets

theorem detectsOverlap (small : options.blockSize < UInt32.size) (placed : Placed (shared sets))
    (few : ∀ set ∈ shared sets, set.cardinality ≤ options.maxTied) :
    DetectsOverlap options sets := by
  obtain ⟨reduction, answer, isClear, result⟩ := ofTies_eq_require small placed few
  cases answer with
  | true =>
      have clear : ¬ Overlapping sets := isClear.mp rfl
      have success : ofTies options sets = .ok reduction := result
      exact ⟨compared, by simp [success, clear], by simp [success, clear]⟩
  | false =>
      have meet : Overlapping sets := by simpa using isClear
      have stopped : ofTies options sets = .error (.fault .overlappingTargets) := result
      exact ⟨compared, by simp [stopped, meet], by simp [stopped, meet]⟩

def crossing : List TieGroup :=
  [{ source := 0, params := ⟨0, 5⟩, target := ⟨0, 5⟩, members := [0, 1], flowStarts := [0, 8] },
    { source := 2, params := ⟨5, 6⟩, target := ⟨3, 4⟩, members := [2], flowStarts := [3] },
    { source := 3, params := ⟨6, 8⟩, target := ⟨4, 6⟩, members := [3, 4, 5],
      flowStarts := [13, 15, 17] }]

theorem crossing_detected : Placed (shared crossing) ∧
    (∀ set ∈ shared crossing, set.cardinality ≤ 2048) ∧
      ofTies {} crossing = .error (.fault .overlappingTargets) := by
  have placed : Placed (shared crossing) := by
    unfold Placed
    decide
  have few : ∀ set ∈ shared crossing, set.cardinality ≤ 2048 := by decide
  refine ⟨placed, few, ((detectsOverlap (by decide) placed few).stops).mpr ?_⟩
  exact ⟨0, 2, _, _, by decide, rfl, rfl, by decide, by decide, 4, by decide, by decide⟩

end CircuitPlan.Reduction
