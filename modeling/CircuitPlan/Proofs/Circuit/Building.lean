import CircuitPlan.Distribution.Families
import CircuitPlan.Proofs.Circuit.Acceptance

namespace CircuitPlan

namespace Builder

structure Consistent (builder : Builder) : Prop where
  accepted : ∀ root < builder.arena.length,
    Circuit.ofArena builder.groupSize builder.arena root =
      .ok ⟨builder.groupSize, builder.arena, root⟩
  tied : ∀ id < builder.arena.length, ∀ source, (builder.arena.node id).tiedTo = some source →
    (builder.arena.node source).tag = (builder.arena.node id).tag ∧
      builder.arena.TieRules id (builder.arena.node id) source

theorem consistent_of_passes {builder : Builder} (positive : 0 < builder.groupSize)
    (passes : builder.arena.Passes builder.groupSize) : builder.Consistent where
  accepted root bound := Circuit.ofArena_eq_ok.mpr ⟨positive, bound, passes, rfl⟩
  tied id bound source tied := by
    have rules := ((Arena.passes_iff.mp passes).1 id bound).tie_rules source tied
    exact ⟨Arena.tag_eq_of_sameShapes rules.shapes, rules⟩

theorem consistent_runAll {groupSize : Nat} (positive : 0 < groupSize)
    (operations : List Operation) (operation : Operation) :
    let builder := (empty groupSize).runAll operations
    builder.groupSize = groupSize ∧ builder.Consistent ∧
      builder.Step operation (operation.run builder).1 (operation.run builder).2 := by
  intro builder
  obtain ⟨groupSize_eq, passes⟩ := Circuit.passes_of_runAll groupSize operations
  refine ⟨groupSize_eq, ?_, step_run builder operation⟩
  apply consistent_of_passes
  · rw [groupSize_eq]
    exact positive
  · rw [groupSize_eq]
    exact passes

def tiedInputs : List Operation :=
  [.addInputs (.ofList [0]) 1 (.categorical 2), .addProduct [0, 0],
    .copyInputs 0 (some (.ofList [1])) true]

theorem tiedInputs_consistent :
    0 < 2 ∧ ((empty 2).runAll tiedInputs).arena.length = 2 ∧
      (((empty 2).runAll tiedInputs).arena.node 1).tiedTo = some 0 ∧
      let builder := (empty 2).runAll tiedInputs
      let operation := Operation.supplyParams 1 [0, 1, 1, 0]
      builder.groupSize = 2 ∧ builder.Consistent ∧
        builder.Step operation (operation.run builder).1 (operation.run builder).2 :=
  ⟨by decide, by decide +kernel, by decide +kernel,
    consistent_runAll (by decide) tiedInputs (.supplyParams 1 [0, 1, 1, 0])⟩

end Builder
end CircuitPlan
