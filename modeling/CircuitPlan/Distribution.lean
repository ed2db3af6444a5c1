import CircuitPlan.Single
import CircuitPlan.WordSource

/-!
# Distributions of input nodes

All that a circuit knows of a distribution: how many variables, parameters and parameter flows a
scalar node has, which metadata a node vector carries, and how parameters are drawn and made valid.
-/

namespace CircuitPlan

structure Distribution where
  signature : String
  numVars : Nat
  numParameters : Nat
  numFlows : Nat
  metadata : List Single
  initial : Nat → Float32 → WordSource → List Float32 × WordSource
  normalize : List Float32 → List Float32
  /-- Parameters are made valid one by one, so none is added or lost. -/
  length_normalize : ∀ params, (normalize params).length = params.length := by
    intro params
    rfl

end CircuitPlan
