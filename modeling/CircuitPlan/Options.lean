import CircuitPlan.Decimal.Shortest
import CircuitPlan.Fault

/-!
# Options of a plan

How far apart the fan-ins of one partition may lie, how many partitions a layer may have, and how
tied parameter flows are cut into jobs.
-/

namespace CircuitPlan

structure ReductionOptions where
  /-- Flows that one job reads; a tile of a bucket of cardinality `G` has `blockSize / G` flows. -/
  blockSize : Nat := 2048
  maxTied : Nat := 2048
deriving DecidableEq

structure Options where
  /-- The relative gap between fan-ins below which two node groups share a partition. -/
  tolerance : Single := ⟨0x3e800000⟩
  maxPartitions : Option Nat := none
  reduction : ReductionOptions := {}
deriving DecidableEq

inductive OptionsError
  | toleranceOutOfRange (tolerance : Single)
  | noPartitions
  | noBlock
  | noTiedGroups
deriving DecidableEq

namespace OptionsError

def reason : OptionsError → String
  | toleranceOutOfRange tolerance =>
      "layer_sparsity_tol must be within [0, 1], got " ++ tolerance.text
  | noPartitions => "max_num_partitions must be positive"
  | noBlock => "fusion block_size must be positive"
  | noTiedGroups => "fusion max_tied_groups must be positive"

def message (error : OptionsError) : String := "invalid compile options: " ++ error.reason

end OptionsError

def Options.validate (options : Options) : Except OptionsError Unit := do
  let tolerance := options.tolerance.value
  require (0 ≤ tolerance ∧ tolerance ≤ 1) (.toleranceOutOfRange options.tolerance)
  require (options.maxPartitions ≠ some 0) .noPartitions
  require (options.reduction.blockSize ≠ 0) .noBlock
  require (options.reduction.maxTied ≠ 0) .noTiedGroups

end CircuitPlan
