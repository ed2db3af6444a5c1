import CircuitPlan.Failure
import CircuitPlan.Grouping
import CircuitPlan.Reduction

/-!
# Tiling tie groups

Every tie group with at least two replicas is cut into jobs. Its cardinality is the least power of
two that is not below the number of replicas, and its tiles are so short that a job of that
cardinality reads about one block of flows.
-/

namespace CircuitPlan

namespace ReductionOptions

def tileWidth (options : ReductionOptions) (cardinality : Nat) : Nat :=
  max 1 (options.blockSize / cardinality)

end ReductionOptions

namespace TieGroup

def width (set : TieGroup) : Nat := set.target.size

def numReplicas (set : TieGroup) : Nat := set.flowStarts.length

/-- The least power of two that is not below the number of replicas, for at least two of them. -/
def cardinality (set : TieGroup) : Nat := 1 <<< ((set.numReplicas - 1).log2 + 1)

/-- Cuts `width` flows into tiles of `step` flows, given by start and length; the last one may be
shorter. There is no end to it when the tiles are empty and the width is not. -/
def tiles (width step : Nat) : Option (List (Nat × Nat)) :=
  if width = 0 then some []
  else if step = 0 then none
  else some ((List.range ((width + step - 1) / step)).map fun index =>
    (index * step, min step (width - index * step)))

def tileJob (set : TieGroup) (tile : Nat × Nat) : Job where
  source := set.source
  target := set.target.start + tile.1
  width := tile.2
  numReplicas := set.numReplicas
  replicas := set.flowStarts.map (· + tile.1)

/-- The cardinality and the jobs of a set with at least two replicas. The length of a tile is
kept in 32 bits. -/
def jobs (options : ReductionOptions) (set : TieGroup) : Except Failure (Nat × List Job) := do
  require (set.cardinality ≤ options.maxTied)
    (.error (.tooManyTied set.source set.numReplicas set.cardinality options.maxTied))
  match tiles set.width (options.tileWidth set.cardinality % UInt32.size) with
  | none => .error (.fault .endlessTiling)
  | some tiles => return (set.cardinality, tiles.map set.tileJob)

end TieGroup

namespace Reduction

def bucketOf (options : ReductionOptions) (group : Nat × List (List Job)) :
    Except Fault Bucket :=
  Bucket.ofJobs group.1 (options.tileWidth group.1) group.2.flatten

def ofTies (options : ReductionOptions) (sets : List TieGroup) :
    Except Failure Reduction := do
  let cut ← (sets.filter fun set => 2 ≤ set.numReplicas).mapM (TieGroup.jobs options)
  let buckets ← ((groupByKey cut).mapM (bucketOf options)).mapError .fault
  let reduction : Reduction := ⟨buckets⟩
  let apart ← reduction.writesApart.mapError .fault
  require (apart = true) (.fault .overlappingTargets)
  return reduction

end Reduction
end CircuitPlan
