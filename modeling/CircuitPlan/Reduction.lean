import CircuitPlan.PaddedMatrix
import CircuitPlan.Slot.Table

/-!
# Reductions

A reduction says how the flows of tied node vectors are summed. A job reads runs of flows of one
length, the replicas, and overwrites a target of that length with their sum. Jobs are kept in
buckets by cardinality, a power of two that bounds the number of replicas, and a bucket is stored
column by column.
-/

namespace CircuitPlan

structure Job where
  source : NodeId
  target : Nat
  width : Nat
  numReplicas : Nat
  /-- The starts of the runs to sum, with padding in between or at the end. -/
  replicas : List Nat
deriving DecidableEq

namespace Job

def valid (job : Job) : List Nat := job.replicas.filter (· != padding)

def span (job : Job) : Span := ⟨job.target, job.target + job.width⟩

end Job

structure Bucket where
  cardinality : Nat
  /-- The length of the runs; the last tile of a range may be shorter. -/
  tileWidth : Nat
  sources : List NodeId
  targets : List Nat
  widths : List Nat
  numReplicas : List Nat
  replicas : PaddedMatrix
deriving DecidableEq

namespace Bucket

def numJobs (bucket : Bucket) : Nat := bucket.targets.length

def entry {α : Type} (column : List α) (index : Nat) : Except Fault α :=
  (column[index]?).elim (.error (.indexOutOfRange index column.length)) .ok

def readJob (bucket : Bucket) (index : Nat) : Except Fault Job := do
  return {
    source := ← entry bucket.sources index
    target := ← entry bucket.targets index
    width := ← entry bucket.widths index
    numReplicas := ← entry bucket.numReplicas index
    replicas := ← bucket.replicas.readRow index }

def job (bucket : Bucket) (index : Nat) : Job where
  source := bucket.sources.getD index 0
  target := bucket.targets.getD index 0
  width := bucket.widths.getD index 0
  numReplicas := bucket.numReplicas.getD index 0
  replicas := bucket.replicas.row index

def jobs (bucket : Bucket) : List Job := (List.range bucket.numJobs).map bucket.job

def ofJobs (cardinality tileWidth : Nat) (jobs : List Job) : Except Fault Bucket := do
  let replicas ← PaddedMatrix.ofRows (jobs.map (·.replicas)) cardinality
  return {
    cardinality
    tileWidth
    sources := jobs.map (·.source)
    targets := jobs.map (·.target)
    widths := jobs.map (·.width)
    numReplicas := jobs.map (·.numReplicas)
    replicas }

end Bucket

structure Reduction where
  buckets : List Bucket
deriving DecidableEq

namespace Reduction

def isEmpty (reduction : Reduction) : Bool := reduction.buckets.isEmpty

def readJobs (reduction : Reduction) : List (Except Fault Job) :=
  reduction.buckets.flatMap fun bucket => (List.range bucket.numJobs).map bucket.readJob

def jobs (reduction : Reduction) : List Job := reduction.buckets.flatMap (·.jobs)

def numJobs (reduction : Reduction) : Nat := (reduction.buckets.map (·.numJobs)).foldl (· + ·) 0

def requiredLength (reduction : Reduction) : Except Fault Nat := do
  let jobs ← reduction.readJobs.mapM id
  return (jobs.flatMap fun job =>
    (job.target :: job.valid).map fun start => start + job.width).foldl max 0

def neighboursApart : List Span → Bool
  | first :: second :: rest => first.stop ≤ second.start && neighboursApart (second :: rest)
  | _ => true

def spansApart (spans : List Span) : Bool :=
  neighboursApart (spans.mergeSort Span.precedes)

/-- Whether no two jobs write a common offset: the sorted spans are compared with their
neighbours. -/
def writesApart (reduction : Reduction) : Except Fault Bool := do
  let jobs ← reduction.readJobs.mapM id
  return spansApart (jobs.map Job.span)

end Reduction
end CircuitPlan
