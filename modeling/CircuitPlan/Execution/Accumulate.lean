import CircuitPlan.Execution
import CircuitPlan.Reduction

/-!
# Accumulating tied flows

Runs a reduction on a flow buffer. All jobs are read and their offsets checked before the first job
runs. The jobs of a bucket are all computed from the buffer before the bucket, and are then written.
-/

namespace CircuitPlan

namespace Job

variable {F : Type} [Arithmetic F]

def check (length : Nat) (job : Job) : Except ExecutionError Unit :=
  (job.target :: job.valid).forM (checkBounds .parameterFlow length job.width)

def reduce (flows : Array F) (job : Job) : Except Fault (List F) :=
  job.valid.foldlM (fun sums start => do
    return List.zipWith Arithmetic.add sums (← Buffer.readRun flows start job.width))
    (List.replicate job.width Arithmetic.zero)

end Job

namespace Execution

variable {F : Type} [Arithmetic F]

def runBucket (flows : Array F) (bucket : Bucket) : Except Fault (Array F) := do
  let sums ← bucket.jobs.mapM fun job => do return (job.target, ← job.reduce flows)
  Buffer.scatter flows sums

/-- Checks the offsets of each job before the next one is read. -/
def checkJobs (length : Nat) : List (Except Fault Job) → Except Fault (Except ExecutionError Unit)
  | [] => .ok (.ok ())
  | read :: rest => do
      match (← read).check length with
      | .error error => return .error error
      | .ok () => checkJobs length rest

def accumulate (reduction : Reduction) (flows : Array F) : Except Fault (Outcome F) := do
  match ← checkJobs flows.size reduction.readJobs with
  | .error error => return ⟨flows, some error⟩
  | .ok () => return ⟨← reduction.buckets.foldlM runBucket flows, none⟩

end Execution
end CircuitPlan
