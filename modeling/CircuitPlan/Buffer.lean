import CircuitPlan.Fault

/-!
# Buffers

Reading and writing runs of numbers. Reads and scattered writes beyond the end are faults.
-/

namespace CircuitPlan.Buffer

variable {F : Type}

def read (buffer : Array F) (offset : Nat) : Except Fault F :=
  (buffer[offset]?).elim (.error (.indexOutOfRange offset buffer.size)) .ok

def readRun (buffer : Array F) (start width : Nat) : Except Fault (List F) :=
  if start + width ≤ buffer.size then .ok (buffer.extract start (start + width)).toList
  else .error (.stopOutOfRange (start + width) buffer.size)

def write (buffer : Array F) (start : Nat) (run : List F) : Array F :=
  (run.zipIdx start).foldl (fun buffer (number, offset) => buffer.setIfInBounds offset number)
    buffer

def writeAll (buffer : Array F) (runs : List (Nat × List F)) : Array F :=
  runs.foldl (fun buffer (start, run) => write buffer start run) buffer

/-- Writes runs into the slice of each. A run that ends beyond the buffer is a fault, and a fault
leaves no buffer behind, so it does not matter which runs are written before it. -/
def scatter (buffer : Array F) (runs : List (Nat × List F)) : Except Fault (Array F) := do
  runs.forM fun (start, run) =>
    require (start + run.length ≤ buffer.size) (.stopOutOfRange (start + run.length) buffer.size)
  return writeAll buffer runs

end CircuitPlan.Buffer
