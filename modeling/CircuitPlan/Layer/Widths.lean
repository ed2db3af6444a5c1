import CircuitPlan.Ascending
import CircuitPlan.Fault
import CircuitPlan.Single

/-!
# Partitions of a layer

Rows of similar fan-in share a partition, whose width is the greatest fan-in it takes. Wide
partitions are few and hold more padding. A tolerance bounds the gap between fan-ins of one
partition, and a cap bounds the number of partitions.

Fan-ins are words of 64 bits. Costs and totals are computed as words, so they wrap around when they
do not fit.
-/

namespace CircuitPlan.Widths

/-- Whether a partition of this width takes rows of a smaller fan-in: the gap is below the
tolerated share of the width, all in single precision. -/
def absorbs (tolerance : Float32) (width fanIn : Nat) : Bool :=
  nearestFloat (width - fanIn) < tolerance * nearestFloat width

def openWidths (absorbs : Nat → Nat → Bool) : Option Nat → List Nat → List Nat
  | _, [] => []
  | none, fanIn :: rest => fanIn :: openWidths absorbs (some fanIn) rest
  | some width, fanIn :: rest =>
      if absorbs width fanIn then openWidths absorbs (some width) rest
      else fanIn :: openWidths absorbs (some fanIn) rest

def uncapped (absorbs : Nat → Nat → Bool) (fanIns : List Nat) : List Nat :=
  (openWidths absorbs none (Ascending.ofList fanIns).reverse).reverse

def place (widths : List Nat) (fanIn : Nat) : Except Fault Nat :=
  let index := Ascending.bisect (· < fanIn) widths
  if index < widths.length then .ok index else .error (.fanInTooWide fanIn widths)

def counts (fanIns widths : List Nat) : Except Fault (List Nat) := do
  let places ← fanIns.mapM (place widths)
  return (List.range widths.length).map places.count

/-- The cost of moving the rows of partition `index` into the next one: the padding that this adds,
as a word. -/
def mergeCost (counts widths : List Nat) (index : Nat) : Nat :=
  counts.getD index 0 * (widths.getD (index + 1) 0 - widths.getD index 0) % UInt64.size

def cheapest (counts widths : List Nat) : Nat :=
  let costs := (List.range (widths.length - 1)).map (mergeCost counts widths)
  costs.idxOf (costs.min?.getD 0)

def merge (fanIns : List Nat) : Nat → List Nat → Except Fault (List Nat)
  | 0, widths => .ok widths
  | times + 1, widths => do
      let counts ← counts fanIns widths
      merge fanIns times (widths.eraseIdx (cheapest counts widths))

def choose (fanIns : List Nat) (tolerance : Float32) (cap : Option Nat) :
    Except Fault (List Nat) :=
  let opened := uncapped (absorbs tolerance) fanIns
  match cap with
  | none => .ok opened
  | some cap => merge fanIns (opened.length - max cap 1) opened

def paddingShare (fanIns widths : List Nat) : Except Fault Float32 := do
  let taken ← fanIns.mapM fun fanIn => do return widths.getD (← place widths fanIn) 0
  let slots := taken.foldl (· + ·) 0 % UInt64.size
  let useful := fanIns.foldl (· + ·) 0 % UInt64.size
  if slots = 0 then return 0
  else return nearestFloat ((slots + (UInt64.size - useful)) % UInt64.size) / nearestFloat slots

end CircuitPlan.Widths
