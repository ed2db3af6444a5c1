/-!
# Faults

A fault is a broken promise between two stages of planning or between a plan and its executor.
It is not an error of the caller: work stops at once and leaves nothing behind.
-/

namespace CircuitPlan

inductive Fault
  | rowTooLong (length width : Nat)
  | paddingInRow
  | fanInTooWide (fanIn : Nat) (widths : List Nat)
  | overlappingTargets
  | noSlots (node : Nat)
  /-- The tiles of a flow range have no width, so that tiling it never ends. -/
  | endlessTiling
  | indexOutOfRange (index length : Nat)
  | stopOutOfRange (stop length : Nat)
deriving DecidableEq

namespace Fault

def listText (xs : List Nat) : String := "[" ++ ", ".intercalate (xs.map Nat.repr) ++ "]"

def message : Fault → String
  | rowTooLong length width => s!"index row of length {length} exceeds width {width}"
  | paddingInRow => "index row contains the padding sentinel"
  | fanInTooWide fanIn widths =>
      s!"fan-in {fanIn} exceeds every partition width " ++ listText widths
  | overlappingTargets => "fusion jobs write overlapping flow spans"
  | noSlots node => s!"node n{node} has no allocated offsets"
  | endlessTiling => "tiles of width zero never cover a flow range"
  | indexOutOfRange index length =>
      s!"index out of bounds: the len is {length} but the index is {index}"
  | stopOutOfRange stop length =>
      s!"range end index {stop} out of range for slice of length {length}"

end Fault

def require {ε : Type} (condition : Prop) [Decidable condition] (failure : ε) : Except ε Unit :=
  if condition then .ok () else .error failure

theorem require_eq_ok {ε : Type} {condition : Prop} [Decidable condition] {failure : ε} :
    require condition failure = .ok () ↔ condition := by
  unfold require
  split <;> simp_all

end CircuitPlan
