import CircuitPlan.Slot.Allocator
import CircuitPlan.Options

/-!
# Failures of a plan

Planning ends with an error when the circuit or the options ask for too much. A fault would show
that two of its stages disagree.
-/

namespace CircuitPlan

inductive PlanError
  | invalidOptions (error : OptionsError)
  | spaceFull (overflow : Overflow)
  | tooManyTied (source count cardinality cap : Nat)
deriving DecidableEq

def PlanError.message : PlanError → String
  | invalidOptions error => error.message
  | spaceFull overflow => overflow.message
  | tooManyTied source count cardinality cap =>
      s!"parameters of node n{source} are tied to {count} node vectors, " ++
        s!"a fused cardinality of {cardinality} above the limit of {cap}; " ++
        "tie fewer copies to each source or split them over several sources"

inductive Failure
  | error (error : PlanError)
  | fault (fault : Fault)
deriving DecidableEq

end CircuitPlan
