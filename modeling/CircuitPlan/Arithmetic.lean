import CircuitPlan.Single

/-!
# Arithmetic of the executors

Executors are written over any type with the operations below. No law is assumed, so what they
compute is fixed by the order in which they apply the operations.
-/

namespace CircuitPlan

class Arithmetic (F : Type) where
  zero : F
  negInfinity : F
  add : F → F → F
  sub : F → F → F
  div : F → F → F
  max : F → F → F
  log : F → F
  exp : F → F
  isNegInfinity : F → Bool

namespace Arithmetic

def sum {F : Type} [Arithmetic F] (terms : List F) : F := terms.foldl add zero

/-- The logarithm of the sum of the exponentials of a list, taken relative to the largest term;
a list without a term above `negInfinity` gives `negInfinity`. -/
def logSumExp {F : Type} [Arithmetic F] (terms : List F) : F :=
  let largest := terms.foldl max negInfinity
  if isNegInfinity largest then largest
  else add largest (log (sum (terms.map fun term => exp (sub term largest))))

end Arithmetic

instance : Arithmetic Float32 where
  zero := 0
  negInfinity := Float32.ofBits 0xff800000
  add := (· + ·)
  sub := (· - ·)
  div := (· / ·)
  max := larger
  log := Float32.log
  exp := Float32.exp
  isNegInfinity x := x == Float32.ofBits 0xff800000

end CircuitPlan
