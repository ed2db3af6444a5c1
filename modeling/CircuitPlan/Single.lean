/-!
# Single-precision numbers

Stored numbers keep all their bits, so that a fingerprint can tell two payloads of NaN apart.
Arithmetic uses core's `Float32`.
-/

namespace CircuitPlan

/-- A single-precision number as it is stored, one bit pattern for each value and for each NaN. -/
structure Single where
  bits : UInt32
deriving DecidableEq

namespace Single

def value (single : Single) : Float32 := Float32.ofBits single.bits

def ofValue (value : Float32) : Single := ⟨value.toBits⟩

end Single

def nearestFloat (count : Nat) : Float32 := count.toUInt64.toFloat32

def larger (x y : Float32) : Float32 :=
  if x.isNaN then y else if y.isNaN then x else if x < y then y else x

def total (xs : List Float32) : Float32 := xs.foldl (· + ·) 0

end CircuitPlan
