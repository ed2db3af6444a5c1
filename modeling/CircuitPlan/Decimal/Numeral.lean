import CircuitPlan.Single

/-!
# Decimal numerals

The digits of a number as they are written, and the numbers they stand for: the nearest
single-precision number, and the double-precision number made of one rounded product.
-/

namespace CircuitPlan.Decimal

structure Numeral where
  negative : Bool
  whole : List Nat
  fraction : Option (List Nat)
  exponent : Option Int
deriving DecidableEq

def ofDigits (digits : List Nat) : Nat := digits.foldl (fun n digit => 10 * n + digit) 0

def leadingDigits (cs : List Char) : List Nat × List Char :=
  ((cs.takeWhile Char.isDigit).map fun c => c.toNat - '0'.toNat, cs.dropWhile Char.isDigit)

def readExponent (cs : List Char) : Option (Option Int × List Char) :=
  match cs with
  | [] => some (none, [])
  | c :: rest =>
      if c = 'e' ∨ c = 'E' then
        let (negative, rest) := match rest with
          | '-' :: rest => (true, rest)
          | '+' :: rest => (false, rest)
          | rest => (false, rest)
        match leadingDigits rest with
        | ([], _) => none
        | (digits, rest) =>
            let size : Int := ofDigits digits
            some (some (if negative then -size else size), rest)
      else some (none, c :: rest)

namespace Numeral

def significand (numeral : Numeral) : Nat := ofDigits (numeral.whole ++ numeral.fraction.getD [])

def scale (numeral : Numeral) : Int :=
  numeral.exponent.getD 0 - ((numeral.fraction.getD []).length : Int)

/-- The single-precision number nearest to the numeral. Numbers with no digit above `10^-60` or
with a digit above `10^60` round to zero and to infinity whatever their digits are. -/
def nearestSingle (numeral : Numeral) : Single :=
  let digits := (Nat.repr numeral.significand).length
  let magnitude : Float32 :=
    if numeral.significand = 0 then 0
    else if numeral.scale + digits < -60 then 0
    else if 60 < numeral.scale + digits then Float32.ofBits 0x7f800000
    else Float32.ofScientific numeral.significand (numeral.scale < 0) numeral.scale.natAbs
  ⟨if numeral.negative then magnitude.toBits ||| 0x80000000 else magnitude.toBits⟩

def fillWord (start : Nat) : List Nat → Nat × List Nat
  | [] => (start, [])
  | digit :: rest =>
      if 10 * start + digit < UInt64.size then fillWord (10 * start + digit) rest
      else (start, digit :: rest)

/-- A 64-bit significand times a power of ten in double precision: one product or one quotient for
powers up to 308, where a product may not overflow, and quotients in steps of `10^308` below. -/
def scaleDouble (significand : Nat) (power : Int) : Option Float :=
  let start := significand.toUInt64.toFloat
  let tenTo (k : Nat) : Float := Float.ofScientific 1 false k
  if 308 < power then if significand = 0 then some 0 else none
  else if 0 ≤ power then
    let product := start * tenTo power.natAbs
    if product.isInf then none else some product
  else if -308 ≤ power then some (start / tenTo power.natAbs)
  else if -616 ≤ power then some (start / tenTo 308 / tenTo (power + 308).natAbs)
  else some 0

/-- The numeral in double precision. Digits beyond the 64-bit significand only move the point,
those after the point have no effect; a number beyond the greatest one is refused. -/
def double? (numeral : Numeral) : Option Float := do
  let (whole, lost) := fillWord 0 numeral.whole
  let fraction := numeral.fraction.getD []
  let (significand, unread) := fillWord whole fraction
  let point : Int := (lost.length : Int) - ((fraction.length - unread.length : Nat) : Int)
  let exponent := numeral.exponent.getD 0
  let magnitude ←
    if exponent.natAbs < 0x80000000 then scaleDouble significand (point + exponent)
    else if 0 < exponent ∧ significand ≠ 0 then none
    else some 0
  return if numeral.negative then -magnitude else magnitude

def word? (numeral : Numeral) : Option Nat :=
  if numeral.negative ∨ numeral.fraction ≠ none ∨ numeral.exponent ≠ none then none
  else if ofDigits numeral.whole < UInt64.size then some (ofDigits numeral.whole)
  else none

/-- The numeral in single precision. An integer that fits a 64-bit word is rounded once; all else
is rounded to double precision first. -/
def single? (numeral : Numeral) : Option Single :=
  let size := ofDigits numeral.whole
  let isInteger := numeral.fraction.isNone && numeral.exponent.isNone
  if isInteger && !numeral.negative && size < UInt64.size then some (.ofValue (nearestFloat size))
  else if isInteger && numeral.negative && 0 < size && size ≤ 0x8000000000000000 then
    some (.ofValue (-nearestFloat size))
  else numeral.double?.map fun value => .ofValue value.toFloat32

end Numeral
end CircuitPlan.Decimal
