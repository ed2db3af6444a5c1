import CircuitPlan.Single

/-!
# Shortest decimal text

Writes a single-precision number with the fewest digits that still determine it, always in
positional notation.

All values involved, the bounds of the interval that rounds to a number among them, are multiples
of `2^-151`, and every decimal grid needed is a multiple of `10^-45`. So everything is measured in
units of `2^-151 * 10^-45`, where it is a natural number.
-/

namespace CircuitPlan.Decimal

/-- A positive number as a significand and a binary exponent counted from `-149`. -/
structure Binary where
  significand : Nat
  exponent : Nat

def Binary.ofBits (bits : Nat) : Binary :=
  let field := bits / 0x800000 % 0x100
  let fraction := bits % 0x800000
  if field = 0 then ⟨fraction, 0⟩ else ⟨0x800000 + fraction, field - 1⟩

def quarter (number : Binary) : Nat := Nat.pow 10 45 <<< number.exponent

def gridStep (power : Nat) : Nat := Nat.pow 10 power <<< 151

/-- Whether a value in units rounds to `number`. The interval reaches half a place up and down,
but only a quarter down from a power of two, and holds its ends when the significand is even. -/
def rounds (number : Binary) (units : Nat) : Bool :=
  let down := if number.significand = 0x800000 ∧ 0 < number.exponent then 1 else 2
  let low := (4 * number.significand - down) * quarter number
  let high := (4 * number.significand + 2) * quarter number
  if number.significand % 2 = 0 then low ≤ units && units ≤ high else low < units && units < high

/-- The neighbour of `number` on a grid that rounds to it, the nearer one if both do. -/
def neighbour? (number : Binary) (power : Nat) : Option Nat :=
  let exact := 4 * number.significand * quarter number
  let step := gridStep power
  let below := exact / step
  match rounds number (below * step), rounds number ((below + 1) * step) with
  | true, true => some (if 2 * (exact - below * step) < step then below else below + 1)
  | true, false => some below
  | false, true => some (below + 1)
  | false, false => none

def shortest (number : Binary) : Nat × Nat :=
  ((List.range 84).findSome? fun index =>
    (neighbour? number (83 - index)).map fun digits => (digits, 83 - index)).getD (0, 45)

def positional (digits power : Nat) : String :=
  let text := (Nat.repr digits).toList
  let places := 45 - power
  if 45 ≤ power then String.ofList (text ++ List.replicate (power - 45) '0')
  else if places < text.length then
    String.ofList (text.take (text.length - places)) ++ "." ++
      String.ofList (text.drop (text.length - places))
  else "0." ++ String.ofList (List.replicate (places - text.length) '0' ++ text)

end CircuitPlan.Decimal

namespace CircuitPlan

def Single.text (single : Single) : String :=
  let magnitude := single.bits.toNat % 0x80000000
  let sign := if single.bits.toNat < 0x80000000 then "" else "-"
  if 0x7f800000 < magnitude then "NaN"
  else if magnitude = 0x7f800000 then sign ++ "inf"
  else if magnitude = 0 then sign ++ "0"
  else
    let (digits, power) := Decimal.shortest (Decimal.Binary.ofBits magnitude)
    sign ++ Decimal.positional digits power

end CircuitPlan
