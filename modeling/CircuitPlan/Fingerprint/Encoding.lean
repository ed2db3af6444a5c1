import CircuitPlan.Single

/-!
# Byte encoding

Values are written without tags: numbers in a fixed number of bytes with the least one first,
sequences after their length, optional values after a byte that tells whether they are there. A
value is written only if each of its numbers fits the bytes meant for it.
-/

namespace CircuitPlan.Encoding

/-- The bytes of a value, none if a number does not fit. -/
abbrev Bytes := Option (List UInt8)

def lowBytes : Nat → Nat → List UInt8
  | 0, _ => []
  | count + 1, n => n.toUInt8 :: lowBytes count (n / 256)

def fixed (count n : Nat) : Bytes := if n < 1 <<< (8 * count) then some (lowBytes count n) else none

def word (n : Nat) : Bytes := fixed 4 n

def long (n : Nat) : Bytes := fixed 8 n

def both (first second : Bytes) : Bytes := do return (← first) ++ (← second)

def each {α : Type} (encode : α → Bytes) : List α → Bytes
  | [] => some []
  | x :: xs => both (encode x) (each encode xs)

def sequence {α : Type} (encode : α → Bytes) (xs : List α) : Bytes :=
  both (long xs.length) (each encode xs)

def optional {α : Type} (encode : α → Bytes) : Option α → Bytes
  | none => some [0]
  | some x => both (some [1]) (encode x)

def text (s : String) : Bytes :=
  both (long s.toByteArray.data.toList.length) (some s.toByteArray.data.toList)

def single (x : Single) : Bytes := word x.bits.toNat

end CircuitPlan.Encoding
