import CircuitPlan.Decimal.Numeral

/-!
# JSON values

Numbers keep their written form and texts the code points of their characters, which may include
unpaired surrogates written as escapes.
-/

namespace CircuitPlan

inductive Json
  | null
  | bool (value : Bool)
  | number (numeral : Decimal.Numeral)
  | text (points : List Nat)
  | array (items : List Json)
  | object (members : List (List Nat × Json))

namespace Json

def isSurrogate (point : Nat) : Bool := 0xd800 ≤ point && point < 0xe000

def string? (points : List Nat) : Option String :=
  if points.any isSurrogate then none else some (String.ofList (points.map Char.ofNat))

end Json
end CircuitPlan
