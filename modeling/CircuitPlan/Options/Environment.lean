import CircuitPlan.Options
import CircuitPlan.Decimal.Numeral
import CircuitPlan.Text.Blank

/-!
# Options from the environment

Three environment variables override options. A value that is blank or is no number of the
expected kind is passed over.
-/

namespace CircuitPlan.Options

def readWord? (cs : List Char) : Option Nat :=
  let digits := match cs with
    | '+' :: rest => rest
    | rest => rest
  match Decimal.leadingDigits digits with
  | ([], _) => none
  | (found, []) => if Decimal.ofDigits found < UInt64.size then some (Decimal.ofDigits found) else none
  | _ => none

/-- A number without its sign: the names of infinity and NaN in any case, or digits with an
optional point and exponent, at least one of them before or after the point. -/
def readMagnitude? (negative : Bool) (cs : List Char) : Option Single :=
  let sign : UInt32 := if negative then 0x80000000 else 0
  let name := String.ofList (cs.map Char.toLower)
  if name = "inf" ∨ name = "infinity" then some ⟨sign ||| 0x7f800000⟩
  else if name = "nan" then some ⟨sign ||| 0x7fc00000⟩
  else
    let (whole, cs) := Decimal.leadingDigits cs
    let (fraction, cs) := match cs with
      | '.' :: rest => Decimal.leadingDigits rest
      | rest => ([], rest)
    if whole = [] ∧ fraction = [] then none
    else
      match Decimal.readExponent cs with
      | some (exponent, []) =>
          some (Decimal.Numeral.nearestSingle ⟨negative, whole, some fraction, exponent⟩)
      | _ => none

def readSingle? (cs : List Char) : Option Single :=
  match cs with
  | '-' :: rest => readMagnitude? true rest
  | '+' :: rest => readMagnitude? false rest
  | rest => readMagnitude? false rest

structure Overrides where
  tolerance : Option Single
  blockSize : Option Nat
  maxTied : Option Nat

def Overrides.ofEnvironment (lookup : String → Option String) : Overrides :=
  let value (name : String) : Option (List Char) :=
    (lookup name).map fun text => Text.trim text.toList
  { tolerance := (value "CIRCUIT_RS_LAYER_SPARSITY_TOL").bind readSingle?
    blockSize := (value "CIRCUIT_RS_FUSION_BLOCK_SIZE").bind readWord?
    maxTied := (value "CIRCUIT_RS_MAX_TIED_GROUPS").bind readWord? }

def withOverrides (options : Options) (overrides : Overrides) : Options :=
  { options with
    tolerance := overrides.tolerance.getD options.tolerance
    reduction :=
      { blockSize := overrides.blockSize.getD options.reduction.blockSize
        maxTied := overrides.maxTied.getD options.reduction.maxTied } }

end CircuitPlan.Options
