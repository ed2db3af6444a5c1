import CircuitPlan.Options
import CircuitPlan.Json.Reader

/-!
# Options as JSON documents

A record of options is an object, whose missing fields take their defaults and whose unknown
fields are skipped, or an array of its first fields in order.
-/

namespace CircuitPlan

namespace Json

def fields? (members : List (List Nat × Json)) : Option (List (String × Json)) :=
  members.mapM fun (name, value) => (string? name).map (·, value)

def field? {α : Type} (fields : List (String × Json)) (name : String) (default : α)
    (read : Json → Option α) : Option α :=
  match fields.filter fun field => field.1 == name with
  | [] => some default
  | [field] => read field.2
  | _ => none

def word? : Json → Option Nat
  | number numeral => numeral.word?
  | _ => none

def single? : Json → Option Single
  | number numeral => numeral.single?
  | _ => none

def optionalWord? : Json → Option (Option Nat)
  | null => some none
  | value => value.word?.map some

end Json

def ReductionOptions.ofJson? : Json → Option ReductionOptions
  | .object members => do
      let default : ReductionOptions := {}
      let fields ← Json.fields? members
      let blockSize ← Json.field? fields "block_size" default.blockSize Json.word?
      let maxTied ← Json.field? fields "max_tied_groups" default.maxTied Json.word?
      return { blockSize, maxTied }
  | .array [] => some {}
  | .array [blockSize] => do return { blockSize := ← blockSize.word? }
  | .array [blockSize, maxTied] => do
      return { blockSize := ← blockSize.word?, maxTied := ← maxTied.word? }
  | _ => none

namespace Options

def ofJson? : Json → Option Options
  | .object members => do
      let default : Options := {}
      let fields ← Json.fields? members
      let tolerance ← Json.field? fields "layer_sparsity_tol" default.tolerance Json.single?
      let maxPartitions ←
        Json.field? fields "max_num_partitions" default.maxPartitions Json.optionalWord?
      let reduction ← Json.field? fields "fusion" default.reduction ReductionOptions.ofJson?
      return { tolerance, maxPartitions, reduction }
  | .array [] => some {}
  | .array [tolerance] => do return { tolerance := ← tolerance.single? }
  | .array [tolerance, maxPartitions] => do
      return { tolerance := ← tolerance.single?, maxPartitions := ← maxPartitions.optionalWord? }
  | .array [tolerance, maxPartitions, reduction] => do
      return { tolerance := ← tolerance.single?, maxPartitions := ← maxPartitions.optionalWord?,
               reduction := ← ReductionOptions.ofJson? reduction }
  | _ => none

inductive DocumentError
  | malformed
  | invalid (error : OptionsError)
deriving DecidableEq

def DocumentError.message : DocumentError → String
  | malformed => "failed to parse compile options"
  | invalid error => error.message

def ofText (text : String) : Except DocumentError Options := do
  let options ← ((Json.ofText? text).bind ofJson?).elim (.error .malformed) .ok
  options.validate.mapError .invalid
  return options

end Options
end CircuitPlan
