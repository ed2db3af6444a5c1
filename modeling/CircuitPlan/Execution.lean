import CircuitPlan.Arithmetic
import CircuitPlan.Buffer

/-!
# Outcomes of an execution

An executor works on buffers of its caller. It stops at the first offset or length that does not
fit, and the buffer then holds what was written before.
-/

namespace CircuitPlan

inductive BufferName
  | nodeValue
  | sumParameter
  | parameterFlow
deriving DecidableEq

def BufferName.text : BufferName → String
  | nodeValue => "node value"
  | sumParameter => "sum parameter"
  | parameterFlow => "parameter flow"

inductive ExecutionError
  | tooShort (buffer : BufferName) (required actual : Nat)
  | outside (buffer : BufferName) (offset span length : Nat)
  | noParamIndex
deriving DecidableEq

def ExecutionError.message : ExecutionError → String
  | tooShort buffer required actual =>
      buffer.text ++ s!" buffer holds {actual} values, plan requires {required}"
  | outside buffer offset span length =>
      s!"offset {offset} with span {span} lies outside the " ++ buffer.text ++
        s!" buffer of length {length}"
  | noParamIndex =>
      "backend execution failure: sum partition is missing its parameter index"

structure Outcome (F : Type) where
  buffer : Array F
  error : Option ExecutionError

def checkLength (buffer : BufferName) (required actual : Nat) : Except ExecutionError Unit :=
  require (required ≤ actual) (.tooShort buffer required actual)

def checkBounds (buffer : BufferName) (length span offset : Nat) : Except ExecutionError Unit :=
  require (offset + span ≤ length) (.outside buffer offset span length)

end CircuitPlan
