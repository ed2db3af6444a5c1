import CircuitPlan.PaddedMatrix
import CircuitPlan.Slot.Span

/-!
# Handing out slots

Each buffer of a plan is an offset space of its own. An allocator hands out the slots of each space
one after the other, and stops before the padding entry.
-/

namespace CircuitPlan

inductive Space
  | nodeValues
  | sumParams
  | sumFlows
  | inputParams (layer : Nat)
  | inputFlows (layer : Nat)
  | inputMetadata (layer : Nat)
deriving DecidableEq

def Space.text : Space → String
  | nodeValues => "node values"
  | sumParams => "sum parameters"
  | sumFlows => "sum parameter flows"
  | inputParams layer => s!"input layer {layer} parameters"
  | inputFlows layer => s!"input layer {layer} parameter flows"
  | inputMetadata layer => s!"input layer {layer} metadata"

structure Overflow where
  space : Space
  node : Nat
  width : Nat
deriving DecidableEq

def Overflow.message (overflow : Overflow) : String :=
  overflow.space.text ++ s!" cannot hold {overflow.width} more slots for node n{overflow.node}"

structure Allocator where
  used : Space → Nat

namespace Allocator

def empty : Allocator := ⟨fun _ => 0⟩

def advance (allocator : Allocator) (space : Space) (stop : Nat) : Allocator :=
  ⟨fun other => if other = space then stop else allocator.used other⟩

@[simp] theorem used_advance (allocator : Allocator) (space other : Space) (stop : Nat) :
    (allocator.advance space stop).used other =
      if other = space then stop else allocator.used other := rfl

/-- Hands out the next slots of a space. The width and the end of the range have to fit in 32 bits,
and the end also has to come before the padding entry. -/
def bump (space : Space) (node width : Nat) : EStateM Overflow Allocator Span := do
  let overflow : Overflow := ⟨space, node, width⟩
  ofExcept (require (width < UInt32.size) overflow)
  let start := (← get).used space
  ofExcept (require (start + width < UInt32.size) overflow)
  ofExcept (require (start + width < padding) overflow)
  modify (·.advance space (start + width))
  return ⟨start, start + width⟩

/-- The range that is handed out with the allocator after it, for work that stops at the first
overflow. -/
def allocate (allocator : Allocator) (space : Space) (node width : Nat) :
    Except Overflow (Span × Allocator) :=
  match (bump space node width).run allocator with
  | .ok span after => .ok (span, after)
  | .error overflow _ => .error overflow

end Allocator
end CircuitPlan
