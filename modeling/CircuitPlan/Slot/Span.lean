/-!
# Spans

Half-open ranges of slots inside one offset space.
-/

namespace CircuitPlan

structure Span where
  start : Nat
  stop : Nat
deriving DecidableEq, Repr

namespace Span

def size (span : Span) : Nat := span.stop - span.start

def isEmpty (span : Span) : Bool := span.start == span.stop

def contains (span : Span) (offset : Nat) : Bool := span.start ≤ offset && offset < span.stop

def overlaps (left right : Span) : Bool := left.start < right.stop && right.start < left.stop

def order (left right : Span) : Ordering :=
  (compare left.start right.start).then (compare left.stop right.stop)

def precedes (left right : Span) : Bool := left.order right != .gt

def text (span : Span) : String := s!"[{span.start}, {span.stop})"

end Span
end CircuitPlan
