import CircuitPlan.Ascending

/-!
# Scopes

The finite set of variables that a node vector reads.
-/

namespace CircuitPlan

structure Scope where
  vars : List Nat
  ascending : vars.Pairwise (· < ·)
deriving DecidableEq

namespace Scope

def ofList (vars : List Nat) : Scope := ⟨Ascending.ofList vars, Ascending.ofList_ascending vars⟩

def empty : Scope := ofList []

def size (scope : Scope) : Nat := scope.vars.length

def isEmpty (scope : Scope) : Bool := scope.vars.isEmpty

def contains (scope : Scope) (var : Nat) : Bool :=
  scope.vars[Ascending.bisect (· < var) scope.vars]? == some var

def union (left right : Scope) : Scope := ofList (left.vars ++ right.vars)

/-- Walks two ascending lists side by side until they share an entry or one of them ends. -/
def walkApart : List Nat → List Nat → Bool
  | [], _ => true
  | _, [] => true
  | x :: xs, y :: ys =>
      if x < y then walkApart xs (y :: ys)
      else if y < x then walkApart (x :: xs) ys
      else false
termination_by xs ys => xs.length + ys.length

def disjoint (left right : Scope) : Bool := walkApart left.vars right.vars

def text (scope : Scope) : String :=
  "\x7b" ++ ", ".intercalate (scope.vars.map Nat.repr) ++ "\x7d"

end Scope
end CircuitPlan
