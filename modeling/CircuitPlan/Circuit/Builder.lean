import CircuitPlan.Circuit

/-!
# Building circuits

A builder holds an arena under construction. Each call adds one node vector, which is checked in its
place and taken out again if a check fails, or replaces the parameters of an input. The next
position is the length of the arena, which is taken to be below `2 ^ 32`.
-/

namespace CircuitPlan

structure Builder where
  groupSize : Nat
  arena : Arena

/-- A call to a builder. Whether it succeeds or fails, it leaves a builder behind. -/
abbrev Builder.Edit (α : Type) := EStateM StructuralError Builder α

namespace Builder

def empty (groupSize : Nat) : Builder := ⟨groupSize, []⟩

def next (builder : Builder) : NodeId := builder.arena.length

def node? (builder : Builder) (id : NodeId) : Option Node := builder.arena[id]?

def push (builder : Builder) (node : Node) : Builder :=
  { builder with arena := builder.arena ++ [node] }

def pop (builder : Builder) : Builder := { builder with arena := builder.arena.dropLast }

def addNode (node : Node) : Edit NodeId := do
  let id := (← get).next
  ofExcept (require ((← get).groupSize ≠ 0) .zeroGroupSize)
  modify (·.push node)
  let builder ← get
  match builder.arena.checkNode builder.groupSize id node with
  | .ok () => return id
  | .error error =>
      modify pop
      throw error

def addDraft (draft : Builder → Except StructuralError Node) : Edit NodeId := do
  addNode (← ofExcept (draft (← get)))

def existing (builder : Builder) (id : NodeId) : Except StructuralError Node :=
  (builder.node? id).elim (.error (.breach builder.next (.missingChild id))) .ok

def draftInputs (scope : Scope) (numGroups : Nat) (dist : Distribution) (builder : Builder) :
    Except StructuralError Node :=
  .ok { kind := .input dist, scope, numGroups, groupSize := builder.groupSize, children := [] }

def draftProduct (children : List NodeId) (builder : Builder) : Except StructuralError Node :=
  match children with
  | [] => .error (.breach builder.next (.noChildren .product))
  | first :: _ => do
      let numGroups := (← builder.existing first).numGroups
      let factors ← children.mapM builder.existing
      let scope := factors.foldl (fun scope factor => scope.union factor.scope) .empty
      return { kind := .product, scope, numGroups, groupSize := builder.groupSize, children }

def draftSum (children : List NodeId) (numGroups : Nat) (builder : Builder) :
    Except StructuralError Node :=
  match children with
  | [] => .error (.breach builder.next (.noChildren .sum))
  | first :: _ => do
      let scope := (← builder.existing first).scope
      return { kind := .sum, scope, numGroups, groupSize := builder.groupSize, children }

def tieOf (model : Node) (id : NodeId) (tie : Bool) : Option NodeId :=
  if tie then some (model.tiedTo.getD id) else none

def draftInputsCopy (id : NodeId) (scope : Option Scope) (tie : Bool) (builder : Builder) :
    Except StructuralError Node := do
  let model ← builder.existing id
  match model.kind with
  | .input dist =>
      return {
        kind := .input dist
        scope := scope.getD model.scope
        numGroups := model.numGroups
        groupSize := builder.groupSize
        children := []
        tiedTo := tieOf model id tie }
  | kind => .error (.breach builder.next (.tie id (.notCopied kind.tag .input)))

/-- A copy of a sum, over other children if they are given. A tied copy uses the parameters that
the model uses. -/
def draftSumCopy (id : NodeId) (children : Option (List NodeId)) (tie : Bool) (builder : Builder) :
    Except StructuralError Node := do
  let model ← builder.existing id
  require (model.tag = .sum) (.breach builder.next (.tie id (.notCopied model.tag .sum)))
  let children := children.getD model.children
  let scope ← match children with
    | [] => .ok model.scope
    | first :: _ => (builder.existing first).map (·.scope)
  return {
    kind := .sum
    scope
    numGroups := model.numGroups
    groupSize := builder.groupSize
    children
    tiedTo := tieOf model id tie }

def addInputs (scope : Scope) (numGroups : Nat) (dist : Distribution) : Edit NodeId :=
  addDraft (draftInputs scope numGroups dist)

def addProduct (children : List NodeId) : Edit NodeId := addDraft (draftProduct children)

def addSum (children : List NodeId) (numGroups : Nat) : Edit NodeId :=
  addDraft (draftSum children numGroups)

def copyInputs (id : NodeId) (scope : Option Scope) (tie : Bool) : Edit NodeId :=
  addDraft (draftInputsCopy id scope tie)

def copySum (id : NodeId) (children : Option (List NodeId)) (tie : Bool) : Edit NodeId :=
  addDraft (draftSumCopy id children tie)

def fanIn? (builder : Builder) (id : NodeId) : Option Nat := do
  let node ← builder.node? id
  if node.tag = .sum then return builder.arena.fanIn node else none

def supplyParams (id : NodeId) (params : List Float32) : Edit Unit := do
  let builder ← get
  let target ← ofExcept ((builder.node? id).elim (.error (.unknownNode id)) .ok)
  let ownerId := target.tiedTo.getD id
  let owner := builder.arena.node ownerId
  match owner.kind with
  | .input dist =>
      let expected := owner.numNodes * dist.numParameters
      ofExcept (require (params.length = expected)
        (.breach ownerId (.paramCount expected params.length)))
      set { builder with arena := builder.arena.set ownerId (owner.withParams params) }
  | kind => throw (.breach ownerId (.noParams kind.tag))

def finish (builder : Builder) (root : NodeId) : Except StructuralError Circuit := do
  require (builder.groupSize ≠ 0) .zeroGroupSize
  require (root < builder.arena.length) (.unknownRoot root)
  return ⟨builder.groupSize, builder.arena, root⟩

end Builder

inductive Operation
  | addInputs (scope : Scope) (numGroups : Nat) (dist : Distribution)
  | addProduct (children : List NodeId)
  | addSum (children : List NodeId) (numGroups : Nat)
  | copyInputs (id : NodeId) (scope : Option Scope) (tie : Bool)
  | copySum (id : NodeId) (children : Option (List NodeId)) (tie : Bool)
  | addNode (node : Node)
  | supplyParams (id : NodeId) (params : List Float32)

namespace Operation

/-- The call that an operation stands for. It returns the position of the node vector that it added,
if it adds one. -/
def edit : Operation → Builder.Edit (Option NodeId)
  | addInputs scope numGroups dist => return some (← Builder.addInputs scope numGroups dist)
  | addProduct children => return some (← Builder.addProduct children)
  | addSum children numGroups => return some (← Builder.addSum children numGroups)
  | copyInputs id scope tie => return some (← Builder.copyInputs id scope tie)
  | copySum id children tie => return some (← Builder.copySum id children tie)
  | addNode node => return some (← Builder.addNode node)
  | supplyParams id params => do
      Builder.supplyParams id params
      return none

def run (operation : Operation) (builder : Builder) :
    Except StructuralError (Option NodeId) × Builder :=
  match operation.edit.run builder with
  | .ok answer after => (.ok answer, after)
  | .error error after => (.error error, after)

end Operation

def Builder.runAll (builder : Builder) (operations : List Operation) : Builder :=
  operations.foldl (fun builder operation => (operation.run builder).2) builder

end CircuitPlan
