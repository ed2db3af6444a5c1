import CircuitPlan.Circuit.Error

/-!
# Structural rules

The rules that a node vector has to satisfy in its arena. Children and tie sources come earlier,
products have children with disjoint scopes, sums have products over their own scope as children,
and tied node vectors agree on everything that shapes their parameters. Of several broken rules the
first one in the order of the checks is reported.
-/

namespace CircuitPlan

namespace Arena

def checkReference (arena : Arena) (id child : NodeId) : Except Breach Unit := do
  require (child < arena.length) (.missingChild child)
  require (child < id) (.laterChild child)

def checkInput (node : Node) (dist : Distribution) : Except Breach Unit := do
  require (node.scope.size = dist.numVars) (.arity dist.numVars node.scope.size)
  match node.params with
  | none => .ok ()
  | some params =>
      let expected := node.numNodes * dist.numParameters
      require (params.length = expected) (.paramCount expected params.length)

def checkFactor (arena : Arena) (node : Node) (earlier : List NodeId) (child : NodeId) :
    Except Breach Unit := do
  let factor := arena.node child
  require (factor.tag ≠ .product) (.childKind .product child .product)
  require (factor.numGroups = node.numGroups)
    (.childGroups child node.numGroups factor.numGroups)
  earlier.forM fun other =>
    require ((arena.node other).scope.disjoint factor.scope) (.commonVariable other child)

def checkEach (check : List NodeId → NodeId → Except Breach Unit) :
    List NodeId → List NodeId → Except Breach Unit
  | _, [] => .ok ()
  | earlier, child :: rest => do
      check earlier child
      checkEach check (earlier ++ [child]) rest

def covered (arena : Arena) (children : List NodeId) : Scope :=
  children.foldl (fun scope child => scope.union (arena.node child).scope) .empty

def checkProduct (arena : Arena) (node : Node) : Except Breach Unit := do
  require (node.children ≠ []) (.noChildren .product)
  checkEach (arena.checkFactor node) [] node.children
  let covered := arena.covered node.children
  require (covered = node.scope) (.coverage node.scope covered)

def checkTerm (arena : Arena) (node : Node) (earlier : List NodeId) (child : NodeId) :
    Except Breach Unit := do
  let term := arena.node child
  require (child ∉ earlier) (.repeatedChild child)
  require (term.tag = .product) (.childKind .sum child term.tag)
  require (term.scope = node.scope) (.childScope child node.scope term.scope)

def checkSum (arena : Arena) (node : Node) : Except Breach Unit := do
  require (node.children ≠ []) (.noChildren .sum)
  checkEach (arena.checkTerm node) [] node.children

def checkShapes (arena : Arena) (source node : Node) : Except TieBreach Unit :=
  match source.kind, node.kind with
  | .input origin, .input dist => do
      require (origin.signature = dist.signature) .signatures
      require (origin.numParameters = dist.numParameters ∧ origin.numFlows = dist.numFlows)
        .parameterCounts
  | .product, .product => .error .product
  | .sum, .sum => require (arena.fanIn source = arena.fanIn node) .fanIns
  | _, _ => .error .kinds

/-- The source of a tie is an earlier node vector with parameters of its own and of one shape
with those of the tied node vector. -/
def checkTie (arena : Arena) (id : NodeId) (node : Node) (source : NodeId) :
    Except TieBreach Unit := do
  let origin := arena.node source
  require (source ≠ id) .itself
  require (source < arena.length) .sourceMissing
  require (source < id) .sourceLater
  require (node.params = none) .ownParams
  require (origin.tiedTo = none) .sourceTied
  require (origin.tag = node.tag) .kinds
  require (origin.groupSize = node.groupSize) .groupSizes
  require (origin.numGroups = node.numGroups) .groupCounts
  arena.checkShapes origin node

def checkKind (arena : Arena) (node : Node) : Except Breach Unit :=
  match node.kind with
  | .input dist => checkInput node dist
  | .product => arena.checkProduct node
  | .sum => arena.checkSum node

def checkRules (arena : Arena) (groupSize : Nat) (id : NodeId) (node : Node) :
    Except Breach Unit := do
  require (node.groupSize = groupSize) (.groupSize groupSize node.groupSize)
  require (node.numGroups ≠ 0) .noGroups
  require (padding ∉ node.scope.vars) .paddingVariable
  node.children.forM (arena.checkReference id)
  arena.checkKind node
  require (node.params = none ∨ node.tag = .input) (.noParams node.tag)
  match node.tiedTo with
  | none => .ok ()
  | some source => (arena.checkTie id node source).mapError (.tie source)

def checkNode (arena : Arena) (groupSize : Nat) (id : NodeId) (node : Node) :
    Except StructuralError Unit :=
  (arena.checkRules groupSize id node).mapError (.breach id)

end Arena
end CircuitPlan
