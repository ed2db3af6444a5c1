import CircuitPlan.Circuit.Node
import CircuitPlan.PaddedMatrix

/-!
# Structural errors

What can be wrong with a circuit: a rule that one of its node vectors breaks, or a group size, root
or position that makes no sense.
-/

namespace CircuitPlan

inductive TieBreach
  | itself
  | sourceMissing
  | sourceLater
  | ownParams
  | sourceTied
  | kinds
  | groupSizes
  | groupCounts
  | signatures
  | parameterCounts
  | product
  | fanIns
  | notCopied (tag wanted : Tag)
deriving DecidableEq

def TieBreach.message : TieBreach → String
  | itself => "a node cannot be tied to itself"
  | sourceMissing => "source is not registered"
  | sourceLater => "source must be created before the tied node"
  | ownParams => "tied node vectors read their source's parameters"
  | sourceTied => "source is itself tied; tie to its source instead"
  | kinds => "node kinds differ"
  | groupSizes => "group sizes differ within the tied set"
  | groupCounts => "number of node groups differs"
  | signatures => "distributions have different signatures"
  | parameterCounts => "distributions have different parameter counts"
  | product => "product nodes carry no parameters"
  | fanIns => "sum fan-in differs"
  | notCopied tag wanted => tag.text ++ " nodes cannot be duplicated as " ++ wanted.text ++ "s"

inductive Breach
  | groupSize (expected got : Nat)
  | noGroups
  | paddingVariable
  | missingChild (child : NodeId)
  | laterChild (child : NodeId)
  | arity (expected got : Nat)
  | paramCount (expected got : Nat)
  | noParams (tag : Tag)
  | noChildren (tag : Tag)
  | childKind (tag : Tag) (child : NodeId) (childTag : Tag)
  | childGroups (child : NodeId) (expected got : Nat)
  | commonVariable (left right : NodeId)
  | coverage (declared covered : Scope)
  | repeatedChild (child : NodeId)
  | childScope (child : NodeId) (expected got : Scope)
  | tie (owner : NodeId) (breach : TieBreach)
deriving DecidableEq

def Breach.message (node : NodeId) : Breach → String
  | groupSize expected got => s!"node n{node} has group size {got}, circuit uses {expected}"
  | noGroups => s!"node n{node} must have at least one node group"
  | paddingVariable =>
      s!"node n{node} reads variable {padding}, which is reserved as the padding index"
  | missingChild child => s!"node n{node} references unregistered child n{child}"
  | laterChild child =>
      s!"node n{node} references n{child}, which is not created before it (cycle)"
  | arity expected got =>
      s!"input node n{node} reads {got} variables but its distribution expects {expected}"
  | paramCount expected got =>
      s!"input node n{node} is given {got} parameters but needs {expected}"
  | noParams tag => tag.text ++ s!" node n{node} has no input parameters"
  | noChildren tag => tag.text ++ s!" node n{node} needs at least one child"
  | childKind tag child childTag =>
      tag.text ++ s!" node n{node} cannot take " ++ childTag.text ++ s!" child n{child}"
  | childGroups child expected got =>
      s!"product node n{node} has {expected} node groups but child n{child} has {got}"
  | commonVariable left right =>
      s!"product node n{node}: children n{left} and n{right} have overlapping scopes"
  | coverage declared covered =>
      s!"node n{node} declares scope " ++ declared.text ++ " but its children cover " ++
        covered.text
  | repeatedChild child => s!"node n{node} lists child n{child} more than once"
  | childScope child expected got =>
      s!"sum node n{node} has scope " ++ expected.text ++ s!" but child n{child} has scope " ++
        got.text
  | tie owner breach => s!"node n{node} cannot be tied to n{owner}: " ++ breach.message

inductive StructuralError
  | zeroGroupSize
  | unknownRoot (root : NodeId)
  | unknownNode (node : NodeId)
  | breach (node : NodeId) (rule : Breach)
deriving DecidableEq

def StructuralError.message : StructuralError → String
  | zeroGroupSize => "group size must be positive"
  | unknownRoot root => s!"root n{root} is not registered"
  | unknownNode node => s!"node n{node} is not registered"
  | breach node rule => rule.message node

end CircuitPlan
