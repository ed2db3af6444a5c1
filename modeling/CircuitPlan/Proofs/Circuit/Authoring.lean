import CircuitPlan.Distribution.Families
import CircuitPlan.Proofs.Circuit.Acceptance

/-!
# Two ways of authoring

An arena can be checked as a whole, or its node vectors can be added one by one. Both ways check
each node vector by the same rules, once with the later ones in sight and once without them, and
differ only in how they report a reference to a later one.
-/

namespace CircuitPlan

def TieBreach.asLast : TieBreach → TieBreach
  | sourceLater => sourceMissing
  | breach => breach

/-- A breach of the node vector at `id` as it is reported when nothing comes after that node
vector: what is stored later is missing then. -/
def Breach.asLast (id : NodeId) : Breach → Breach
  | laterChild child => if id < child then missingChild child else laterChild child
  | tie owner breach => tie owner breach.asLast
  | breach => breach

namespace Arena

/-! ## Checks that do not depend on the length of the arena -/

section Kind

variable {arena other : Arena} {node : Node} {earlier : List NodeId} {child : NodeId}

theorem mapError_checkEach (check : List NodeId → NodeId → Except Breach Unit)
    (g : Breach → Breach) (earlier children : List NodeId) :
    (checkEach check earlier children).mapError g =
      checkEach (fun earlier child => (check earlier child).mapError g) earlier children := by
  induction children generalizing earlier with
  | nil => rfl
  | cons child rest ih => rw [checkEach, checkEach, mapError_bind, ih]

theorem asLast_checkFactor (id : NodeId) :
    (arena.checkFactor node earlier child).mapError (.asLast id) =
      arena.checkFactor node earlier child := by
  simp only [checkFactor, mapError_bind, mapError_require, mapError_forM, Breach.asLast]

theorem asLast_checkTerm (id : NodeId) :
    (arena.checkTerm node earlier child).mapError (.asLast id) =
      arena.checkTerm node earlier child := by
  simp only [checkTerm, mapError_bind, mapError_require, Breach.asLast]

theorem asLast_checkInput (dist : Distribution) (id : NodeId) :
    (checkInput node dist).mapError (.asLast id) = checkInput node dist := by
  simp only [checkInput, mapError_bind, mapError_require, Breach.asLast]
  cases node.params with
  | none => rfl
  | some params => simp only [mapError_require, Breach.asLast]

theorem asLast_checkKind (arena : Arena) (node : Node) (id : NodeId) :
    (arena.checkKind node).mapError (.asLast id) = arena.checkKind node := by
  unfold checkKind
  cases node.kind with
  | input dist => exact asLast_checkInput dist id
  | product =>
      simp only [checkProduct, mapError_bind, mapError_require, mapError_checkEach,
        asLast_checkFactor, Breach.asLast]
  | sum =>
      simp only [checkSum, mapError_bind, mapError_require, mapError_checkEach,
        asLast_checkTerm, Breach.asLast]

theorem asLast_checkShapes (arena : Arena) (origin node : Node) :
    (arena.checkShapes origin node).mapError .asLast = arena.checkShapes origin node := by
  unfold checkShapes
  cases origin.kind <;> cases node.kind
  case input.input => simp only [mapError_bind, mapError_require, TieBreach.asLast]
  case sum.sum => simp only [mapError_require, TieBreach.asLast]
  all_goals rfl

theorem checkEach_congr {check check' : List NodeId → NodeId → Except Breach Unit}
    {known : NodeId → Prop}
    (same : ∀ earlier child, (∀ sibling ∈ earlier, known sibling) → known child →
      check earlier child = check' earlier child)
    (earlier children : List NodeId) (before : ∀ sibling ∈ earlier, known sibling)
    (rest : ∀ child ∈ children, known child) :
    checkEach check earlier children = checkEach check' earlier children := by
  induction children generalizing earlier with
  | nil => rfl
  | cons child others ih =>
      rw [List.forall_mem_cons] at rest
      have longer : ∀ sibling ∈ earlier ++ [child], known sibling := by
        simpa [or_imp, forall_and] using ⟨before, rest.1⟩
      rw [checkEach, checkEach, same earlier child before rest.1, ih _ longer rest.2]

theorem checkFactor_congr (before : ∀ sibling ∈ earlier, arena.node sibling = other.node sibling)
    (here : arena.node child = other.node child) :
    arena.checkFactor node earlier child = other.checkFactor node earlier child := by
  simp only [checkFactor, here]
  refine bind_congr_ok fun _ _ => bind_congr_ok fun _ _ => forM_congr fun sibling member => ?_
  rw [before sibling member]

theorem checkKind_congr
    (same : ∀ child ∈ node.children, arena.node child = other.node child) :
    arena.checkKind node = other.checkKind node := by
  unfold checkKind
  cases node.kind with
  | input dist => rfl
  | product =>
      have covered : arena.covered node.children = other.covered node.children :=
        covered_congr fun child member => by rw [same child member]
      have factors : checkEach (arena.checkFactor node) [] node.children =
          checkEach (other.checkFactor node) [] node.children :=
        checkEach_congr (fun _ _ => checkFactor_congr) [] node.children (by simp) same
      dsimp only
      rw [checkProduct, checkProduct, covered, factors]
  | sum =>
      have terms : checkEach (arena.checkTerm node) [] node.children =
          checkEach (other.checkTerm node) [] node.children := by
        apply checkEach_congr _ [] node.children (by simp) same
        intro earlier child _ here
        rw [checkTerm, checkTerm, here]
      dsimp only
      rw [checkSum, checkSum, terms]

end Kind

/-! ## The last node vector -/

/-- What `arena` and its beginning `short` share: `id` is the last position of `short`, and the
node vectors before it are the same in both and come after their children. -/
structure Shortens (short arena : Arena) (id : NodeId) : Prop where
  last : short.length = id + 1
  bound : id < arena.length
  same : ∀ earlier < id, short.node earlier = arena.node earlier
  ordered : ∀ earlier < id, ∀ child ∈ (arena.node earlier).children, child < earlier

namespace Shortens

variable {short arena : Arena} {id : NodeId} (shortens : short.Shortens arena id)
include shortens

theorem checkReference_eq (child : NodeId) :
    short.checkReference id child = (arena.checkReference id child).mapError (.asLast id) := by
  have bound := shortens.bound
  simp only [checkReference, mapError_bind, mapError_require, Breach.asLast, shortens.last]
  rcases Nat.lt_trichotomy child id with before | rfl | after
  · rw [require_pos (Nat.lt_succ_of_lt before), require_pos (Nat.lt_trans before bound),
      require_pos before, require_pos before]
  · rw [require_pos (Nat.lt_succ_self child), require_pos bound, if_neg (Nat.lt_irrefl child)]
  · have missing := Nat.not_lt.mpr (Nat.succ_le_of_lt after)
    rw [if_pos after, require_neg missing, error_bind]
    by_cases stored : child < arena.length
    · rw [require_pos stored, ok_bind, require_neg (Nat.lt_asymm after)]
    · rw [require_neg stored, error_bind]

theorem fanIn_eq {node : Node} (earlier : ∀ child ∈ node.children, child < id) :
    short.fanIn node = arena.fanIn node :=
  fanIn_congr fun child member => by rw [shortens.same child (earlier child member)]

theorem checkShapes_eq {source : NodeId} {node : Node} (before : source < id)
    (earlier : ∀ child ∈ node.children, child < id) :
    short.checkShapes (arena.node source) node = arena.checkShapes (arena.node source) node := by
  have sourceFanIn : short.fanIn (arena.node source) = arena.fanIn (arena.node source) :=
    shortens.fanIn_eq fun child member =>
      Nat.lt_trans (shortens.ordered source before child member) before
  unfold checkShapes
  rw [sourceFanIn, shortens.fanIn_eq earlier]

theorem checkTie_eq {source : NodeId} {node : Node}
    (earlier : ∀ child ∈ node.children, child < id) :
    short.checkTie id node source = (arena.checkTie id node source).mapError .asLast := by
  simp only [checkTie, mapError_bind, mapError_require, asLast_checkShapes, TieBreach.asLast,
    shortens.last]
  rcases Nat.lt_trichotomy source id with before | rfl | after
  · rw [require_pos (Nat.lt_succ_of_lt before), require_pos (Nat.lt_trans before shortens.bound),
      require_pos before, require_pos before, shortens.same source before,
      shortens.checkShapes_eq before earlier]
  · rw [require_neg (not_not_intro rfl), error_bind, error_bind]
  · have missing := Nat.not_lt.mpr (Nat.succ_le_of_lt after)
    rw [require_pos (Nat.ne_of_gt after), ok_bind, ok_bind, require_neg missing, error_bind]
    by_cases stored : source < arena.length
    · rw [require_pos stored, ok_bind, require_neg (Nat.lt_asymm after), error_bind]
    · rw [require_neg stored, error_bind]

theorem checkRules_eq (groupSize : Nat) (node : Node) :
    short.checkRules groupSize id node =
      (arena.checkRules groupSize id node).mapError (.asLast id) := by
  simp only [checkRules, mapError_bind, mapError_require, mapError_forM, asLast_checkKind,
    ← shortens.checkReference_eq, Breach.asLast]
  refine bind_congr_ok fun _ _ => bind_congr_ok fun _ _ => bind_congr_ok fun _ _ =>
    bind_congr_ok fun _ referenced => ?_
  have earlier : ∀ child ∈ node.children, child < id := by
    intro child member
    have bound : id < short.length := by rw [shortens.last]; exact Nat.lt_succ_self id
    exact (checkReference_eq_ok bound).mp (forM_eq_ok.mp referenced child member)
  rw [checkKind_congr fun child member => shortens.same child (earlier child member)]
  refine bind_congr_ok fun _ _ => bind_congr_ok fun _ _ => ?_
  cases node.tiedTo with
  | none => rfl
  | some source =>
      dsimp only
      rw [shortens.checkTie_eq earlier]
      cases arena.checkTie id node source <;> rfl

end Shortens

/-! ## References to what comes later -/

def RefersLater (arena : Arena) (id : NodeId) (rule : Breach) : Prop :=
  ∃ later, id < later ∧ later < arena.length ∧
    (rule = .laterChild later ∨ rule = .tie later .sourceLater)

section Later

variable {arena : Arena} {id : NodeId} {node : Node}

theorem checkReference_failsOnly (child : NodeId) :
    FailsOnly (fun rule => rule.asLast id ≠ rule → arena.RefersLater id rule)
      (arena.checkReference id child) := by
  refine FailsOnly.bind (.require fun _ changed => absurd rfl changed) fun _ stored => ?_
  refine .require fun _ changed => ?_
  by_cases after : id < child
  · exact ⟨child, after, require_eq_ok.mp stored, .inl rfl⟩
  · exact absurd (if_neg after) changed

theorem checkTie_failsOnly (source : NodeId) :
    FailsOnly (fun breach => breach.asLast ≠ breach →
        breach = .sourceLater ∧ id < source ∧ source < arena.length)
      (arena.checkTie id node source) := by
  refine FailsOnly.bind (.require fun _ changed => absurd rfl changed) fun _ other => ?_
  refine FailsOnly.bind (.require fun _ changed => absurd rfl changed) fun _ stored => ?_
  refine FailsOnly.bind (.require fun notBefore _ => ?_) fun _ _ => ?_
  · have differ : source ≠ id := require_eq_ok.mp other
    exact ⟨rfl, Nat.lt_of_le_of_ne (Nat.not_lt.mp notBefore) differ.symm, require_eq_ok.mp stored⟩
  iterate 5
    refine FailsOnly.bind (.require fun _ changed => absurd rfl changed) fun _ _ => ?_
  exact (FailsOnly.of_mapError_eq (asLast_checkShapes arena _ node)).mono
    fun _ same changed => absurd same changed

theorem checkRules_failsOnly (groupSize : Nat) :
    FailsOnly (fun rule => rule.asLast id ≠ rule → arena.RefersLater id rule)
      (arena.checkRules groupSize id node) := by
  unfold checkRules
  iterate 3
    refine FailsOnly.bind (.require fun _ changed => absurd rfl changed) fun _ _ => ?_
  refine FailsOnly.bind (.forM fun child _ => checkReference_failsOnly child) fun _ _ => ?_
  refine FailsOnly.bind ?_ fun _ _ => ?_
  · exact (FailsOnly.of_mapError_eq (asLast_checkKind arena node id)).mono
      fun _ same changed => absurd same changed
  refine FailsOnly.bind (.require fun _ changed => absurd rfl changed) fun _ _ => ?_
  cases node.tiedTo with
  | none => exact FailsOnly.ok _ ()
  | some source =>
      intro rule failed changed
      obtain ⟨breach, broken, rfl⟩ := mapError_eq_error.mp failed
      have differs : breach.asLast ≠ breach := fun same =>
        changed (congrArg (Breach.tie source) same)
      obtain ⟨rfl, after, stored⟩ := checkTie_failsOnly source breach broken differs
      exact ⟨source, after, stored, .inr rfl⟩

end Later

/-! ## The beginnings of an arena -/

theorem node_take {arena : Arena} {count id : NodeId} (inside : id < count) :
    Arena.node (arena.take count) id = arena.node id := by
  unfold Arena.node
  rw [List.getElem?_take_of_lt inside]

theorem take_succ_eq {arena : Arena} {id : NodeId} (bound : id < arena.length) :
    arena.take (id + 1) = arena.take id ++ [arena.node id] := by
  rw [List.take_succ_eq_append_getElem bound, Arena.node, List.getElem?_eq_getElem bound]
  rfl

theorem shortens_take {arena : Arena} {groupSize : Nat} {id : NodeId} (bound : id < arena.length)
    (passes : Passes (arena.take id) groupSize) : Shortens (arena.take (id + 1)) arena id where
  last := List.length_take_of_le bound
  bound := bound
  same _ before := node_take (Nat.lt_succ_of_lt before)
  ordered earlier before := by
    have inside : earlier < (arena.take id).length := by
      rw [List.length_take_of_le (Nat.le_of_lt bound)]
      exact before
    have admitted := (passes_iff.mp passes).1 earlier inside
    rw [node_take before] at admitted
    exact admitted.children_earlier

end Arena

/-! ## Adding node vectors one by one -/

def StructuralError.asLast : StructuralError → StructuralError
  | breach id rule => breach id (rule.asLast id)
  | error => error

theorem Arena.checkNode_take {arena : Arena} {groupSize : Nat} {id : NodeId}
    (bound : id < arena.length) (passes : Passes (arena.take id) groupSize) :
    checkNode (arena.take (id + 1)) groupSize id (arena.node id) =
      (arena.checkNode groupSize id (arena.node id)).mapError .asLast := by
  rw [checkNode, checkNode, (shortens_take bound passes).checkRules_eq]
  cases arena.checkRules groupSize id (arena.node id) <;> rfl

namespace Builder

def addAll : List Node → Edit Unit
  | [] => return ()
  | node :: rest => do
      let _ ← addNode node
      addAll rest

theorem run_addAll_cons (builder : Builder) (node : Node) (rest : List Node) :
    (addAll (node :: rest)).run builder =
      match builder.check node with
      | .ok () => (addAll rest).run (builder.push node)
      | .error error => .error error builder := by
  rw [addAll, EStateM.run_bind, run_addNode]
  cases builder.check node <;> rfl

theorem run_addAll_append (builder : Builder) (first second : List Node) :
    (addAll (first ++ second)).run builder =
      match (addAll first).run builder with
      | .ok () after => (addAll second).run after
      | .error error after => .error error after := by
  induction first generalizing builder with
  | nil => rfl
  | cons node rest ih =>
      rw [List.cons_append, run_addAll_cons, run_addAll_cons]
      cases builder.check node with
      | ok passed => exact ih (builder.push node)
      | error error => rfl

theorem arena_of_addAll {builder after : Builder} {nodes : List Node}
    (added : (addAll nodes).run builder = .ok () after) :
    after = { builder with arena := builder.arena ++ nodes } := by
  induction nodes generalizing builder with
  | nil =>
      obtain ⟨-, rfl⟩ := EStateM.Result.ok.inj added
      rw [List.append_nil]
  | cons node rest ih =>
      rw [run_addAll_cons] at added
      cases checked : builder.check node with
      | ok passed =>
          rw [checked] at added
          rw [ih added]
          simp [push]
      | error error =>
          rw [checked] at added
          cases added

variable {groupSize : Nat} {arena : Arena} {id : NodeId}

theorem check_take (positive : 0 < groupSize) (bound : id < arena.length)
    (passes : Arena.Passes (arena.take id) groupSize) :
    check ⟨groupSize, arena.take id⟩ (arena.node id) =
      (arena.checkNode groupSize id (arena.node id)).mapError .asLast := by
  have next : next ⟨groupSize, arena.take id⟩ = id := List.length_take_of_le (Nat.le_of_lt bound)
  rw [check, require_pos (Nat.ne_of_gt positive), ok_bind, next]
  dsimp only
  rw [← Arena.take_succ_eq bound, Arena.checkNode_take bound passes]

theorem addAll_take (positive : 0 < groupSize) {count : Nat} (within : count ≤ arena.length)
    (checked : ∀ id < count, arena.checkNode groupSize id (arena.node id) = .ok ()) :
    Arena.Passes (arena.take count) groupSize ∧
      (addAll (arena.take count)).run (empty groupSize) = .ok () ⟨groupSize, arena.take count⟩ := by
  -- Only the beginning that is already known to pass tells where the children of a tie source lie.
  induction count with
  | zero =>
      rw [List.take_zero]
      exact ⟨fun id inside => absurd inside (Nat.not_lt_zero id), rfl⟩
  | succ id ih =>
      have bound : id < arena.length := within
      obtain ⟨passes, added⟩ := ih (Nat.le_of_lt bound) fun earlier before =>
        checked earlier (Nat.lt_succ_of_lt before)
      have passed := checked id (Nat.lt_succ_self id)
      constructor
      · rw [Arena.take_succ_eq bound]
        apply passes.append
        rw [← Arena.take_succ_eq bound, List.length_take_of_le (Nat.le_of_lt bound),
          Arena.checkNode_take bound passes, passed]
        rfl
      · rw [Arena.take_succ_eq bound, run_addAll_append, added]
        dsimp only
        rw [run_addAll_cons, check_take positive bound passes, passed]
        rfl

/-! ## Both ways compared -/

structure FirstRejected (groupSize : Nat) (arena : Arena) (id : NodeId) (rule : Breach) :
    Prop where
  bound : id < arena.length
  earlier_pass : ∀ earlier < id, arena.checkNode groupSize earlier (arena.node earlier) = .ok ()
  rejected : arena.checkNode groupSize id (arena.node id) = .error (.breach id rule)
  earlier_added :
    (addAll (arena.take id)).run (empty groupSize) = .ok () ⟨groupSize, arena.take id⟩
  refused : (addNode (arena.node id)).run ⟨groupSize, arena.take id⟩ =
    .error (.breach id (rule.asLast id)) ⟨groupSize, arena.take id⟩
  reported_alike : rule.asLast id = rule ∨ arena.RefersLater id rule

theorem exists_firstRejected (positive : 0 < groupSize) {root : NodeId}
    (inside : root < arena.length) {error : StructuralError}
    (failed : Circuit.ofArena groupSize arena root = .error error) :
    ∃ id rule, FirstRejected groupSize arena id rule ∧ error = .breach id rule := by
  have entry {id : NodeId} (bound : id < arena.length) :
      (List.zipIdx arena)[id]? = some (arena.node id, id) := by
    rw [List.getElem?_zipIdx, List.getElem?_eq_getElem bound, Arena.node,
      List.getElem?_eq_getElem bound, Nat.zero_add]
    rfl
  rw [Circuit.ofArena, require_pos (Nat.ne_of_gt positive), ok_bind, require_pos inside, ok_bind,
    bind_eq_error] at failed
  obtain checksFailed | ⟨_, _, impossible⟩ := failed
  swap
  · cases impossible
  obtain ⟨id, pair, found, rejected, earlier⟩ := forM_eq_error_iff.mp checksFailed
  have bound : id < arena.length := by
    have within := (List.getElem?_eq_some_iff.mp found).1
    rwa [List.length_zipIdx] at within
  obtain rfl := Option.some.inj ((entry bound).symm.trans found)
  change arena.checkNode groupSize id (arena.node id) = .error error at rejected
  have pass : ∀ before < id, arena.checkNode groupSize before (arena.node before) = .ok () :=
    fun before precedes => earlier before precedes _ (entry (Nat.lt_trans precedes bound))
  obtain ⟨passes, added⟩ := addAll_take positive (Nat.le_of_lt bound) pass
  obtain ⟨rule, broken, rfl⟩ := mapError_eq_error.mp rejected
  refine ⟨id, rule, ⟨bound, pass, rejected, added, ?_, ?_⟩, rfl⟩
  · rw [run_addNode, check_take positive bound passes, rejected]
    rfl
  · by_cases same : rule.asLast id = rule
    · exact .inl same
    · exact .inr (Arena.checkRules_failsOnly groupSize rule broken same)

theorem FirstRejected.addAll_eq {rule : Breach} (first : FirstRejected groupSize arena id rule) :
    (addAll arena).run (empty groupSize) =
      .error (.breach id (rule.asLast id)) ⟨groupSize, arena.take id⟩ := by
  have split : arena = arena.take id ++ arena.node id :: arena.drop (id + 1) := by
    rw [Arena.node, List.getElem?_eq_getElem first.bound, Option.getD_some,
      ← List.drop_eq_getElem_cons first.bound, List.take_append_drop]
  conv_lhs => rw [split, run_addAll_append, first.earlier_added]
  dsimp only
  rw [run_addAll_cons, (addNode_eq_error.mp first.refused).1]

/-- The verdict on an arena is the same in both ways, and so is the node vector it blames. The
reports differ only if that node vector refers to one that is stored later. -/
structure SameVerdict (groupSize : Nat) (arena : Arena) (root : NodeId) : Prop where
  accepted : (∃ circuit, Circuit.ofArena groupSize arena root = .ok circuit) ↔
    root < arena.length ∧ ∃ after, (addAll arena).run (empty groupSize) = .ok () after
  arena_eq : ∀ after, (addAll arena).run (empty groupSize) = .ok () after →
    after = ⟨groupSize, arena⟩
  rejected : root < arena.length → ∀ error, Circuit.ofArena groupSize arena root = .error error →
    ∃ id rule, FirstRejected groupSize arena id rule ∧ error = .breach id rule ∧
      (addAll arena).run (empty groupSize) =
        .error (.breach id (rule.asLast id)) ⟨groupSize, arena.take id⟩

theorem addAll_of_ofArena (positive : 0 < groupSize) {root : NodeId} {circuit : Circuit}
    (accepted : Circuit.ofArena groupSize arena root = .ok circuit) :
    (addAll arena).run (empty groupSize) = .ok () ⟨groupSize, arena⟩ := by
  have passes := (Circuit.ofArena_eq_ok.mp accepted).2.2.1
  have added := (addAll_take positive (Nat.le_refl arena.length) passes).2
  rwa [List.take_length] at added

theorem sameVerdict_ofArena (positive : 0 < groupSize) (arena : Arena) (root : NodeId) :
    SameVerdict groupSize arena root where
  accepted := by
    constructor
    · rintro ⟨circuit, accepted⟩
      exact ⟨(Circuit.ofArena_eq_ok.mp accepted).2.1, _, addAll_of_ofArena positive accepted⟩
    · rintro ⟨inside, after, added⟩
      cases verdict : Circuit.ofArena groupSize arena root with
      | ok circuit => exact ⟨circuit, rfl⟩
      | error error =>
          obtain ⟨id, rule, first, -⟩ := exists_firstRejected positive inside verdict
          rw [first.addAll_eq] at added
          cases added
  arena_eq after added := arena_of_addAll added
  rejected := by
    intro inside error failed
    obtain ⟨id, rule, first, same⟩ := exists_firstRejected positive inside failed
    exact ⟨id, rule, first, same, first.addAll_eq⟩

def crossedArena : Arena :=
  [{ kind := .product, scope := .ofList [0], numGroups := 1, groupSize := 2, children := [1] },
    { kind := .input (.categorical 2), scope := .ofList [0], numGroups := 1, groupSize := 2
      children := [] }]

theorem crossedArena_sameVerdict :
    0 < 2 ∧
      Circuit.ofArena 2 crossedArena 1 = .error (.breach 0 (.laterChild 1)) ∧
      (addAll crossedArena).run (empty 2) = .error (.breach 0 (.missingChild 1)) (empty 2) ∧
      SameVerdict 2 crossedArena 1 :=
  ⟨by decide, rfl, rfl, sameVerdict_ofArena (by decide) crossedArena 1⟩

end Builder
end CircuitPlan
