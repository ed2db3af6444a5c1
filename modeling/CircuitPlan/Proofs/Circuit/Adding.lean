import CircuitPlan.Proofs.Circuit.Leaves

namespace CircuitPlan

namespace Arena

variable {arena : Arena} {groupSize numGroups : Nat} {added node : Node}

theorem admits_append (sound : arena.Sound groupSize) :
    Admits (arena ++ [added]) groupSize arena.length node ↔
      arena.Admits groupSize arena.length node := by
  constructor
  · intro admitted
    apply admitted.congr
    · intro earlier before
      rw [node_append_left before]
    · intro earlier before
      rw [node_append_left before]
      exact (sound earlier before).children_earlier
  · intro admitted
    apply admitted.congr
    · intro earlier before
      rw [node_append_left before]
    · intro earlier before
      exact (sound earlier before).children_earlier

structure Factors (arena : Arena) (children : List NodeId) : Prop where
  nonempty : children ≠ []
  registered : ∀ child ∈ children, child < arena.length
  kinds : ∀ child ∈ children, (arena.node child).tag ≠ .product
  groups : ∀ left ∈ children, ∀ right ∈ children,
    (arena.node left).numGroups = (arena.node right).numGroups
  apart : children.Pairwise fun left right =>
    ∀ var ∈ (arena.node left).scope.vars, var ∉ (arena.node right).scope.vars

structure Terms (arena : Arena) (children : List NodeId) : Prop where
  nonempty : children ≠ []
  registered : ∀ child ∈ children, child < arena.length
  kinds : ∀ child ∈ children, (arena.node child).tag = .product
  scopes : ∀ left ∈ children, ∀ right ∈ children,
    (arena.node left).scope = (arena.node right).scope
  distinct : children.Nodup

structure IsProduct (arena : Arena) (children : List NodeId) (node : Node) : Prop where
  kind_eq : node.kind = .product
  children_eq : node.children = children
  numGroups_eq : ∀ child ∈ children, node.numGroups = (arena.node child).numGroups
  mem_scope : ∀ var, var ∈ node.scope.vars ↔
    ∃ child ∈ children, var ∈ (arena.node child).scope.vars

structure IsSum (arena : Arena) (children : List NodeId) (numGroups : Nat) (node : Node) :
    Prop where
  kind_eq : node.kind = .sum
  children_eq : node.children = children
  numGroups_eq : node.numGroups = numGroups
  scope_eq : ∀ child ∈ children, node.scope = (arena.node child).scope

def productOver (arena : Arena) (groupSize : Nat) (first : NodeId) (rest : List NodeId) : Node :=
  { kind := .product
    scope := arena.covered (first :: rest)
    numGroups := (arena.node first).numGroups
    groupSize
    children := first :: rest }

def sumOver (arena : Arena) (groupSize numGroups : Nat) (first : NodeId) (rest : List NodeId) :
    Node :=
  { kind := .sum
    scope := (arena.node first).scope
    numGroups
    groupSize
    children := first :: rest }

variable {first : NodeId} {rest : List NodeId}

theorem Factors.isProduct (factors : arena.Factors (first :: rest)) :
    arena.IsProduct (first :: rest) (arena.productOver groupSize first rest) where
  kind_eq := rfl
  children_eq := rfl
  numGroups_eq := factors.groups first List.mem_cons_self
  mem_scope _ := mem_covered

theorem Terms.isSum (terms : arena.Terms (first :: rest)) :
    arena.IsSum (first :: rest) numGroups (arena.sumOver groupSize numGroups first rest) where
  kind_eq := rfl
  children_eq := rfl
  numGroups_eq := rfl
  scope_eq := terms.scopes first List.mem_cons_self

theorem KindRules.factors (rules : arena.KindRules node) (kind : node.kind = .product)
    (registered : ∀ child ∈ node.children, child < arena.length) :
    arena.Factors node.children := by
  obtain ⟨nonempty, each, apart, -⟩ := rules.of_product kind
  refine ⟨nonempty, registered, fun child isChild => (each child isChild).1, ?_,
    apart.imp Scope.disjoint_iff.mp⟩
  intro left isLeft right isRight
  exact (each left isLeft).2.trans (each right isRight).2.symm

theorem KindRules.terms (rules : arena.KindRules node) (kind : node.kind = .sum)
    (registered : ∀ child ∈ node.children, child < arena.length) :
    arena.Terms node.children := by
  obtain ⟨nonempty, each, distinct⟩ := rules.of_sum kind
  refine ⟨nonempty, registered, fun child isChild => (each child isChild).1, ?_, distinct⟩
  intro left isLeft right isRight
  exact (each left isLeft).2.trans (each right isRight).2.symm

theorem admits_productOver (sound : arena.Sound groupSize) :
    arena.Admits groupSize arena.length (arena.productOver groupSize first rest) ↔
      arena.Factors (first :: rest) := by
  constructor
  · intro admitted
    exact admitted.kind_rules.factors rfl admitted.children_earlier
  · intro factors
    exact {
      groupSize_eq := rfl
      numGroups_pos := (sound first (factors.registered first List.mem_cons_self)).numGroups_pos
      scope_free := by
        intro member
        obtain ⟨child, isChild, member⟩ := mem_covered.mp member
        exact (sound child (factors.registered child isChild)).scope_free member
      children_earlier := factors.registered
      kind_rules := by
        refine ⟨factors.nonempty, ?_, factors.apart.imp Scope.disjoint_iff.mpr, rfl⟩
        intro child isChild
        exact ⟨factors.kinds child isChild, factors.groups child isChild first List.mem_cons_self⟩
      tie_rules := nofun }

theorem admits_sumOver (sound : arena.Sound groupSize) :
    arena.Admits groupSize arena.length (arena.sumOver groupSize numGroups first rest) ↔
      arena.Terms (first :: rest) ∧ 0 < numGroups := by
  constructor
  · intro admitted
    exact ⟨admitted.kind_rules.terms rfl admitted.children_earlier, admitted.numGroups_pos⟩
  · rintro ⟨terms, positive⟩
    exact {
      groupSize_eq := rfl
      numGroups_pos := positive
      scope_free := (sound first (terms.registered first List.mem_cons_self)).scope_free
      children_earlier := terms.registered
      kind_rules := by
        refine ⟨terms.nonempty, ?_, terms.distinct⟩
        intro child isChild
        exact ⟨terms.kinds child isChild, terms.scopes child isChild first List.mem_cons_self⟩
      tie_rules := nofun }

end Arena

namespace Builder

variable {builder : Builder} {id first : NodeId} {rest children : List NodeId} {numGroups : Nat}
  {node : Node} {added : NodeId} {after : Builder}

/-! ## What a builder holds -/

/-- The rules that hold in a builder at any point of a run. A builder that was made with group
size zero stays empty. -/
structure Sound (builder : Builder) : Prop where
  positive : ∀ id < builder.arena.length, 0 < builder.groupSize
  rules : builder.arena.Sound builder.groupSize

theorem positive_run (operation : Operation)
    (positive : ∀ id < builder.arena.length, 0 < builder.groupSize) :
    ∀ id < (operation.run builder).2.arena.length, 0 < (operation.run builder).2.groupSize := by
  rw [(step_run builder operation).groupSize_eq]
  by_cases adds : operation.Adds
  · rcases run_of_adds builder adds with ⟨error, ran⟩ | ⟨node, -, checked, -⟩
    · rw [ran]
      exact positive
    · exact fun _ _ => (check_eq_ok.mp checked).1
  · have step := step_run builder operation
    generalize operation.run builder = result at step
    obtain ⟨answer, after⟩ := result
    cases step with
    | failed error => exact positive
    | added adding node checked => exact absurd adding adds
    | @supplied target bound dist kind params count => exact fun _ _ => positive target bound

theorem positive_runAll (operations : List Operation)
    (positive : ∀ id < builder.arena.length, 0 < builder.groupSize) :
    ∀ id < (builder.runAll operations).arena.length, 0 < (builder.runAll operations).groupSize := by
  induction operations generalizing builder with
  | nil => exact positive
  | cons operation rest ih => exact ih (positive_run operation positive)

theorem sound_runAll (groupSize : Nat) (operations : List Operation) :
    ((empty groupSize).runAll operations).Sound where
  positive := positive_runAll operations fun _ inside => absurd inside (Nat.not_lt_zero _)
  rules := by
    obtain ⟨groupSize_eq, passes⟩ := Circuit.passes_of_runAll groupSize operations
    rw [groupSize_eq]
    exact (Arena.passes_iff.mp passes).1

/-! ## One operation -/

theorem existing_eq_ok : builder.existing id = .ok node ↔
    id < builder.arena.length ∧ builder.arena.node id = node := by
  rw [existing, elim_eq_ok, node?, Arena.node]
  constructor
  · intro found
    rw [found]
    exact ⟨(List.getElem?_eq_some_iff.mp found).1, rfl⟩
  · rintro ⟨bound, rfl⟩
    rw [List.getElem?_eq_getElem bound]
    rfl

theorem Sound.addNode_eq_ok (sound : builder.Sound) :
    (addNode node).run builder = .ok added after ↔ 0 < builder.groupSize ∧
      (builder.arena.Admits builder.groupSize builder.arena.length node ∧ node.ParamsFit) ∧
      added = builder.next ∧ after = builder.push node := by
  have checks : Arena.checkNode (builder.arena ++ [node]) builder.groupSize builder.next node =
      .ok () ↔ builder.arena.Admits builder.groupSize builder.arena.length node ∧
        node.ParamsFit := by
    rw [Arena.checkNode_eq_ok (by simp [next]), next, Arena.admits_append sound.rules]
  rw [Builder.addNode_eq_ok, check_eq_ok, checks, and_assoc]

theorem mapM_existing_eq_ok {factors : List Node} : children.mapM builder.existing = .ok factors ↔
    (∀ child ∈ children, child < builder.arena.length) ∧
      children.map builder.arena.node = factors := by
  have traversed (registered : ∀ child ∈ children, child < builder.arena.length) :
      children.mapM builder.existing = .ok (children.map builder.arena.node) :=
    mapM_ok fun child member => existing_eq_ok.mpr ⟨registered child member, rfl⟩
  constructor
  · intro success
    have registered : ∀ child ∈ children, child < builder.arena.length := by
      intro child member
      obtain ⟨factor, -, found⟩ := mapM_result success member
      exact (existing_eq_ok.mp found).1
    exact ⟨registered, Except.ok.inj ((traversed registered).symm.trans success)⟩
  · rintro ⟨registered, rfl⟩
    exact traversed registered

theorem draftProduct_eq_ok : draftProduct (first :: rest) builder = .ok node ↔
    (∀ child ∈ first :: rest, child < builder.arena.length) ∧
      builder.arena.productOver builder.groupSize first rest = node := by
  have scope : ((first :: rest).map builder.arena.node).foldl
      (fun scope factor => scope.union factor.scope) .empty =
        builder.arena.covered (first :: rest) := List.foldl_map
  simp only [draftProduct, bind_eq_ok, existing_eq_ok, mapM_existing_eq_ok, pure_eq_ok]
  constructor
  · rintro ⟨_, ⟨-, rfl⟩, _, ⟨registered, rfl⟩, rfl⟩
    rw [scope]
    exact ⟨registered, rfl⟩
  · rintro ⟨registered, rfl⟩
    refine ⟨_, ⟨registered first List.mem_cons_self, rfl⟩, _, ⟨registered, rfl⟩, ?_⟩
    rw [scope]
    rfl

theorem draftSum_eq_ok : draftSum (first :: rest) numGroups builder = .ok node ↔
    first < builder.arena.length ∧
      builder.arena.sumOver builder.groupSize numGroups first rest = node := by
  simp only [draftSum, bind_eq_ok, existing_eq_ok, pure_eq_ok]
  constructor
  · rintro ⟨_, ⟨bound, rfl⟩, rfl⟩
    exact ⟨bound, rfl⟩
  · rintro ⟨bound, rfl⟩
    exact ⟨_, ⟨bound, rfl⟩, rfl⟩

theorem addProduct_nil : ¬ (addProduct []).run builder = .ok added after := by
  rw [addProduct, addDraft_eq_ok]
  rintro ⟨node, drawn, -⟩
  cases drawn

theorem addProduct_cons_eq_ok : (addProduct (first :: rest)).run builder = .ok added after ↔
    (∀ child ∈ first :: rest, child < builder.arena.length) ∧
      (addNode (builder.arena.productOver builder.groupSize first rest)).run builder =
        .ok added after := by
  simp only [addProduct, addDraft_eq_ok, draftProduct_eq_ok, and_assoc, exists_and_left,
    exists_eq_left']

theorem addSum_nil : ¬ (addSum [] numGroups).run builder = .ok added after := by
  rw [addSum, addDraft_eq_ok]
  rintro ⟨node, drawn, -⟩
  cases drawn

theorem addSum_cons_eq_ok : (addSum (first :: rest) numGroups).run builder = .ok added after ↔
    first < builder.arena.length ∧
      (addNode (builder.arena.sumOver builder.groupSize numGroups first rest)).run builder =
        .ok added after := by
  simp only [addSum, addDraft_eq_ok, draftSum_eq_ok, and_assoc, exists_and_left, exists_eq_left']

theorem exists_addProduct (sound : builder.Sound) :
    (∃ added after, (addProduct children).run builder = .ok added after) ↔
      builder.arena.Factors children := by
  cases children with
  | nil =>
      constructor
      · exact fun ⟨_, _, success⟩ => absurd success addProduct_nil
      · exact fun factors => absurd rfl factors.nonempty
  | cons first rest =>
      simp only [addProduct_cons_eq_ok, sound.addNode_eq_ok, Arena.admits_productOver sound.rules]
      constructor
      · rintro ⟨added, after, -, -, ⟨factors, -⟩, -⟩
        exact factors
      · intro factors
        have registered := factors.registered first List.mem_cons_self
        exact ⟨_, _, factors.registered, sound.positive first registered, ⟨factors, nofun⟩,
          rfl, rfl⟩

theorem exists_addSum (sound : builder.Sound) :
    (∃ added after, (addSum children numGroups).run builder = .ok added after) ↔
      builder.arena.Terms children ∧ 0 < numGroups := by
  cases children with
  | nil =>
      constructor
      · exact fun ⟨_, _, success⟩ => absurd success addSum_nil
      · exact fun ⟨terms, _⟩ => absurd rfl terms.nonempty
  | cons first rest =>
      simp only [addSum_cons_eq_ok, sound.addNode_eq_ok, Arena.admits_sumOver sound.rules]
      constructor
      · rintro ⟨added, after, -, -, ⟨terms, -⟩, -⟩
        exact terms
      · rintro ⟨terms, positive⟩
        have registered := terms.registered first List.mem_cons_self
        exact ⟨_, _, registered, sound.positive first registered, ⟨⟨terms, positive⟩, nofun⟩,
          rfl, rfl⟩

theorem addProduct_adds (sound : builder.Sound)
    (success : (addProduct children).run builder = .ok added after) :
    ∃ node, builder.arena.IsProduct children node ∧ added = builder.next ∧
      after = builder.push node := by
  have factors := (exists_addProduct sound).mp ⟨added, after, success⟩
  cases children with
  | nil => exact absurd success addProduct_nil
  | cons first rest =>
      obtain ⟨-, success⟩ := addProduct_cons_eq_ok.mp success
      obtain ⟨-, -, same⟩ := sound.addNode_eq_ok.mp success
      exact ⟨_, factors.isProduct, same⟩

theorem addSum_adds (sound : builder.Sound)
    (success : (addSum children numGroups).run builder = .ok added after) :
    ∃ node, builder.arena.IsSum children numGroups node ∧ added = builder.next ∧
      after = builder.push node := by
  have terms := ((exists_addSum sound).mp ⟨added, after, success⟩).1
  cases children with
  | nil => exact absurd success addSum_nil
  | cons first rest =>
      obtain ⟨-, success⟩ := addSum_cons_eq_ok.mp success
      obtain ⟨-, -, same⟩ := sound.addNode_eq_ok.mp success
      exact ⟨_, terms.isSum, same⟩

/-- Products and sums over existing children are made exactly when the structural rules allow, and
get the scope that their children give them. -/
structure AdmitsExactly (builder : Builder) : Prop where
  product : ∀ children, (∃ added after, (addProduct children).run builder = .ok added after) ↔
    builder.arena.Factors children
  product_added : ∀ children added after, (addProduct children).run builder = .ok added after →
    ∃ node, builder.arena.IsProduct children node ∧ added = builder.next ∧
      after = builder.push node
  sum : ∀ children numGroups,
    (∃ added after, (addSum children numGroups).run builder = .ok added after) ↔
      builder.arena.Terms children ∧ 0 < numGroups
  sum_added : ∀ children numGroups added after,
    (addSum children numGroups).run builder = .ok added after →
      ∃ node, builder.arena.IsSum children numGroups node ∧ added = builder.next ∧
        after = builder.push node

theorem admitsExactly_runAll (groupSize : Nat) (operations : List Operation) :
    ((empty groupSize).runAll operations).AdmitsExactly where
  product _ := exists_addProduct (sound_runAll groupSize operations)
  product_added _ _ _ := addProduct_adds (sound_runAll groupSize operations)
  sum _ _ := exists_addSum (sound_runAll groupSize operations)
  sum_added _ _ _ _ := addSum_adds (sound_runAll groupSize operations)

end Builder
end CircuitPlan
