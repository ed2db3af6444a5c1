import Mathlib.Algebra.GroupWithZero.Nat
import CircuitPlan.Proofs.Circuit.Adding

namespace CircuitPlan

namespace Arena

variable {arena : Arena} {groupSize id : Nat} {first second third node copy : Node}

theorem SameShapes.trans (early : arena.SameShapes first second)
    (late : arena.SameShapes second third) : arena.SameShapes first third := by
  unfold SameShapes at early late ⊢
  cases left : first.kind <;> cases middle : second.kind <;> cases right : third.kind <;>
    simp_all

theorem sameShapes_of_input {dist : Distribution} (kind : node.kind = .input dist)
    (copied : copy.kind = .input dist) : arena.SameShapes node copy := by
  unfold SameShapes
  rw [kind, copied]
  exact ⟨rfl, rfl, rfl⟩

theorem sameShapes_of_sum (kind : node.kind = .sum) (copied : copy.kind = .sum)
    (fanIn : arena.fanIn node = arena.fanIn copy) : arena.SameShapes node copy := by
  unfold SameShapes
  rw [kind, copied]
  exact fanIn

theorem Sound.tieRules_owner (sound : arena.Sound groupSize) (bound : id < arena.length)
    (size : copy.groupSize = groupSize) (groups : copy.numGroups = (arena.node id).numGroups)
    (shapes : arena.SameShapes (arena.node id) copy) :
    arena.TieRules arena.length copy ((arena.node id).tiedTo.getD id) := by
  have admitted := sound id bound
  cases tied : (arena.node id).tiedTo with
  | none => exact ⟨bound, tied, admitted.groupSize_eq.trans size.symm, groups.symm, shapes⟩
  | some source =>
      have rules := admitted.tie_rules source tied
      exact ⟨Nat.lt_trans rules.earlier bound, rules.untied,
        rules.groupSize_eq.trans (admitted.groupSize_eq.trans size.symm),
        rules.numGroups_eq.trans groups.symm, rules.shapes.trans shapes⟩

theorem Admits.copied (sound : arena.Sound groupSize) (bound : id < arena.length)
    (admitted : arena.Admits groupSize arena.length node)
    (groups : node.numGroups = (arena.node id).numGroups)
    (shapes : arena.SameShapes (arena.node id) node) (tie : Bool) :
    arena.Admits groupSize arena.length
      { node with tiedTo := Builder.tieOf (arena.node id) id tie } where
  groupSize_eq := admitted.groupSize_eq
  numGroups_pos := admitted.numGroups_pos
  scope_free := admitted.scope_free
  children_earlier := admitted.children_earlier
  kind_rules := admitted.kind_rules
  tie_rules source tied := by
    obtain ⟨-, same⟩ := Option.ite_none_right_eq_some.mp tied
    cases same
    exact sound.tieRules_owner bound admitted.groupSize_eq groups shapes

end Arena

namespace Builder

variable {builder : Builder} {id first : NodeId} {rest : List NodeId} {node copy : Node}
  {tie : Bool}

/-- What a copy has in common with its model `id`, and whose parameters it uses. -/
structure IsCopy (builder : Builder) (id : NodeId) (tie : Bool) (copy : Node) : Prop where
  kind_eq : copy.kind = (builder.arena.node id).kind
  numGroups_eq : copy.numGroups = (builder.arena.node id).numGroups
  tiedTo_eq : copy.tiedTo = if tie then some (builder.owner id) else none
  owner_registered : builder.owner id < builder.arena.length
  owner_untied : (builder.arena.node (builder.owner id)).tiedTo = none

theorem owner_lt (sound : builder.Sound) (bound : id < builder.arena.length) :
    builder.owner id < builder.arena.length := by
  unfold owner
  cases tied : (builder.arena.node id).tiedTo with
  | none => exact bound
  | some source => exact Nat.lt_trans ((sound.rules id bound).tie_rules source tied).earlier bound

theorem isCopy (sound : builder.Sound) (bound : id < builder.arena.length) (node : Node)
    (kind : node.kind = (builder.arena.node id).kind)
    (groups : node.numGroups = (builder.arena.node id).numGroups) :
    builder.IsCopy id tie { node with tiedTo := tieOf (builder.arena.node id) id tie } where
  kind_eq := kind
  numGroups_eq := groups
  tiedTo_eq := rfl
  owner_registered := owner_lt sound bound
  owner_untied := Arena.owner_untied sound.rules bound

theorem addNode_copy (sound : builder.Sound) (bound : id < builder.arena.length)
    (admitted : builder.arena.Admits builder.groupSize builder.arena.length node)
    (own : node.params = none) (groups : node.numGroups = (builder.arena.node id).numGroups)
    (shapes : builder.arena.SameShapes (builder.arena.node id) node) (tie : Bool) :
    (addNode { node with tiedTo := tieOf (builder.arena.node id) id tie }).run builder =
      .ok builder.next
        (builder.push { node with tiedTo := tieOf (builder.arena.node id) id tie }) := by
  refine sound.addNode_eq_ok.mpr ⟨sound.positive id bound, ⟨?_, ?_⟩, rfl, rfl⟩
  · exact admitted.copied sound.rules bound groups shapes tie
  · intro params supplied
    cases own.symm.trans supplied

theorem copyInputs_succeeds (sound : builder.Sound) (bound : id < builder.arena.length)
    {dist : Distribution} (kind : (builder.arena.node id).kind = .input dist)
    {scope : Option Scope}
    (fits : ∀ given ∈ scope, given.size = (builder.arena.node id).scope.size ∧
      padding ∉ given.vars) :
    ∃ copy, (copyInputs id scope tie).run builder = .ok builder.next (builder.push copy) ∧
      builder.IsCopy id tie copy ∧ copy.scope = scope.getD (builder.arena.node id).scope := by
  let untied : Node :=
    { kind := .input dist
      scope := scope.getD (builder.arena.node id).scope
      numGroups := (builder.arena.node id).numGroups
      groupSize := builder.groupSize
      children := [] }
  have model := sound.rules id bound
  have arity := model.kind_rules.of_input kind
  have admitted : builder.arena.Admits builder.groupSize builder.arena.length untied := {
    groupSize_eq := rfl
    numGroups_pos := model.numGroups_pos
    scope_free := by
      cases scope with
      | none => exact model.scope_free
      | some given => exact (fits given rfl).2
    children_earlier := nofun
    kind_rules := by
      cases scope with
      | none => exact arity
      | some given => exact (fits given rfl).1.trans arity
    tie_rules := nofun }
  have added := addNode_copy sound bound admitted rfl rfl (Arena.sameShapes_of_input kind rfl) tie
  refine ⟨_, ?_, isCopy sound bound untied kind.symm rfl, rfl⟩
  refine addDraft_eq_ok.mpr ⟨_, ?_, added⟩
  simp only [draftInputsCopy, existing_eq_ok.mpr ⟨bound, rfl⟩, ok_bind, kind]
  rfl

theorem draftSumCopy_eq (bound : id < builder.arena.length)
    (kind : (builder.arena.node id).kind = .sum) {children : Option (List NodeId)}
    (listed : children.getD (builder.arena.node id).children = first :: rest)
    (registered : first < builder.arena.length) :
    draftSumCopy id children tie builder = .ok
      { builder.arena.sumOver builder.groupSize (builder.arena.node id).numGroups first rest with
        tiedTo := tieOf (builder.arena.node id) id tie } := by
  have tag : (builder.arena.node id).tag = .sum := by rw [Node.tag, kind]; rfl
  simp only [draftSumCopy, existing_eq_ok.mpr ⟨bound, rfl⟩, ok_bind, require_pos tag, listed]
  rw [existing_eq_ok.mpr ⟨registered, rfl⟩]
  rfl

theorem copySum_succeeds (sound : builder.Sound) (bound : id < builder.arena.length)
    (kind : (builder.arena.node id).kind = .sum) {children : Option (List NodeId)}
    (fits : ∀ given ∈ children,
      (∃ numGroups added after, (addSum given numGroups).run builder = .ok added after) ∧
      (given.map fun child => (builder.arena.node child).numNodes).sum =
        builder.arena.fanIn (builder.arena.node id)) :
    ∃ copy, (copySum id children tie).run builder = .ok builder.next (builder.push copy) ∧
      builder.IsCopy id tie copy ∧
      copy.children = children.getD (builder.arena.node id).children := by
  have terms : builder.arena.Terms (children.getD (builder.arena.node id).children) := by
    cases children with
    | none =>
        apply (sound.rules id bound).kind_rules.terms kind
        intro child isChild
        exact Nat.lt_trans ((sound.rules id bound).children_earlier child isChild) bound
    | some given =>
        obtain ⟨⟨numGroups, accepted⟩, -⟩ := fits given rfl
        exact ((exists_addSum sound).mp accepted).1
  have counted : ((children.getD (builder.arena.node id).children).map fun child =>
      (builder.arena.node child).numNodes).sum = builder.arena.fanIn (builder.arena.node id) := by
    cases children with
    | none => rw [Option.getD_none, Arena.fanIn, List.sum_eq_foldl_nat]
    | some given => exact (fits given rfl).2
  generalize listed : children.getD (builder.arena.node id).children = chosen at terms counted ⊢
  cases chosen with
  | nil => exact absurd rfl terms.nonempty
  | cons first rest =>
      let untied :=
        builder.arena.sumOver builder.groupSize (builder.arena.node id).numGroups first rest
      have admitted : builder.arena.Admits builder.groupSize builder.arena.length untied :=
        (Arena.admits_sumOver sound.rules).mpr ⟨terms, (sound.rules id bound).numGroups_pos⟩
      have shapes : builder.arena.SameShapes (builder.arena.node id) untied := by
        apply Arena.sameShapes_of_sum kind rfl
        rw [← counted, List.sum_eq_foldl_nat]
        rfl
      refine ⟨_, ?_, isCopy sound bound untied kind.symm rfl, rfl⟩
      have registered := terms.registered first List.mem_cons_self
      exact addDraft_eq_ok.mpr ⟨_, draftSumCopy_eq bound kind listed registered,
        addNode_copy sound bound admitted rfl rfl shapes tie⟩

/-- Inputs and sums can be copied over any scope or children of the same shape. -/
structure CopiesFreely (builder : Builder) : Prop where
  inputs : ∀ id < builder.arena.length, ∀ dist, (builder.arena.node id).kind = .input dist →
    ∀ (scope : Option Scope) (tie : Bool),
      (∀ given ∈ scope, given.size = (builder.arena.node id).scope.size ∧ padding ∉ given.vars) →
      ∃ copy, (copyInputs id scope tie).run builder = .ok builder.next (builder.push copy) ∧
        builder.IsCopy id tie copy ∧ copy.scope = scope.getD (builder.arena.node id).scope
  sums : ∀ id < builder.arena.length, (builder.arena.node id).kind = .sum →
    ∀ (children : Option (List NodeId)) (tie : Bool),
      (∀ given ∈ children,
        (∃ numGroups added after, (addSum given numGroups).run builder = .ok added after) ∧
        (given.map fun child => (builder.arena.node child).numNodes).sum =
          builder.arena.fanIn (builder.arena.node id)) →
      ∃ copy, (copySum id children tie).run builder = .ok builder.next (builder.push copy) ∧
        builder.IsCopy id tie copy ∧
        copy.children = children.getD (builder.arena.node id).children

theorem copiesFreely_runAll (groupSize : Nat) (operations : List Operation) :
    ((empty groupSize).runAll operations).CopiesFreely where
  inputs _ bound _ kind _ _ fits :=
    copyInputs_succeeds (sound_runAll groupSize operations) bound kind fits
  sums _ bound kind _ _ fits := copySum_succeeds (sound_runAll groupSize operations) bound kind fits

end Builder
end CircuitPlan
