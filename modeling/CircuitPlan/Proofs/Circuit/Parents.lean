import CircuitPlan.Proofs.Circuit.Search

namespace CircuitPlan

namespace Circuit

variable {circuit : Circuit} {keys children done : List NodeId} {parents : NodeId → List NodeId}
  {parent child : NodeId}

def indexOf (keys : List NodeId) (parents : NodeId → List NodeId) : List (NodeId × List NodeId) :=
  keys.map fun key => (key, parents key)

theorem indexOf_cons (key : NodeId) (keys : List NodeId) (parents : NodeId → List NodeId) :
    indexOf (key :: keys) parents = (key, parents key) :: indexOf keys parents := rfl

theorem indexOf_congr {others : NodeId → List NodeId}
    (same : ∀ key ∈ keys, parents key = others key) : indexOf keys parents = indexOf keys others :=
  List.map_congr_left fun key member => by rw [same key member]

def withParent (parent : NodeId) (parents : List NodeId) : List NodeId :=
  if parents.getLast? = some parent then parents else parents ++ [parent]

theorem withParent_withParent (parent : NodeId) (parents : List NodeId) :
    withParent parent (withParent parent parents) = withParent parent parents := by
  have last : (withParent parent parents).getLast? = some parent := by
    unfold withParent
    split
    · assumption
    · exact List.getLast?_concat
  exact if_pos last

theorem withParent_nil (parent : NodeId) : withParent parent [] = [parent] := rfl

theorem addParent_indexOf (ascending : keys.Pairwise (· < ·))
    (absent : child ∉ keys → parents child = []) :
    addParent parent child (indexOf keys parents) = indexOf (Ascending.insert child keys)
      fun key => if key = child then withParent parent (parents key) else parents key := by
  have beyond {others : List NodeId} (greater : ∀ key ∈ others, child < key) :
      indexOf others parents = indexOf others
        fun key => if key = child then withParent parent (parents key) else parents key :=
    indexOf_congr fun key member => (if_neg (Nat.ne_of_gt (greater key member))).symm
  induction keys with
  | nil => simp [indexOf, addParent, Ascending.insert, absent, withParent_nil]
  | cons key rest ih =>
      rw [List.pairwise_cons] at ascending
      obtain ⟨least, restAscending⟩ := ascending
      rw [indexOf_cons, addParent, Ascending.insert]
      dsimp only
      rcases Nat.lt_trichotomy child key with before | rfl | after
      · have greater : ∀ other ∈ key :: rest, child < other :=
          List.forall_mem_cons.mpr
            ⟨before, fun other member => Nat.lt_trans before (least other member)⟩
        have empty := absent fun member => Nat.lt_irrefl child (greater child member)
        rw [if_pos before, if_pos before, indexOf_cons, ← beyond greater, if_pos rfl, empty]
        rfl
      · rw [if_neg (Nat.lt_irrefl child), if_pos rfl, if_neg (Nat.lt_irrefl child), if_pos rfl,
          indexOf_cons, ← beyond least, if_pos rfl]
        unfold withParent
        split <;> rfl
      · have different : child ≠ key := Nat.ne_of_gt after
        have restAbsent : child ∉ rest → parents child = [] := by
          intro missing
          exact absent (by simp [different, missing])
        rw [if_neg (Nat.lt_asymm after), if_neg different, if_neg (Nat.lt_asymm after),
          if_neg different, indexOf_cons, if_neg different.symm, ih restAscending restAbsent]

theorem foldl_addParent (ascending : keys.Pairwise (· < ·))
    (absent : ∀ key ∉ keys, parents key = []) (parent : NodeId) (children : List NodeId) :
    children.foldl (fun index child => addParent parent child index) (indexOf keys parents) =
      indexOf (children.foldl (fun keys child => Ascending.insert child keys) keys)
        fun key => if key ∈ children then withParent parent (parents key) else parents key := by
  induction children generalizing keys parents with
  | nil => simp
  | cons child rest ih =>
      rw [List.foldl_cons, List.foldl_cons, addParent_indexOf ascending (absent child),
        ih (Ascending.insert_ascending ascending)]
      · apply indexOf_congr
        intro key _
        by_cases same : key = child
        · subst same
          simp [withParent_withParent]
        · simp [same]
      · intro key missing
        rw [Ascending.mem_insert, not_or] at missing
        rw [if_neg missing.1, absent key missing.2]

theorem foldl_insert {keys : List NodeId} (ascending : keys.Pairwise (· < ·))
    (children : List NodeId) :
    (children.foldl (fun keys child => Ascending.insert child keys) keys).Pairwise (· < ·) ∧
      ∀ key, key ∈ children.foldl (fun keys child => Ascending.insert child keys) keys ↔
        key ∈ keys ∨ key ∈ children := by
  induction children generalizing keys with
  | nil => exact ⟨ascending, by simp⟩
  | cons child rest ih =>
      obtain ⟨restAscending, members⟩ := ih (Ascending.insert_ascending ascending)
      refine ⟨restAscending, fun key => ?_⟩
      rw [List.foldl_cons, members, Ascending.mem_insert, List.mem_cons]
      tauto

def listing (circuit : Circuit) (done : List NodeId) (child : NodeId) : List NodeId :=
  done.filter fun parent => child ∈ (circuit.node parent).children

theorem mem_listing :
    parent ∈ circuit.listing done child ↔ parent ∈ done ∧ circuit.Lists parent child := by
  rw [listing, List.mem_filter, decide_eq_true_iff, Lists]

theorem listing_concat (later : ∀ earlier ∈ done, earlier < parent) (child : NodeId) :
    circuit.listing (done ++ [parent]) child =
      if child ∈ (circuit.node parent).children then
        withParent parent (circuit.listing done child)
      else circuit.listing done child := by
  rw [listing, List.filter_append, ← listing]
  by_cases isChild : child ∈ (circuit.node parent).children
  · have fresh : (circuit.listing done child).getLast? ≠ some parent := by
      intro last
      have member := mem_listing.mp (List.mem_of_getLast? last)
      exact Nat.lt_irrefl parent (later parent member.1)
    simp [isChild, withParent, fresh]
  · simp [isChild]

/-- Parents come in ascending order, so the last one of a child tells whether this child was met
before in the same list of children. -/
theorem exists_indexOf (circuit : Circuit) (ascending : done.Pairwise (· < ·)) :
    ∃ keys : List NodeId, keys.Pairwise (· < ·) ∧
      (∀ child, child ∈ keys ↔ ∃ parent ∈ done, circuit.Lists parent child) ∧
      done.foldl (fun index parent => (circuit.node parent).children.foldl
        (fun index child => addParent parent child index) index) [] =
          indexOf keys (circuit.listing done) := by
  induction done using List.reverseRecOn with
  | nil => exact ⟨[], .nil, by simp, rfl⟩
  | append_singleton done parent ih =>
      rw [List.pairwise_append] at ascending
      obtain ⟨doneAscending, -, later⟩ := ascending
      obtain ⟨keys, keysAscending, members, index⟩ := ih doneAscending
      have absent : ∀ key ∉ keys, circuit.listing done key = [] := by
        intro key missing
        rw [List.eq_nil_iff_forall_not_mem]
        intro other isParent
        exact missing ((members key).mpr ⟨other, mem_listing.mp isParent⟩)
      obtain ⟨allAscending, allMembers⟩ :=
        foldl_insert keysAscending (circuit.node parent).children
      refine ⟨_, allAscending, ?_, ?_⟩
      · intro child
        rw [allMembers, members]
        simp only [List.mem_append, List.mem_singleton, or_and_right, exists_or, exists_eq_left]
        rfl
      · rw [List.foldl_append, index, List.foldl_cons, List.foldl_nil,
          foldl_addParent keysAscending absent]
        apply indexOf_congr
        intro key _
        exact (listing_concat (fun earlier member =>
          later earlier member parent (List.mem_singleton_self parent)) key).symm

theorem exists_parents (circuit : Circuit) : ∃ keys : List NodeId, keys.Pairwise (· < ·) ∧
    (∀ child, child ∈ keys ↔ ∃ parent ∈ circuit.reachable, circuit.Lists parent child) ∧
    circuit.parents = indexOf keys (circuit.listing circuit.reachable) :=
  exists_indexOf circuit circuit.reachable_ascending

/-- The search ends after one pass for each reachable node vector, and the index has all edges
among reachable node vectors. -/
structure Traversed (circuit : Circuit) : Prop where
  ends : ∀ passes, (Search.after circuit passes).stack = [] ↔ circuit.reachable.length ≤ passes
  finds : ∀ passes, (Search.after circuit passes).stack = [] →
    (Search.after circuit passes).met = circuit.reachable
  ascending : circuit.reachable.Pairwise (· < ·)
  mem_reachable : ∀ id, id ∈ circuit.reachable ↔
    Relation.ReflTransGen circuit.Lists circuit.root id
  children_ascending : (circuit.parents.map (·.1)).Pairwise (· < ·)
  mem_children : ∀ child, child ∈ circuit.parents.map (·.1) ↔
    ∃ parent ∈ circuit.reachable, circuit.Lists parent child
  parents_ascending : ∀ entry ∈ circuit.parents, entry.2.Pairwise (· < ·)
  mem_parents : ∀ entry ∈ circuit.parents, ∀ parent,
    parent ∈ entry.2 ↔ parent ∈ circuit.reachable ∧ circuit.Lists parent entry.1

theorem Accepted.traversed (accepted : circuit.Accepted) : circuit.Traversed := by
  have wellFormed := accepted.wellFormed
  obtain ⟨keys, keysAscending, members, index⟩ := circuit.exists_parents
  have firsts : circuit.parents.map (·.1) = keys := by
    rw [index, indexOf, List.map_map]
    exact List.map_id keys
  have entries : ∀ entry ∈ circuit.parents,
      entry.2 = circuit.listing circuit.reachable entry.1 := by
    intro entry isEntry
    rw [index, indexOf, List.mem_map] at isEntry
    obtain ⟨key, -, rfl⟩ := isEntry
    rfl
  constructor
  case ends => exact Search.stack_after wellFormed
  case finds =>
    intro passes empty
    exact (Search.underway_after wellFormed passes).met_eq wellFormed empty
  case ascending => exact circuit.reachable_ascending
  case mem_reachable => exact fun id => wellFormed.mem_reachable_iff
  case children_ascending => rwa [firsts]
  case mem_children => rwa [firsts]
  case parents_ascending =>
    intro entry isEntry
    rw [entries entry isEntry]
    exact circuit.reachable_ascending.filter _
  case mem_parents =>
    intro entry isEntry parent
    rw [entries entry isEntry, mem_listing]

end Circuit

def Distribution.constant : Distribution where
  signature := "Constant"
  numVars := 0
  numParameters := 1
  numFlows := 1
  metadata := []
  initial count _ words := (List.replicate count 1, words)
  normalize params := params

namespace Circuit

def squared : Circuit :=
  let node (kind : NodeKind) (children : List NodeId) : Node :=
    { kind, scope := .empty, numGroups := 1, groupSize := 1, children }
  ⟨1, [node (.input .constant) [], node (.input .constant) [], node .product [0, 0],
    node .sum [2]], 3⟩

theorem squared_accepted : squared.Accepted := by
  have passes : (ofArena 1 squared.arena 3).isOk = true := by decide +kernel
  exact accepted_of_isOk passes

theorem squared_traversed : squared.Accepted ∧ squared.Traversed ∧
    (Search.after squared 3).met = [0, 2, 3] ∧ squared.parents = [(0, [2]), (2, [3])] :=
  ⟨squared_accepted, Accepted.traversed squared_accepted, by decide +kernel, by decide +kernel⟩

end Circuit
end CircuitPlan
