import Mathlib.Data.Bool.Count
import Mathlib.Data.List.Sort
import Mathlib.Logic.Function.Iterate
import Mathlib.Logic.Relation
import CircuitPlan.Proofs.Circuit.Reachability

namespace CircuitPlan

namespace Circuit

variable {circuit : Circuit} {id other parent child : NodeId}

def Lists (circuit : Circuit) (parent child : NodeId) : Prop :=
  child ∈ (circuit.node parent).children

theorem WellFormed.mem_reachable_iff (wellFormed : circuit.WellFormed) :
    id ∈ circuit.reachable ↔ Relation.ReflTransGen circuit.Lists circuit.root id := by
  constructor
  · intro reachable
    exact wellFormed.reachable_induction .refl
      (fun parent _ path child isChild => path.tail isChild) reachable
  · intro path
    induction path with
    | refl => exact circuit.root_reachable
    | tail _ isChild ih => exact wellFormed.child_reachable ih isChild

structure Search where
  marks : List Bool
  stack : List NodeId

namespace Search

def Met (search : Search) (id : NodeId) : Prop := search.marks[id]? = some true

def meet (search : Search) (id : NodeId) : Search :=
  if search.marks[id]? = some false then ⟨search.marks.set id true, id :: search.stack⟩
  else search

def start (circuit : Circuit) : Search :=
  meet ⟨List.replicate circuit.arena.length false, []⟩ circuit.root

def pass (circuit : Circuit) (search : Search) : Search :=
  match search.stack with
  | [] => search
  | id :: rest => (circuit.node id).children.foldl meet { search with stack := rest }

def after (circuit : Circuit) (passes : Nat) : Search := (pass circuit)^[passes] (start circuit)

def met (search : Search) : List NodeId :=
  (List.range search.marks.length).filter fun id => search.marks[id]? == some true

/-- The number of passes that are left: each node vector is put on the stack at most once. -/
def pending (search : Search) : Nat := search.marks.count false + search.stack.length

variable {search : Search} {children : List NodeId}

theorem mem_met : id ∈ search.met ↔ search.Met id := by
  rw [met, List.mem_filter, List.mem_range, beq_iff_eq, Met]
  exact and_iff_right_of_imp fun marked => (List.getElem?_eq_some_iff.mp marked).1

theorem length_met (search : Search) :
    search.met.length + search.marks.count false = search.marks.length := by
  have split : search.met.length = search.marks.count true := by
    have entries : search.marks = (List.range search.marks.length).map
        fun id => search.marks.getD id false := by
      apply List.ext_getElem
      · simp
      · intro index inside _
        simp [inside]
    conv_rhs => rw [entries, List.count_eq_countP, List.countP_map]
    rw [met, ← List.countP_eq_length_filter]
    apply List.countP_congr
    intro id member
    rw [List.mem_range] at member
    simp [member]
  rw [split, Nat.add_comm]
  exact List.count_false_add_count_true search.marks

theorem length_meet (search : Search) (id : NodeId) :
    (search.meet id).marks.length = search.marks.length := by
  unfold meet
  split
  · exact List.length_set
  · rfl

theorem pending_meet (search : Search) (id : NodeId) :
    (search.meet id).pending = search.pending := by
  unfold meet
  split
  case isTrue unmarked =>
    obtain ⟨inside, fresh⟩ := List.getElem?_eq_some_iff.mp unmarked
    have counted : 0 < search.marks.count false :=
      List.count_pos_iff.mpr (fresh ▸ List.getElem_mem inside)
    simp only [pending, List.count_set inside, fresh, List.length_cons]
    simp
    omega
  case isFalse => rfl

theorem met_meet (inside : id < search.marks.length) :
    (search.meet id).Met other ↔ search.Met other ∨ other = id := by
  unfold meet Met
  split
  case isTrue unmarked =>
    dsimp only
    rw [List.getElem?_set]
    split
    · rename_i same
      simp [same]
    · rename_i different
      simp [Ne.symm different]
  case isFalse marked =>
    have found : search.marks[id]? = some true := by
      rw [List.getElem?_eq_getElem inside] at marked ⊢
      simpa using marked
    exact (or_iff_left_of_imp fun same => same ▸ found).symm

theorem mem_stack_meet (inside : id < search.marks.length) :
    other ∈ (search.meet id).stack ↔ other ∈ search.stack ∨ other = id ∧ ¬ search.Met id := by
  unfold meet Met
  split
  case isTrue unmarked => simp [unmarked, or_comm]
  case isFalse marked =>
    rw [List.getElem?_eq_getElem inside] at marked ⊢
    simp_all

section Children

variable (inside : ∀ child ∈ children, child < search.marks.length)

theorem length_meetAll (search : Search) (children : List NodeId) :
    (children.foldl meet search).marks.length = search.marks.length := by
  induction children generalizing search with
  | nil => rfl
  | cons child rest ih => rw [List.foldl_cons, ih, length_meet]

theorem pending_meetAll (search : Search) (children : List NodeId) :
    (children.foldl meet search).pending = search.pending := by
  induction children generalizing search with
  | nil => rfl
  | cons child rest ih => rw [List.foldl_cons, ih, pending_meet]

include inside

theorem met_meetAll : (children.foldl meet search).Met id ↔ search.Met id ∨ id ∈ children := by
  induction children generalizing search with
  | nil => simp
  | cons child rest ih =>
      rw [List.forall_mem_cons] at inside
      rw [List.foldl_cons, ih (by rw [length_meet]; exact inside.2), met_meet inside.1,
        List.mem_cons, or_assoc]

theorem mem_stack_meetAll : id ∈ (children.foldl meet search).stack ↔
    id ∈ search.stack ∨ id ∈ children ∧ ¬ search.Met id := by
  induction children generalizing search with
  | nil => simp
  | cons child rest ih =>
      rw [List.forall_mem_cons] at inside
      rw [List.foldl_cons, ih (by rw [length_meet]; exact inside.2), mem_stack_meet inside.1,
        met_meet inside.1, List.mem_cons]
      by_cases same : id = child
      · subst same
        tauto
      · simp [same]

end Children

theorem pending_pass (circuit : Circuit) (left : search.stack ≠ []) :
    (pass circuit search).pending + 1 = search.pending := by
  unfold pass
  split
  case h_1 empty => exact absurd empty left
  case h_2 id rest stacked =>
    rw [pending_meetAll, pending, pending, stacked, List.length_cons]
    rfl

/-- Where a search is: what it met is reached from the root, and has either met its children or is
still on the stack. -/
structure Underway (circuit : Circuit) (search : Search) : Prop where
  length_eq : search.marks.length = circuit.arena.length
  root_met : search.Met circuit.root
  stack_met : ∀ id ∈ search.stack, search.Met id
  path : ∀ id, search.Met id → Relation.ReflTransGen circuit.Lists circuit.root id
  closed : ∀ id, search.Met id →
    id ∈ search.stack ∨ ∀ child, circuit.Lists id child → search.Met child

section Run

variable (wellFormed : circuit.WellFormed)
include wellFormed

theorem underway_start : Underway circuit (start circuit) := by
  have inside : circuit.root < (List.replicate circuit.arena.length false).length := by
    rw [List.length_replicate]
    exact wellFormed.root_lt
  have blank (id : NodeId) : ¬ Met ⟨List.replicate circuit.arena.length false, []⟩ id := by
    simp [Met, List.getElem?_replicate]
  have met (id : NodeId) : (start circuit).Met id ↔ id = circuit.root :=
    (met_meet inside).trans (or_iff_right (blank id))
  have stacked (id : NodeId) : id ∈ (start circuit).stack ↔ id = circuit.root := by
    rw [start, mem_stack_meet inside]
    simp [blank]
  constructor
  case length_eq => rw [start, length_meet, List.length_replicate]
  case root_met => exact (met _).mpr rfl
  case stack_met => exact fun id onStack => (met id).mpr ((stacked id).mp onStack)
  case path =>
    intro id isMet
    rw [(met id).mp isMet]
  case closed => exact fun id isMet => .inl ((stacked id).mpr ((met id).mp isMet))

theorem Underway.pass (underway : Underway circuit search) :
    Underway circuit (pass circuit search) := by
  unfold Search.pass
  split
  case h_1 empty => exact underway
  case h_2 top rest stacked =>
    have topMet : search.Met top := underway.stack_met top (stacked ▸ List.mem_cons_self)
    have topPath := underway.path top topMet
    have reachable := wellFormed.mem_reachable_iff.mpr topPath
    have inside : ∀ child ∈ (circuit.node top).children, child < search.marks.length := by
      intro child isChild
      rw [underway.length_eq]
      exact wellFormed.lt_length (wellFormed.child_reachable reachable isChild)
    have met (id : NodeId) :
        Met ((circuit.node top).children.foldl meet { search with stack := rest }) id ↔
          search.Met id ∨ id ∈ (circuit.node top).children :=
      met_meetAll inside
    have onStack (id : NodeId) :
        id ∈ ((circuit.node top).children.foldl meet { search with stack := rest }).stack ↔
          id ∈ rest ∨ id ∈ (circuit.node top).children ∧ ¬ search.Met id :=
      mem_stack_meetAll inside
    constructor
    case length_eq => rw [length_meetAll, underway.length_eq]
    case root_met => exact (met _).mpr (.inl underway.root_met)
    case stack_met =>
      intro id member
      rcases (onStack id).mp member with old | ⟨isChild, -⟩
      · exact (met id).mpr (.inl (underway.stack_met id (stacked ▸ List.mem_cons_of_mem _ old)))
      · exact (met id).mpr (.inr isChild)
    case path =>
      intro id isMet
      rcases (met id).mp isMet with old | isChild
      · exact underway.path id old
      · exact topPath.tail isChild
    case closed =>
      intro id isMet
      by_cases old : search.Met id
      · rcases underway.closed id old with waiting | children
        · rw [stacked] at waiting
          rcases List.mem_cons.mp waiting with rfl | waiting
          · exact .inr fun child isChild => (met child).mpr (.inr isChild)
          · exact .inl ((onStack id).mpr (.inl waiting))
        · exact .inr fun child isChild => (met child).mpr (.inl (children child isChild))
      · have isChild := ((met id).mp isMet).resolve_left old
        exact .inl ((onStack id).mpr (.inr ⟨isChild, old⟩))

theorem underway_after (passes : Nat) : Underway circuit (after circuit passes) := by
  induction passes with
  | zero => exact underway_start wellFormed
  | succ passes ih =>
      rw [after, Function.iterate_succ_apply']
      exact ih.pass wellFormed

omit wellFormed in
theorem Underway.met_of_path (underway : Underway circuit search) (empty : search.stack = [])
    (path : Relation.ReflTransGen circuit.Lists circuit.root id) : search.Met id := by
  induction path with
  | refl => exact underway.root_met
  | tail _ isChild ih =>
      rcases underway.closed _ ih with waiting | children
      · rw [empty] at waiting
        cases waiting
      · exact children _ isChild

theorem Underway.met_eq (underway : Underway circuit search) (empty : search.stack = []) :
    search.met = circuit.reachable := by
  have ascending : search.met.Pairwise (· < ·) := List.pairwise_lt_range.filter _
  apply ascending.eq_of_mem_iff circuit.reachable_ascending
  intro id
  rw [mem_met, wellFormed.mem_reachable_iff]
  exact ⟨underway.path id, underway.met_of_path empty⟩

end Run

theorem exists_passes (circuit : Circuit) (search : Search) :
    ∃ last, ((pass circuit)^[last] search).pending + last = search.pending ∧
      ∀ passes, ((pass circuit)^[passes] search).stack = [] ↔ last ≤ passes := by
  induction left : search.pending using Nat.strongRecOn generalizing search with
  | _ measure ih =>
      by_cases empty : search.stack = []
      · have still : pass circuit search = search := by rw [pass, empty]
        refine ⟨0, left, fun passes => ?_⟩
        rw [Function.iterate_fixed still]
        exact iff_of_true empty (Nat.zero_le passes)
      · have shorter := pending_pass circuit empty
        obtain ⟨last, ends, stops⟩ := ih _ (by omega) (pass circuit search) rfl
        refine ⟨last + 1, ?_, ?_⟩
        · rw [Function.iterate_succ_apply]
          omega
        · rintro (_ | passes)
          · simpa using empty
          · rw [Function.iterate_succ_apply, stops, Nat.add_le_add_iff_right]

theorem stack_after (wellFormed : circuit.WellFormed) (passes : Nat) :
    (after circuit passes).stack = [] ↔ circuit.reachable.length ≤ passes := by
  obtain ⟨last, ends, stops⟩ := exists_passes circuit (start circuit)
  have empty : (after circuit last).stack = [] := (stops last).mpr (Nat.le_refl last)
  have underway := underway_after wellFormed last
  have counted := length_met (after circuit last)
  rw [underway.met_eq wellFormed empty, underway.length_eq] at counted
  have started : (start circuit).pending = circuit.arena.length := by
    rw [start, pending_meet, pending]
    simp
  have finished : (after circuit last).pending = (after circuit last).marks.count false := by
    rw [pending, empty]
    rfl
  have same : circuit.reachable.length = last := by
    rw [← after, finished, started] at ends
    omega
  rw [same]
  exact stops passes

end Search

end Circuit
end CircuitPlan
