import CircuitPlan.Proofs.Ascending
import CircuitPlan.Scope

namespace CircuitPlan.Scope

variable {left right : Scope} {var : Nat}

theorem not_mem_empty : var ∉ empty.vars := List.not_mem_nil

theorem mem_union : var ∈ (left.union right).vars ↔ var ∈ left.vars ∨ var ∈ right.vars := by
  rw [union, ofList, Ascending.mem_ofList, List.mem_append]

@[ext] theorem ext (same : ∀ var, var ∈ left.vars ↔ var ∈ right.vars) : left = right := by
  obtain ⟨vars, ascending⟩ := left
  obtain ⟨others, othersAscending⟩ := right
  rw [mk.injEq]
  exact ascending.eq_of_mem_iff othersAscending same

theorem ofList_vars (scope : Scope) : ofList scope.vars = scope := by
  ext var
  exact Ascending.mem_ofList

theorem contains_iff : left.contains var = true ↔ var ∈ left.vars := by
  rw [contains, beq_iff_eq, List.mem_iff_getElem?]
  constructor
  · exact fun found => ⟨_, found⟩
  · rintro ⟨index, found⟩
    obtain ⟨inside, rfl⟩ := List.getElem?_eq_some_iff.mp found
    have notBeyond := (Ascending.bisect_le_iff left.ascending inside).mpr (Nat.le_refl _)
    -- An earlier place would hold a lesser variable, so that bisection passes it.
    rcases Nat.lt_or_eq_of_le notBeyond with earlier | here
    · have bound := Nat.lt_trans earlier inside
      have lesser := List.pairwise_iff_getElem.mp left.ascending _ index bound inside earlier
      exact absurd ((Ascending.lt_bisect_iff left.ascending bound).mpr lesser) (Nat.lt_irrefl _)
    · rw [here, found]

/-- The walk drops the lesser of two first entries. All other entries of the list that keeps its
first entry are greater still, so the dropped one is in none of them. -/
theorem walkApart_iff {xs ys : List Nat} (first : xs.Pairwise (· < ·))
    (second : ys.Pairwise (· < ·)) : walkApart xs ys = true ↔ ∀ var ∈ xs, var ∉ ys := by
  induction xs, ys using walkApart.induct with
  | case1 ys => simp [walkApart]
  | case2 xs nonempty => simp [walkApart]
  | case3 x xs y ys less ih =>
      have absent : x ∉ y :: ys := by
        intro member
        rcases List.mem_cons.mp member with rfl | member
        · exact Nat.lt_irrefl _ less
        · exact Nat.lt_asymm less ((List.pairwise_cons.mp second).1 x member)
      rw [walkApart, if_pos less, ih (List.pairwise_cons.mp first).2 second,
        List.forall_mem_cons]
      exact (and_iff_right absent).symm
  | case4 x xs y ys notLess less ih =>
      have absent : y ∉ x :: xs := by
        intro member
        rcases List.mem_cons.mp member with rfl | member
        · exact Nat.lt_irrefl _ less
        · exact Nat.lt_asymm less ((List.pairwise_cons.mp first).1 y member)
      rw [walkApart, if_neg notLess, if_pos less, ih first (List.pairwise_cons.mp second).2]
      apply forall₂_congr
      intro var member
      rw [List.mem_cons, not_or]
      exact (and_iff_right (ne_of_mem_of_not_mem member absent)).symm
  | case5 x xs y ys notLess notGreater =>
      obtain rfl : x = y := Nat.le_antisymm (Nat.le_of_not_lt notGreater) (Nat.le_of_not_lt notLess)
      rw [walkApart, if_neg notLess, if_neg notGreater]
      simp

theorem disjoint_iff : left.disjoint right = true ↔ ∀ var ∈ left.vars, var ∉ right.vars :=
  walkApart_iff left.ascending right.ascending

theorem disjoint_comm (left right : Scope) : left.disjoint right = right.disjoint left := by
  rw [Bool.eq_iff_iff, disjoint_iff, disjoint_iff]
  exact ⟨fun apart var inRight inLeft => apart var inLeft inRight,
    fun apart var inLeft inRight => apart var inRight inLeft⟩

theorem union_comm (left right : Scope) : left.union right = right.union left := by
  ext var
  rw [mem_union, mem_union, or_comm]

theorem union_assoc (left right other : Scope) :
    (left.union right).union other = left.union (right.union other) := by
  ext var
  simp only [mem_union, or_assoc]

theorem union_self (scope : Scope) : scope.union scope = scope := by
  ext var
  rw [mem_union, or_self]

inductive Walk : List Nat → List Nat → Nat → Bool → Prop
  | leftEnds (ys : List Nat) : Walk [] ys 0 true
  | rightEnds (xs : List Nat) : Walk xs [] 0 true
  | shared (x : Nat) (xs ys : List Nat) : Walk (x :: xs) (x :: ys) 0 false
  | dropLeft {x y steps : Nat} {xs ys : List Nat} {answer : Bool} (less : x < y)
      (later : Walk xs (y :: ys) steps answer) : Walk (x :: xs) (y :: ys) (steps + 1) answer
  | dropRight {x y steps : Nat} {xs ys : List Nat} {answer : Bool} (greater : y < x)
      (later : Walk (x :: xs) ys steps answer) : Walk (x :: xs) (y :: ys) (steps + 1) answer

theorem Walk.answer_eq {xs ys : List Nat} {steps : Nat} {answer : Bool}
    (walk : Walk xs ys steps answer) : walkApart xs ys = answer := by
  induction walk with
  | leftEnds ys => simp [walkApart]
  | rightEnds xs => cases xs <;> simp [walkApart]
  | shared x xs ys => simp [walkApart]
  | dropLeft less _ ih => rw [walkApart, if_pos less, ih]
  | dropRight greater _ ih => rw [walkApart, if_neg (Nat.lt_asymm greater), if_pos greater, ih]

theorem exists_walk (xs ys : List Nat) :
    ∃ steps ≤ xs.length + ys.length, Walk xs ys steps (walkApart xs ys) := by
  induction xs, ys using walkApart.induct with
  | case1 ys =>
      refine ⟨0, Nat.zero_le _, ?_⟩
      rw [walkApart]
      exact .leftEnds ys
  | case2 xs nonempty =>
      refine ⟨0, Nat.zero_le _, ?_⟩
      rw [walkApart.eq_2 _ nonempty]
      exact .rightEnds xs
  | case3 x xs y ys less ih =>
      obtain ⟨steps, few, walk⟩ := ih
      rw [walkApart, if_pos less]
      exact ⟨steps + 1, by simp only [List.length_cons] at few ⊢; omega, .dropLeft less walk⟩
  | case4 x xs y ys notLess greater ih =>
      obtain ⟨steps, few, walk⟩ := ih
      rw [walkApart, if_neg notLess, if_pos greater]
      exact ⟨steps + 1, by simp only [List.length_cons] at few ⊢; omega, .dropRight greater walk⟩
  | case5 x xs y ys notLess notGreater =>
      obtain rfl : x = y := Nat.le_antisymm (Nat.le_of_not_lt notGreater) (Nat.le_of_not_lt notLess)
      rw [walkApart, if_neg notLess, if_neg notGreater]
      exact ⟨0, Nat.zero_le _, .shared x xs ys⟩

/-- Listing variables, comparing, searching, uniting and walking agree on one finite set. -/
structure ActsAsSet (vars : List Nat) (left right : Scope) : Prop where
  ascending : (ofList vars).vars.Pairwise (· < ·)
  members : ∀ var, var ∈ (ofList vars).vars ↔ var ∈ vars
  sorted : (ofList vars).vars = (vars.mergeSort (· ≤ ·)).destutter (· ≠ ·)
  listed : ofList left.vars = left
  eq_iff : left = right ↔ ∀ var, var ∈ left.vars ↔ var ∈ right.vars
  contains_iff : ∀ var, left.contains var = true ↔ var ∈ left.vars
  mem_union : ∀ var, var ∈ (left.union right).vars ↔ var ∈ left.vars ∨ var ∈ right.vars
  union_comm : left.union right = right.union left
  union_assoc : ∀ other, (left.union right).union other = left.union (right.union other)
  union_self : left.union left = left
  walk_ends : ∃ steps ≤ left.size + right.size,
    Walk left.vars right.vars steps (left.disjoint right)
  walk_only : ∀ steps answer, Walk left.vars right.vars steps answer →
    left.disjoint right = answer
  disjoint_iff : left.disjoint right = true ↔ ∀ var ∈ left.vars, var ∉ right.vars
  disjoint_comm : left.disjoint right = right.disjoint left

theorem actsAsSet (vars : List Nat) (left right : Scope) : ActsAsSet vars left right where
  ascending := Ascending.ofList_ascending vars
  members _ := Ascending.mem_ofList
  sorted := Ascending.ofList_eq_destutter vars
  listed := ofList_vars left
  eq_iff := Scope.ext_iff
  contains_iff _ := contains_iff
  mem_union _ := mem_union
  union_comm := union_comm left right
  union_assoc := union_assoc left right
  union_self := union_self left
  walk_ends := exists_walk left.vars right.vars
  walk_only _ _ walk := walk.answer_eq
  disjoint_iff := disjoint_iff
  disjoint_comm := disjoint_comm left right

end CircuitPlan.Scope
