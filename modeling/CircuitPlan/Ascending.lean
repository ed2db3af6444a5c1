/-!
# Strictly ascending lists

Sets of numbers are kept as strictly ascending lists. This module has insertion, the ascending
list of a set of numbers, and bisection.

* `mem_insert`, `insert_ascending`: insertion adds one member and keeps the order.
* `mem_ofList`, `ofList_ascending`: `ofList` has the members of its argument, in ascending order.
-/

namespace CircuitPlan.Ascending

def insert (v : Nat) : List Nat → List Nat
  | [] => [v]
  | x :: xs => if v < x then v :: x :: xs else if v = x then x :: xs else x :: insert v xs

def ofList (xs : List Nat) : List Nat := xs.foldr insert []

theorem mem_insert {u v : Nat} {xs : List Nat} : u ∈ insert v xs ↔ u = v ∨ u ∈ xs := by
  induction xs with
  | nil => simp [insert]
  | cons x xs ih =>
      unfold insert
      split
      · simp
      · split
        · rename_i equal
          simp [equal]
        · simp only [List.mem_cons, ih]
          constructor
          · rintro (h | h | h) <;> simp [h]
          · rintro (h | h | h) <;> simp [h]

theorem insert_ascending {v : Nat} {xs : List Nat} (ascending : xs.Pairwise (· < ·)) :
    (insert v xs).Pairwise (· < ·) := by
  induction xs with
  | nil => simp [insert]
  | cons x xs ih =>
      obtain ⟨least, rest⟩ := List.pairwise_cons.mp ascending
      unfold insert
      split
      · rename_i less
        refine List.pairwise_cons.mpr ⟨?_, ascending⟩
        intro u member
        rcases List.mem_cons.mp member with rfl | member
        · exact less
        · exact Nat.lt_trans less (least u member)
      · split
        · exact ascending
        · refine List.pairwise_cons.mpr ⟨?_, ih rest⟩
          intro u member
          rcases mem_insert.mp member with rfl | member
          · omega
          · exact least u member

theorem mem_ofList {u : Nat} {xs : List Nat} : u ∈ ofList xs ↔ u ∈ xs := by
  induction xs with
  | nil => simp [ofList]
  | cons x xs ih =>
      have step : ofList (x :: xs) = insert x (ofList xs) := rfl
      rw [step, mem_insert, ih, List.mem_cons]

theorem ofList_ascending (xs : List Nat) : (ofList xs).Pairwise (· < ·) := by
  induction xs with
  | nil => simp [ofList]
  | cons x xs ih => exact insert_ascending ih

def narrow (below : Nat → Bool) (xs : List Nat) (base size : Nat) : Nat :=
  if size ≤ 1 then base
  else
    let middle := base + size / 2
    narrow below xs (if below (xs.getD middle 0) then middle else base) (size - size / 2)
termination_by size
decreasing_by omega

/-- The number of leading entries that are `below`, found by bisection: the entries that are
`below` have to come first. -/
def bisect (below : Nat → Bool) (xs : List Nat) : Nat :=
  if xs = [] then 0
  else
    let last := narrow below xs 0 xs.length
    if below (xs.getD last 0) then last + 1 else last

end CircuitPlan.Ascending
