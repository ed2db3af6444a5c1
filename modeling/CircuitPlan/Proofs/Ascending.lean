import Mathlib.Data.List.Destutter
import Mathlib.Data.List.GetD
import Mathlib.Data.List.Sort
import Mathlib.Tactic.ByContra
import CircuitPlan.Ascending

namespace CircuitPlan.Ascending

theorem ofList_eq {xs ys : List Nat} (ascending : ys.Pairwise (· < ·))
    (same : ∀ n, n ∈ xs ↔ n ∈ ys) : ofList xs = ys := by
  apply (ofList_ascending xs).eq_of_mem_iff ascending
  intro n
  rw [mem_ofList, same]

theorem le_last {xs : List Nat} {last n : Nat} (ascending : (xs ++ [last]).Pairwise (· < ·))
    (member : n ∈ xs ++ [last]) : n ≤ last := by
  rcases List.mem_append.mp member with before | same
  · have less := (List.pairwise_append.mp ascending).2.2
    exact Nat.le_of_lt (less n before last (List.mem_singleton_self last))
  · exact Nat.le_of_eq (List.mem_singleton.mp same)

theorem mem_destutter' {xs : List Nat} {first n : Nat} :
    n ∈ xs.destutter' (· ≠ ·) first ↔ n = first ∨ n ∈ xs := by
  induction xs generalizing first with
  | nil => simp
  | cons x xs ih =>
      by_cases repeated : first = x
      · subst repeated
        rw [List.destutter'_cons_neg _ (not_not.mpr rfl), ih, List.mem_cons, or_self_left]
      · rw [List.destutter'_cons_pos _ repeated, List.mem_cons, ih, List.mem_cons]

theorem destutter'_ascending {xs : List Nat} {first : Nat}
    (sorted : (first :: xs).Pairwise (· ≤ ·)) :
    (xs.destutter' (· ≠ ·) first).Pairwise (· < ·) := by
  induction xs generalizing first with
  | nil => exact List.pairwise_singleton _ _
  | cons x xs ih =>
      obtain ⟨least, rest⟩ := List.pairwise_cons.mp sorted
      by_cases repeated : first = x
      · subst repeated
        rw [List.destutter'_cons_neg _ (not_not.mpr rfl)]
        exact ih rest
      · rw [List.destutter'_cons_pos _ repeated]
        refine List.pairwise_cons.mpr ⟨?_, ih rest⟩
        intro n member
        have below : first < x := Nat.lt_of_le_of_ne (least x List.mem_cons_self) repeated
        rcases mem_destutter'.mp member with rfl | later
        · exact below
        · exact Nat.lt_of_lt_of_le below ((List.pairwise_cons.mp rest).1 n later)

theorem ofList_eq_destutter (xs : List Nat) :
    ofList xs = (xs.mergeSort (· ≤ ·)).destutter (· ≠ ·) := by
  have sorted : (xs.mergeSort (· ≤ ·)).Pairwise (· ≤ ·) :=
    List.pairwise_mergeSort' (· ≤ ·) xs
  have members (n : Nat) : n ∈ xs ↔ n ∈ xs.mergeSort (· ≤ ·) := (List.mem_mergeSort ..).symm
  cases equal : xs.mergeSort (· ≤ ·) with
  | nil =>
      rw [equal] at members
      exact ofList_eq .nil members
  | cons first rest =>
      rw [equal] at sorted members
      apply ofList_eq (destutter'_ascending sorted)
      intro n
      rw [members, mem_destutter', List.mem_cons]

variable {below : Nat → Bool} {xs : List Nat}

def Leading (below : Nat → Bool) (xs : List Nat) : Prop :=
  ∀ earlier later, earlier ≤ later → later < xs.length →
    below (xs.getD later 0) = true → below (xs.getD earlier 0) = true

theorem narrow_spec (leading : Leading below xs) {base size : Nat}
    (inside : base + size ≤ xs.length) :
    (narrow below xs base size = base ∨
      narrow below xs base size < base + size ∧
        below (xs.getD (narrow below xs base size) 0) = true) ∧
    ∀ index, narrow below xs base size < index → index < base + size →
      ¬ below (xs.getD index 0) = true := by
  induction size using Nat.strongRecOn generalizing base with
  | _ size ih =>
      rw [narrow]
      split
      · exact ⟨.inl rfl, fun index above within => by omega⟩
      · dsimp only
        split
        case isTrue lower =>
          have upperHalf : base + size / 2 + (size - size / 2) ≤ xs.length := by omega
          obtain ⟨found, beyond⟩ := ih (size - size / 2) (by omega) upperHalf
          refine ⟨.inr ?_, fun index above within => beyond index above (by omega)⟩
          rcases found with same | ⟨within, holds⟩
          · rw [same]
            exact ⟨by omega, lower⟩
          · exact ⟨by omega, holds⟩
        case isFalse upper =>
          have lowerHalf : base + (size - size / 2) ≤ xs.length := by omega
          obtain ⟨found, beyond⟩ := ih (size - size / 2) (by omega) lowerHalf
          refine ⟨found.imp_right fun ⟨within, holds⟩ => ⟨by omega, holds⟩, ?_⟩
          intro index above within holds
          by_cases near : index < base + (size - size / 2)
          · exact beyond index above near holds
          · exact upper (leading _ index (by omega) (by omega) holds)

theorem lt_bisect_iff_below (leading : Leading below xs) {index : Nat}
    (inside : index < xs.length) :
    index < bisect below xs ↔ below (xs.getD index 0) = true := by
  have nonempty : xs ≠ [] := List.ne_nil_of_length_pos (Nat.zero_lt_of_lt inside)
  have whole : 0 + xs.length ≤ xs.length := Nat.le_of_eq (Nat.zero_add _)
  obtain ⟨found, beyond⟩ := narrow_spec leading whole
  rw [Nat.zero_add] at found beyond
  rw [bisect, if_neg nonempty]
  dsimp only
  split
  case isTrue last =>
    constructor
    · intro before
      refine leading index _ (Nat.le_of_lt_succ before) ?_ last
      rcases found with same | ⟨within, -⟩
      · rw [same]
        exact Nat.zero_lt_of_lt inside
      · exact within
    · intro holds
      by_contra after
      exact beyond index (by omega) inside holds
  case isFalse last =>
    -- Only the start is looked at without being `below`.
    have start := found.resolve_right fun ⟨_, holds⟩ => last holds
    rw [start] at last beyond ⊢
    constructor
    · intro before
      exact absurd before (Nat.not_lt_zero index)
    · intro holds
      by_cases first : index = 0
      · exact absurd (first ▸ holds) last
      · exact absurd holds (beyond index (Nat.pos_of_ne_zero first) inside)

variable {v : Nat}

theorem leading_lt (ascending : xs.Pairwise (· < ·)) (v : Nat) : Leading (· < v) xs := by
  intro earlier later before inside holds
  rw [decide_eq_true_iff] at holds ⊢
  rcases Nat.lt_or_eq_of_le before with less | rfl
  · have between := List.pairwise_iff_getElem.mp ascending earlier later
      (Nat.lt_trans less inside) inside less
    rw [List.getD_eq_getElem _ _ inside] at holds
    rw [List.getD_eq_getElem _ _ (Nat.lt_trans less inside)]
    exact Nat.lt_trans between holds
  · exact holds

theorem lt_bisect_iff (ascending : xs.Pairwise (· < ·)) {index : Nat} (inside : index < xs.length) :
    index < bisect (· < v) xs ↔ xs[index] < v := by
  rw [lt_bisect_iff_below (leading_lt ascending v) inside, decide_eq_true_iff,
    List.getD_eq_getElem _ _ inside]

theorem bisect_le_iff (ascending : xs.Pairwise (· < ·)) {index : Nat} (inside : index < xs.length) :
    bisect (· < v) xs ≤ index ↔ v ≤ xs[index] := by
  rw [← Nat.not_lt, lt_bisect_iff ascending inside, Nat.not_lt]

end CircuitPlan.Ascending
