import Mathlib.Data.List.Induction
import CircuitPlan.Layer.Widths
import CircuitPlan.Proofs.Ascending
import CircuitPlan.Proofs.Checked

namespace CircuitPlan.Widths

section Place

variable {widths : List Nat} {fanIn index : Nat}

theorem place_eq_ok (ascending : widths.Pairwise (· < ·)) :
    place widths fanIn = .ok index ↔
      ∃ inside : index < widths.length, fanIn ≤ widths[index] ∧
        ∀ other ∈ widths, fanIn ≤ other → widths[index] ≤ other := by
  unfold place
  constructor
  · intro placed
    dsimp only at placed
    split at placed
    case isFalse => cases placed
    case isTrue inside =>
      obtain rfl := Except.ok.inj placed
      refine ⟨inside, (Ascending.bisect_le_iff ascending inside).mp (Nat.le_refl _), ?_⟩
      · intro other member fits
        obtain ⟨position, bound, rfl⟩ := List.getElem_of_mem member
        have after := (Ascending.bisect_le_iff ascending bound).mpr fits
        rcases Nat.lt_or_eq_of_le after with before | same
        · exact Nat.le_of_lt (List.pairwise_iff_getElem.mp ascending _ _ inside bound before)
        · exact Nat.le_of_eq (by simp only [same])
  · rintro ⟨inside, fits, least⟩
    have notAfter : ¬ Ascending.bisect (· < fanIn) widths < index := by
      intro before
      have bound := Nat.lt_trans before inside
      have enough := (Ascending.bisect_le_iff (v := fanIn) ascending bound).mp (Nat.le_refl _)
      have larger := List.pairwise_iff_getElem.mp ascending _ index bound inside before
      exact Nat.not_lt_of_le (least _ (List.getElem_mem bound) enough) larger
    have same : Ascending.bisect (· < fanIn) widths = index :=
      Nat.le_antisymm ((Ascending.bisect_le_iff ascending inside).mpr fits)
        (Nat.le_of_not_lt notAfter)
    dsimp only
    rw [same, if_pos inside]

theorem exists_place (ascending : widths.Pairwise (· < ·)) {width : Nat} (member : width ∈ widths)
    (fits : fanIn ≤ width) : ∃ index, place widths fanIn = .ok index := by
  obtain ⟨position, bound, rfl⟩ := List.getElem_of_mem member
  have inside := Nat.lt_of_le_of_lt ((Ascending.bisect_le_iff ascending bound).mpr fits) bound
  exact ⟨Ascending.bisect (· < fanIn) widths, if_pos inside⟩

end Place

structure Serves (fanIns widths : List Nat) : Prop where
  ascending : widths.Pairwise (· < ·)
  of_mem : ∀ width ∈ widths, width ∈ fanIns
  exists_ge : ∀ fanIn ∈ fanIns, ∃ width ∈ widths, fanIn ≤ width

section Choose

variable {fanIns widths : List Nat}

theorem openWidths_sublist (absorbs : Nat → Nat → Bool) (last : Option Nat) (fanIns : List Nat) :
    (openWidths absorbs last fanIns).Sublist fanIns := by
  induction fanIns generalizing last with
  | nil => cases last <;> exact .slnil
  | cons fanIn rest ih =>
      cases last with
      | none => exact (ih _).cons_cons fanIn
      | some width =>
          rw [openWidths]
          split
          · exact (ih _).cons fanIn
          · exact (ih _).cons_cons fanIn

theorem uncapped_serves (absorbs : Nat → Nat → Bool) (fanIns : List Nat) :
    Serves fanIns (uncapped absorbs fanIns) := by
  have opened := openWidths_sublist absorbs none (Ascending.ofList fanIns).reverse
  have kept : (uncapped absorbs fanIns).Sublist (Ascending.ofList fanIns) := by
    have reversed := opened.reverse
    rw [List.reverse_reverse] at reversed
    exact reversed
  refine ⟨(Ascending.ofList_ascending fanIns).sublist kept, ?_, ?_⟩
  · intro width member
    exact Ascending.mem_ofList.mp (kept.subset member)
  · intro fanIn member
    -- The largest fan-in is visited first and always opens a width.
    have present := Ascending.mem_ofList.mpr member
    have ascending := Ascending.ofList_ascending fanIns
    unfold uncapped
    induction split : Ascending.ofList fanIns using List.reverseRecOn with
    | nil => simp [split] at present
    | append_singleton smaller largest =>
        rw [split] at present ascending
        refine ⟨largest, ?_, ?_⟩
        · rw [List.reverse_append, List.reverse_singleton, List.singleton_append, openWidths,
            List.mem_reverse]
          exact List.mem_cons_self
        · exact Ascending.le_last ascending present

theorem Serves.getLast?_eq (serves : Serves fanIns widths) : widths.getLast? = fanIns.max? := by
  cases found : fanIns.max? with
  | none =>
      obtain rfl := List.max?_eq_none_iff.mp found
      rw [List.getLast?_eq_none_iff, List.eq_nil_iff_forall_not_mem]
      exact fun width isWidth => List.not_mem_nil (serves.of_mem width isWidth)
  | some largest =>
      obtain ⟨member, most⟩ := List.max?_eq_some_iff.mp found
      obtain ⟨width, isWidth, fits⟩ := serves.exists_ge largest member
      cases split : widths using List.reverseRecOn with
      | nil =>
          rw [split] at isWidth
          cases isWidth
      | append_singleton narrower last =>
          have ascending := serves.ascending
          rw [split] at isWidth ascending
          have wide := Ascending.le_last ascending isWidth
          have isLast : last ∈ widths := split ▸ List.mem_append_right _ List.mem_cons_self
          have limit := most last (serves.of_mem last isLast)
          rw [List.getLast?_concat, Nat.le_antisymm limit (Nat.le_trans fits wide)]

theorem Serves.place_ok (serves : Serves fanIns widths) {fanIn : Nat} (member : fanIn ∈ fanIns) :
    ∃ index, place widths fanIn = .ok index := by
  obtain ⟨width, isWidth, fits⟩ := serves.exists_ge fanIn member
  exact exists_place serves.ascending isWidth fits

theorem Serves.counts_ok (serves : Serves fanIns widths) :
    ∃ amounts, counts fanIns widths = .ok amounts := by
  obtain ⟨places, placed⟩ := mapM_exists fun fanIn member => serves.place_ok member
  exact ⟨_, by rw [counts, placed]; rfl⟩

theorem Serves.eraseIdx (serves : Serves fanIns widths) {index : Nat}
    (before : index + 1 < widths.length) : Serves fanIns (widths.eraseIdx index) := by
  have kept := List.eraseIdx_sublist widths index
  refine ⟨serves.ascending.sublist kept,
    fun width member => serves.of_mem width (kept.subset member), ?_⟩
  intro fanIn member
  obtain ⟨width, isWidth, fits⟩ := serves.exists_ge fanIn member
  obtain ⟨position, bound, rfl⟩ := List.getElem_of_mem isWidth
  by_cases erased : position = index
  · subst erased
    refine ⟨widths[position + 1], ?_, Nat.le_trans fits (Nat.le_of_lt ?_)⟩
    · exact List.mem_eraseIdx_iff_getElem.mpr ⟨position + 1, before, Nat.succ_ne_self _, rfl⟩
    · exact List.pairwise_iff_getElem.mp serves.ascending _ _ bound before (Nat.lt_succ_self _)
  · exact ⟨widths[position], List.mem_eraseIdx_iff_getElem.mpr ⟨position, bound, erased, rfl⟩, fits⟩

theorem cheapest_lt (counts : List Nat) (several : 2 ≤ widths.length) :
    cheapest counts widths + 1 < widths.length := by
  let costs := (List.range (widths.length - 1)).map (mergeCost counts widths)
  have length : costs.length = widths.length - 1 := by simp [costs]
  have nonempty : costs ≠ [] := List.ne_nil_of_length_pos (by omega)
  have member : costs.min?.getD 0 ∈ costs := by
    obtain ⟨least, found⟩ := Option.ne_none_iff_exists'.mp (List.min?_eq_none_iff.not.mpr nonempty)
    rw [found, Option.getD_some]
    exact List.min?_mem found
  have bound : cheapest counts widths < costs.length := List.idxOf_lt_length_of_mem member
  omega

theorem Serves.merge_ok (serves : Serves fanIns widths) {times : Nat}
    (room : times = 0 ∨ times < widths.length) :
    ∃ merged, merge fanIns times widths = .ok merged ∧ Serves fanIns merged := by
  induction times generalizing widths with
  | zero => exact ⟨widths, rfl, serves⟩
  | succ times ih =>
      have enough := room.resolve_left (Nat.succ_ne_zero times)
      obtain ⟨amounts, counted⟩ := serves.counts_ok
      have several : 2 ≤ widths.length := by omega
      have bound := cheapest_lt amounts several
      have length := List.length_eraseIdx_of_lt (Nat.lt_of_succ_lt bound)
      obtain ⟨merged, success, result⟩ := ih (serves.eraseIdx bound) (by omega)
      refine ⟨merged, ?_, result⟩
      rw [merge, counted]
      exact success

theorem choose_ok (fanIns : List Nat) (tolerance : Float32) (cap : Option Nat) :
    ∃ widths, choose fanIns tolerance cap = .ok widths ∧ Serves fanIns widths := by
  have serves := uncapped_serves (absorbs tolerance) fanIns
  cases cap with
  | none => exact ⟨_, rfl, serves⟩
  | some cap => exact serves.merge_ok (by omega)

end Choose

end CircuitPlan.Widths
